import EventSourcing.Proofs.Engine.Traffic

/-!
What is due, and what passes between turns.
A signal is due at a time. While no signal is handled new requests may be made, the pool may be asked
to close, and time goes on, but not over what is due, where the engine is left to itself.
-/
namespace EventSourcing

namespace Engine
variable {ρ : Type} {e e' : Engine ρ} {t t' : Nat} {s s' : Signal}

/-- A signal is due at a time. -/
def DueAt (e : Engine ρ) (s : Signal) (t : Nat) : Prop := ∃ d ∈ e.agenda, d.signal = s ∧ d.time = t

theorem dueAt_schedule {rank : Rank} :
    (e.schedule t rank s).DueAt s' t' ↔ (s = s' ∧ t = t') ∨ e.DueAt s' t' := by
  constructor
  · rintro ⟨d, hd, signal, time⟩
    obtain rfl | old := Agenda.mem_push.1 hd
    · exact .inl ⟨signal, time⟩
    · exact .inr ⟨d, old, signal, time⟩
  · rintro (⟨rfl, rfl⟩ | ⟨d, hd, signal, time⟩)
    · exact ⟨_, Agenda.mem_push.2 (.inl rfl), rfl, rfl⟩
    · exact ⟨d, Agenda.mem_push.2 (.inr hd), signal, time⟩

/-- A time is past: it has come, and nothing is due any more that was due by then. -/
def Past (e : Engine ρ) (t : Nat) : Prop := t ≤ e.now ∧ ∀ d ∈ e.agenda, t < d.time

instance : Decidable (e.Past t) := inferInstanceAs (Decidable (_ ∧ _))

theorem Past.not_due (h : e.Past t) (due : e.DueAt s t') (early : t' ≤ t) : False := by
  obtain ⟨d, hd, _, rfl⟩ := due
  have late := h.2 d hd
  omega

theorem Past.mono (h : e.Past t) (early : t' ≤ t) : e.Past t' :=
  ⟨Nat.le_trans early h.1, fun d hd => Nat.lt_of_le_of_lt early (h.2 d hd)⟩

theorem dueAt_wake {rank : Rank} :
    (e.wake rank s).DueAt s' t' ↔ (s = s' ∧ e.now = t') ∨ e.DueAt s' t' := dueAt_schedule

theorem dueAt_wake_self (e : Engine ρ) (rank : Rank) (s : Signal) :
    (e.wake rank s).DueAt s e.now := dueAt_wake.2 (.inl ⟨rfl, rfl⟩)

theorem due_pos : 0 < e.due s ↔ ∃ τ, e.DueAt s τ := by
  rw [Engine.due, List.countP_pos_iff]
  constructor
  · rintro ⟨d, hd, hs⟩
    exact ⟨d.time, d, hd, by simpa using hs, rfl⟩
  · rintro ⟨_, d, hd, hs, _⟩
    exact ⟨d, hd, by simpa using hs⟩

theorem dueAt_taken {before after : Agenda Signal} {d : Due Signal} {τ : Nat}
    (ha : e.agenda = before ++ d :: after) (time : Nat) :
    e.DueAt s τ ↔ d.signal = s ∧ d.time = τ ∨ (e.taken before after time).DueAt s τ := by
  simp only [DueAt, ha, taken, List.mem_append, List.mem_cons]
  constructor
  · rintro ⟨d', before | rfl | after, signal, time⟩
    · exact .inr ⟨d', .inl before, signal, time⟩
    · exact .inl ⟨signal, time⟩
    · exact .inr ⟨d', .inr after, signal, time⟩
  · rintro (⟨signal, time⟩ | ⟨d', before | after, signal, time⟩)
    · exact ⟨d, .inr (.inl rfl), signal, time⟩
    · exact ⟨d', .inl before, signal, time⟩
    · exact ⟨d', .inr (.inr after), signal, time⟩

end Engine

/-- A signal is due at a time, or is being handled then. -/
def Turn.DueAt {ρ : Type} (t : Turn ρ) (s : Signal) (τ : Nat) : Prop :=
  t.signal = s ∧ t.time = τ ∨ t.engine.DueAt s τ

namespace Engine
variable {ρ : Type} {kind : Nat → Request ρ → Prop} {e e' : Engine ρ} {t : Turn ρ}
  {r d : Nat} {q' : Request ρ} {due : Signal → Nat → Prop}

/-- What passes while no signal is handled: new requests may be made, others wait for the pool to
run empty, and time goes on, but not over what is due. -/
structure Passes (e e' : Engine ρ) (due : Signal → Nat → Prop) : Prop where
  now : e.now ≤ e'.now
  pool : e'.pool = e.pool
  requests : ∀ r q, e.request? r = some q → e'.request? r = some q
  new : ∀ r q, e'.request? r = some q → e.request? r = some q ∨ q.IsNew
  drains : ∀ (d : Nat) (dr : Drain), e.drains[d]? = some dr → e'.drains[d]? = some dr
  undrained : e.drains.length ≤ e'.drains.length
  stays : ∀ s τ, e.DueAt s τ → due s τ
  onTime : ∀ s τ, e.DueAt s τ → e'.now ≤ max e.now τ
  asked : ∀ s τ, due s τ → e.DueAt s τ ∨
    e'.now = τ ∧ ((∃ r, s = .call r) ∨ ∃ d, s = .close d)
  closes : ∀ d τ, due (.close d) τ → e.DueAt (.close d) τ ∨ e.drains.length ≤ d

namespace Passes
variable (h : Passes e e' due)
include h

theorem later (s : Signal) (τ : Nat) (hdue : due s τ) : e.DueAt s τ ∨ e'.now ≤ τ :=
  (h.asked s τ hdue).imp_right fun ⟨now, _⟩ => Nat.le_of_eq now

theorem drained (d τ : Nat) (hdue : due (.drained d) τ) : e.DueAt (.drained d) τ :=
  (h.asked _ τ hdue).resolve_right (by simp)

/-- Time stands still while anything is due. -/
theorem now_eq {s : Signal} (notified : e.DueAt s e.now) : e'.now = e.now := by
  have onTime := h.onTime s e.now notified
  have later := h.now
  omega

end Passes

theorem request?_add_new {q : Request ρ} (new : q.IsNew) (hq' : (e.add q).2.request? r = some q') :
    e.request? r = some q' ∨ q'.IsNew := by
  rw [request?_add] at hq'
  split at hq'
  · cases hq'
    exact .inr new
  · exact .inl hq'

theorem request?_add_old {q : Request ρ} (hq' : e.request? r = some q') :
    (e.add q).2.request? r = some q' := by
  rw [request?_add_of_isSome (by rw [hq']; rfl)]
  exact hq'

theorem drains_concat {dr dr' : Drain} (hdr : e.drains[d]? = some dr) :
    (e.drains ++ [dr'])[d]? = some dr :=
  (List.getElem?_append_left (List.getElem?_eq_some_iff.1 hdr).1).trans hdr

/-- A request is made, and its call becomes due. -/
theorem passes_of_call {q : Request ρ} (new : q.IsNew)
    (added : e'.requests = (e.add q).2.requests) (now : e'.now = e.now) (pool : e'.pool = e.pool)
    (drains : e'.drains = e.drains)
    (dues : ∀ s τ, due s τ ↔ .call e.requests.length = s ∧ e.now = τ ∨ e.DueAt s τ) :
    Passes e e' due where
  now := Nat.le_of_eq now.symm
  pool := pool
  requests r q' hq' := (congrArg (·[r]?) added).trans (request?_add_old hq')
  new r q' hq' := request?_add_new new ((congrArg (·[r]?) added).symm.trans hq')
  drains d dr hdr := by
    rw [drains]
    exact hdr
  undrained := Nat.le_of_eq (congrArg List.length drains).symm
  stays s τ old := (dues s τ).2 (.inr old)
  onTime _ _ _ := Nat.le_trans (Nat.le_of_eq now) (Nat.le_max_left ..)
  asked s τ hdue := by
    obtain ⟨call, here⟩ | old := (dues s τ).1 hdue
    · exact .inr ⟨now.trans here, .inl ⟨_, call.symm⟩⟩
    · exact .inl old
  closes d τ hdue := .inl (((dues _ τ).1 hdue).resolve_left (by simp))

/-- The pool is asked to close. -/
theorem passes_of_close {drain : Drain} (requests : e'.requests = e.requests)
    (now : e'.now = e.now) (pool : e'.pool = e.pool) (drains : e'.drains = e.drains ++ [drain])
    (dues : ∀ s τ, due s τ ↔ .close e.drains.length = s ∧ e.now = τ ∨ e.DueAt s τ) :
    Passes e e' due where
  now := Nat.le_of_eq now.symm
  pool := pool
  requests r _ hq := (congrArg (·[r]?) requests).trans hq
  new r _ hq := .inl ((congrArg (·[r]?) requests).symm.trans hq)
  drains d dr hdr := by
    rw [drains]
    exact drains_concat hdr
  undrained := by
    rw [drains, List.length_append]
    exact Nat.le_add_right ..
  stays s τ old := (dues s τ).2 (.inr old)
  onTime _ _ _ := Nat.le_trans (Nat.le_of_eq now) (Nat.le_max_left ..)
  asked s τ hdue := by
    obtain ⟨close, here⟩ | old := (dues s τ).1 hdue
    · exact .inr ⟨now.trans here, .inr ⟨_, close.symm⟩⟩
    · exact .inl old
  closes d τ hdue := by
    obtain ⟨same, _⟩ | old := (dues _ τ).1 hdue
    · exact .inr (Nat.le_of_eq (Signal.close.inj same))
    · exact .inl old

/-- Time goes on, but not over what is due. -/
theorem passes_of_time (later : e.now ≤ e'.now) (allowed : OnTime e e'.now)
    (requests : e'.requests = e.requests) (pool : e'.pool = e.pool) (drains : e'.drains = e.drains)
    (dues : ∀ s τ, due s τ ↔ e.DueAt s τ) : Passes e e' due where
  now := later
  pool := pool
  requests r _ hq := (congrArg (·[r]?) requests).trans hq
  new r _ hq := .inl ((congrArg (·[r]?) requests).symm.trans hq)
  drains d dr hdr := by
    rw [drains]
    exact hdr
  undrained := Nat.le_of_eq (congrArg List.length drains).symm
  stays s τ := (dues s τ).2
  onTime s τ hdue := by
    obtain ⟨d, hd, _, rfl⟩ := hdue
    exact allowed d hd
  asked s τ hdue := .inl ((dues s τ).1 hdue)
  closes d τ hdue := .inl ((dues _ τ).1 hdue)

theorem passes_next (ahead : ∀ s τ, e.DueAt s τ → e.now ≤ τ) (next : Next kind OnTime e t) :
    Passes e t.engine t.DueAt := by
  cases next with
  | call q new fit => exact passes_of_call new rfl rfl rfl rfl fun _ _ => .rfl
  | close drain => exact passes_of_close rfl rfl rfl rfl fun _ _ => .rfl
  | @due before d after time ha later hdue allowed =>
      refine passes_of_time later allowed rfl rfl rfl fun s τ => ?_
      have here : d ∈ e.agenda := by simp [ha]
      have onTime : time = d.time := by
        have passed := allowed d here
        have early := ahead d.signal d.time ⟨d, here, rfl, rfl⟩
        omega
      rw [dueAt_taken ha time, ← onTime]
      rfl

theorem passes_between (between : Between kind OnTime e e') : Passes e e' e'.DueAt := by
  cases between with
  | spawn q new fit => exact passes_of_call new rfl rfl rfl rfl fun _ _ => dueAt_wake
  | spawnShutDown => exact passes_of_close rfl rfl rfl rfl fun _ _ => dueAt_wake
  | aside w later allowed => exact passes_of_time later allowed rfl rfl rfl fun _ _ => .rfl

section InOrder

/-- What is due stands in the agenda in the order of its times. -/
def Sorted (e : Engine ρ) : Prop := e.agenda.Pairwise fun d d' => d.time ≤ d'.time

theorem Sorted.schedule (h : e.Sorted) (time : Nat) (rank : Rank) (s : Signal) :
    (e.schedule time rank s).Sorted := Agenda.sorted_push _ h

theorem Sorted.next {clock : Engine ρ → Nat → Prop} (h : e.Sorted) (next : Next kind clock e t) :
    t.engine.Sorted := by
  cases next with
  | call | close => exact h
  | due time ha =>
      rw [Sorted, ha] at h
      exact h.sublist (List.Sublist.append (List.Sublist.refl _) (List.sublist_cons_self ..))

theorem Sorted.between {clock : Engine ρ → Nat → Prop} (h : e.Sorted)
    (between : Between kind clock e e') : e'.Sorted := by
  cases between with
  | spawn | spawnShutDown => exact Sorted.schedule h ..
  | aside => exact h

variable (h : e.Sorted)
include h

/-- Nothing is due before what comes first. -/
theorem Sorted.head_le {d d' : Due Signal} {rest : Agenda Signal} (ha : e.agenda = d :: rest)
    (hd' : d' ∈ e.agenda) : d.time ≤ d'.time := by
  rw [Sorted, ha] at h
  rw [ha] at hd'
  obtain rfl | later := List.mem_cons.1 hd'
  · exact Nat.le_refl _
  · exact (List.pairwise_cons.1 h).1 d' later

/-- An engine that handles what is due first lets no time pass over what is due. -/
theorem Sorted.onTime {d : Due Signal} {rest : Agenda Signal} (ha : e.agenda = d :: rest) :
    OnTime e (max e.now d.time) := by
  intro d' hd'
  have early := h.head_le ha hd'
  omega

/-- Where nothing is due before a time, all that is due is due at that time or later. -/
theorem Sorted.le_of_quiet {time : Nat} {d : Due Signal} (quiet : quietBefore time e = true)
    (hd : d ∈ e.agenda) : time ≤ d.time := by
  rw [quietBefore] at quiet
  cases ha : e.agenda with
  | nil =>
      rw [ha] at hd
      cases hd
  | cons first rest =>
      rw [ha] at quiet
      exact Nat.le_trans (of_decide_eq_true quiet) (h.head_le ha hd)

theorem Sorted.onTime_of_quiet {time : Nat} (quiet : quietBefore time e = true) :
    OnTime e time := fun _ hd =>
  Nat.le_trans (h.le_of_quiet quiet hd) (Nat.le_max_right ..)

end InOrder
end Engine
end EventSourcing
