import EventSourcing.Proofs.Lane.Handlers

/-!
Turns of an engine with jobs in lanes.
Whatever such an engine meets, and whatever happens between its turns, leaves the jobs and their lanes
in order. In each turn the jobs that begin are those that leave the front of a queue, and work changes
only by running.
-/
namespace EventSourcing

/-- The jobs that begin in the turn. -/
def Turn.begins {ρ : Type} (t : Turn ρ) : List Nat :=
  (t.after.requestsWith fun q => q.begun.isSome).filter fun r =>
    !(t.engine.request? r).any fun q => q.begun.isSome

namespace LaneTraffic
open Engine
variable {ρ : Type} {lane : Nat → AggregateId} {e e' : Engine ρ} {sent : List Nat}
  {clock : Engine ρ → Nat → Prop} {t : Turn ρ} {r : Nat}
  {q q' : Request ρ} {a : AggregateId}

/-- All requests go through the lanes that are theirs. -/
abbrev Laning (lane : Nat → AggregateId) (r : Nat) (q : Request ρ) : Prop := q.route = .lane (lane r)

theorem orderly_ofWorld (w : World) (c : PoolConfig) :
    Orderly lane (ofWorld (ρ := ρ) w c) [] none where
  booked := booked_ofWorld w c
  heard r hr := by cases hr
  signals d hd := by cases hd
  idle := ⟨rfl, rfl⟩
  alive a l hl := by cases hl
  routes r q hq := by cases hq
  unsent r q hq := by cases hq
  placed r hr := by cases hr
  jobs r q hq := by cases hq
  cut a := ⟨[], [], rfl, by simp, by simp, by simp [queue, ofWorld, Lanes.get?], rfl⟩

/-- A new request waits to be called. -/
theorem Orderly.add (h : Orderly lane e sent none) (new : q.IsNew)
    (route : q.route = .lane (lane e.requests.length)) : Orderly lane (e.add q).2 sent none := by
  have kept {r : Nat} (made : (e.request? r).isSome) : (e.add q).2.request? r = e.request? r :=
    request?_add_of_isSome made q
  have stageOf (r : Nat) (hr : r ∈ sent) : (e.add q).2.stage? r = e.stage? r := by
    rw [stage?, kept (h.booked.made r hr), stage?]
  have unheard : e.due (.caller e.requests.length) = 0 := by
    refine Nat.eq_zero_of_not_pos fun hr => ?_
    have made := h.heard _ hr
    rw [request?_length] at made
    cases made
  refine h.step (fun r q' hq' => ?_) (fun _ => id) (h.booked.add q) (fun r hr => ?_) h.signals
    h.idle h.alive (fun r hr waits => ?_) fun a => ?_
  · by_cases hr : e.requests.length = r
    · subst hr
      rw [request?_add, if_pos rfl, Option.some.injEq] at hq'
      subst hq'
      obtain ⟨_, _, _, _, rfl⟩ := new
      exact .inr ⟨⟨route, rfl⟩, fun _ => rfl, .queued rfl rfl rfl rfl rfl h.booked.idle unheard⟩
    · exact .inl ⟨(request?_add ..).trans (if_neg hr), rfl, rfl, id, fun _ hd _ => hd⟩
  · rw [kept (h.heard r hr)]
    exact h.heard r hr
  · rw [stageOf r hr] at waits
    exact h.placed r hr waits
  · exact (h.cut a).congr rfl rfl rfl rfl fun r hr _ => stageOf r hr

/-- A signal that is taken from the agenda is in hand. -/
theorem Orderly.take (h : Orderly lane e sent none) {before after : Agenda Signal}
    {d : Due Signal} (ha : e.agenda = before ++ d :: after) (t : Nat) :
    Orderly lane (e.taken before after t) sent (some d.signal) := by
  have same (s : Signal) : (e.taken before after t).ahead (some d.signal) s = e.ahead none s := by
    rw [ahead, ahead, due_taken ha t s]
    simp
  have less (s : Signal) (hs : 0 < (e.taken before after t).due s) : 0 < e.due s := by
    rw [due_taken ha t s]
    omega
  have old (d' : Due Signal) (hd' : d' ∈ (e.taken before after t).agenda) : d' ∈ e.agenda := by
    rw [ha]
    obtain before | after := List.mem_append.1 hd'
    · exact List.mem_append_left _ before
    · exact List.mem_append_right _ (List.mem_cons_of_mem d after)
  exact h.still (fun r _ => ⟨rfl, same _, same _, by simp, fun d' hd' _ => old d' hd'⟩)
    (fun _ => id) rfl (fun _ => same _) (h.booked.pop ha t) (fun r hr => h.heard r (less _ hr))
    (fun d' hd' => h.signals d' (old d' hd')) h.idle

/-- A signal from outside is in hand. -/
theorem Orderly.meet (h : Orderly lane e sent none) (s : Signal)
    (notified : (∃ r, s = .call r) ∨ ∃ d, s = .close d) : Orderly lane e sent (some s) := by
  have same (s' : Signal) (hs : s ≠ s') : e.ahead (some s) s' = e.ahead none s' :=
    (ahead_of_ne e hs).symm
  obtain ⟨r, rfl⟩ | ⟨d, rfl⟩ := notified
  · exact h.still (fun _ _ => ⟨rfl, same _ (by simp), same _ (by simp), by simp, fun _ hd _ => hd⟩)
      (fun _ => id) rfl (fun _ => same _ (by simp)) h.booked h.heard h.signals h.idle
  · exact h.still (fun _ _ => ⟨rfl, same _ (by simp), same _ (by simp), by simp, fun _ hd _ => hd⟩)
      (fun _ => id) rfl (fun _ => same _ (by simp)) h.booked h.heard h.signals h.idle

theorem Orderly.next (h : Orderly lane e sent none) (next : Next (Laning lane) clock e t) :
    Orderly lane t.engine sent (some t.signal) ∧ Meets t.engine sent t.signal ∧
      ∀ a, t.engine.queue a = e.queue a := by
  obtain ⟨booked, calls⟩ := h.booked.next next
  cases next with
  | call q new fit =>
      refine ⟨(h.add new fit).meet _ (.inl ⟨_, rfl⟩), ⟨rfl, calls, ?_⟩, fun _ => rfl⟩
      rintro r hr
      cases hr
  | @due before d after t ha later hdue allowed =>
      have here : d ∈ e.agenda := by
        rw [ha]
        exact List.mem_append_right _ List.mem_cons_self
      refine ⟨h.take ha t, ⟨h.signals d here, calls, fun r hr q hq stage => ?_⟩, fun _ => rfl⟩
      cases h.jobs r q hq with
      | queued pending => simp [stage] at pending
      | finished _ isOver => simp [stage] at isOver
      | running _ _ _ _ _ _ _ begins timed =>
          refine ⟨Bool.eq_false_iff.2 fun fresh => ?_, fun wake wakeable rest work => ?_⟩
          · cases begins fresh
          · exact Nat.le_trans (timed wake wakeable rest work d here hr) hdue
  | close drain =>
      refine ⟨(h.aside h.idle _ e.world).meet _ (.inr ⟨_, rfl⟩), ⟨rfl, calls, ?_⟩, fun _ => rfl⟩
      rintro r hr
      cases hr

/-- A signal that is due from outside matters only when it is met. -/
theorem Orderly.ask (h : Orderly lane e sent none) (rank : Rank) {s : Signal}
    (notified : (∃ r, s = .call r) ∨ ∃ d, s = .close d) (booked : (e.wake rank s).Booked sent) :
    Orderly lane (e.wake rank s) sent none := by
  have laning : s.isLaning = true ∧ (∀ r, s ≠ .work r) ∧ (∀ r, s ≠ .caller r) ∧
      ∀ a, s ≠ .worker a := by
    obtain ⟨r, rfl⟩ | ⟨d, rfl⟩ := notified <;> simp [Signal.isLaning]
  obtain ⟨laning, work, caller, worker⟩ := laning
  have same (s' : Signal) (hs : s ≠ s') : (e.wake rank s).ahead none s' = e.ahead none s' := by
    rw [ahead_wake, if_neg hs, Nat.add_zero]
  refine h.still (fun r _ => ⟨rfl, same _ (work r), same _ (caller r), id, fun d hd hs => ?_⟩)
    (fun _ => id) rfl (fun a => same _ (worker a)) booked (fun r hr => ?_) (fun d hd => ?_) h.idle
  · obtain rfl | hd := Agenda.mem_push.1 hd
    · exact absurd hs (work r)
    · exact hd
  · rw [due_wake, if_neg (caller r), Nat.add_zero] at hr
    exact h.heard r hr
  · obtain rfl | hd := Agenda.mem_push.1 hd
    · exact laning
    · exact h.signals d hd

theorem Orderly.between (h : Orderly lane e sent none)
    (between : Between (Laning lane) clock e e') :
    Orderly lane e' sent none ∧ ∀ a, e'.queue a = e.queue a := by
  have booked := h.booked.between between
  cases between with
  | spawn q new fit =>
      exact ⟨(h.add new fit).ask _ (.inl ⟨_, rfl⟩) booked, fun _ => rfl⟩
  | spawnShutDown =>
      exact ⟨(h.aside h.idle _ e.world).ask _ (.inr ⟨_, rfl⟩) booked, fun _ => rfl⟩
  | aside w later allowed => exact ⟨h.aside h.idle e.drains w, fun _ => rfl⟩

theorem mem_begins : r ∈ t.begins ↔ (∃ q, t.after.request? r = some q ∧ q.begun ≠ none) ∧
    ∀ q, t.engine.request? r = some q → q.begun = none := by
  rw [Turn.begins, List.mem_filter, mem_requestsWith, Bool.not_eq_true', Option.any_eq_false]
  simp only [Option.isSome_iff_ne_none, Option.isSome_eq_false_iff, Option.isNone_iff_eq_none]

theorem begins_eq_nil (old : ∀ r q', t.after.request? r = some q' → q'.begun ≠ none →
    ∃ q, t.engine.request? r = some q ∧ q.begun ≠ none) : t.begins = [] := by
  rw [List.eq_nil_iff_forall_not_mem]
  intro r hr
  obtain ⟨⟨q', hq', begun⟩, idle⟩ := mem_begins.1 hr
  obtain ⟨q, hq, old⟩ := old r q' hq' begun
  exact old (idle q hq)

theorem task_back (tasks : (e'.request? r).map Request.task = (e.request? r).map Request.task)
    (hq' : e'.request? r = some q') :
    ∃ q, e.request? r = some q ∧ q'.work = q.work ∧ q'.begun = q.begun := by
  rw [hq', Option.map_some] at tasks
  obtain ⟨q, hq, same⟩ := Option.map_eq_some_iff.1 tasks.symm
  simp only [Request.task, Prod.mk.injEq] at same
  exact ⟨q, hq, same.2.1.symm, same.2.2.symm⟩

section Effects
variable (effect : Effect lane t.engine t.after t.signal)
include effect

/-- The jobs that begin in a turn are those that leave the front of a queue, and the jobs that are
called come to its end. -/
theorem begins_in_order (a : AggregateId) :
    t.begins.filter (lane · = a) ++ t.after.queue a =
      t.engine.queue a ++ t.signal.submits.filter (lane · = a) := by
  generalize hs : t.signal = s at effect
  cases effect with
  | joins r queue tasks =>
      have none : t.begins = [] := begins_eq_nil fun r q' hq' begun => by
        obtain ⟨q, hq, _, same⟩ := task_back (tasks r) hq'
        exact ⟨q, hq, same ▸ begun⟩
      rw [none, queue]
      rfl
  | rests none queue tasks =>
      have nobody : t.begins = [] := begins_eq_nil fun r q' hq' begun => by
        obtain ⟨q, hq, _, same⟩ := task_back (tasks r) hq'
        exact ⟨q, hq, same ▸ begun⟩
      rw [nobody, none, queue]
      simp
  | resumes r queue hq begun next runs =>
      have none : t.begins = [] := begins_eq_nil fun r' q' hq' began => by
        by_cases hr : r = r'
        · subst hr
          exact ⟨_, hq, begun⟩
        · rw [runs.others r' hr] at hq'
          exact ⟨q', hq', began⟩
      rw [none, queue]
      simp [Signal.submits]
  | @begins r q x b ours queue hq idle next runs =>
      obtain ⟨q', hq', _, began⟩ := runs.here
      have one : t.begins = [r] := by
        have only (r' : Nat) : r' ∈ t.begins ↔ r' ∈ [r] := by
          rw [mem_begins, List.mem_singleton]
          constructor
          · rintro ⟨⟨q₁, hq₁, begun⟩, unbegun⟩
            by_contra other
            rw [runs.others r' (Ne.symm other)] at hq₁
            exact begun (unbegun q₁ hq₁)
          · rintro rfl
            refine ⟨⟨q', hq', began⟩, fun q₁ hq₁ => ?_⟩
            rw [hq, Option.some.injEq] at hq₁
            rw [← hq₁]
            exact idle
        have nodup : t.begins.Nodup := (nodup_requestsWith _ _).filter _
        exact List.perm_singleton.1
          ((List.perm_ext_iff_of_nodup nodup (List.nodup_singleton r)).2 only)
      rw [one, queue]
      simp [Signal.submits]

/-- Work changes only by running as far as it can in the world that the turn meets. -/
theorem work_goes_on (hq : t.engine.request? r = some q) (hq' : t.after.request? r = some q') :
    q'.work = q.work ∨ ∃ x, q.next? t.time = some x ∧
      q'.work = (x.advance false t.engine.world).2.jobWork t.time := by
  have rests (tasks : ∀ r, (t.after.request? r).map Request.task =
      (t.engine.request? r).map Request.task) : q'.work = q.work := by
    obtain ⟨q₁, hq₁, same, _⟩ := task_back (tasks r) hq'
    rw [hq, Option.some.injEq] at hq₁
    rw [same, hq₁]
  have goes {r' : Nat} {q₁ : Request ρ} {x : Activity ρ} (hq₁ : t.engine.request? r' = some q₁)
      (next : q₁.next? t.engine.now = some x) (runs : Runs t.engine t.after r' q₁ x) :
      q'.work = q.work ∨ ∃ x, q.next? t.time = some x ∧
        q'.work = (x.advance false t.engine.world).2.jobWork t.time := by
    by_cases hr : r' = r
    · subst hr
      rw [hq, Option.some.injEq] at hq₁
      subst hq₁
      obtain ⟨q₂, hq₂, work, _⟩ := runs.here
      rw [hq', Option.some.injEq] at hq₂
      subst hq₂
      exact .inr ⟨x, next, work⟩
    · rw [runs.others r hr, hq, Option.some.injEq] at hq'
      rw [hq']
      exact .inl rfl
  generalize hs : t.signal = s at effect
  cases effect with
  | joins _ _ tasks | rests _ _ tasks => exact .inl (rests tasks)
  | begins _ _ _ hq₁ _ next runs => exact goes hq₁ next runs
  | resumes _ _ hq₁ _ next runs => exact goes hq₁ next runs

end Effects

end LaneTraffic
end EventSourcing
