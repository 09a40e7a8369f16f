import EventSourcing.Proofs.Engine.Course

/-!
Traffic at an engine.
Requests of some kind are made and called at any time, in front or in the background, what is due is
handled in any order that the clock allows, the pool may be asked to shut down, and others do to the
world what they like. Each request is called once, and everybody who is called is known.
-/
namespace EventSourcing

/-- The request as it is made, before it is called. -/
def Request.IsNew {ρ : Type} (q : Request ρ) : Prop :=
  ∃ route limit foreground x, q = { route, limit, foreground, work := .fresh x }

namespace Engine
variable {ρ : Type} {kind : Nat → Request ρ → Prop} {clock : Engine ρ → Nat → Prop} {e e' e₀ : Engine ρ}
  {sent : List Nat} {r : Nat} {q : Request ρ}

/-- The requests that have a property, in the order in which they were made. -/
def requestsWith (e : Engine ρ) (p : Request ρ → Bool) : List Nat :=
  (List.range e.requests.length).filter fun r => (e.request? r).any p

theorem mem_requestsWith {e : Engine ρ} {p : Request ρ → Bool} {r : Nat} :
    r ∈ e.requestsWith p ↔ ∃ q, e.request? r = some q ∧ p q = true := by
  rw [requestsWith, List.mem_filter, Option.any_eq_true, List.mem_range]
  refine and_iff_right_of_imp fun ⟨q, hq, _⟩ => ?_
  exact (List.getElem?_eq_some_iff.1 hq).1

theorem nodup_requestsWith (e : Engine ρ) (p : Request ρ → Bool) : (e.requestsWith p).Nodup :=
  List.nodup_range.filter _

/-- The turns that an engine may take. -/
inductive Next (kind : Nat → Request ρ → Prop) (clock : Engine ρ → Nat → Prop) (e : Engine ρ) :
    Turn ρ → Prop
  | call (q : Request ρ) (new : q.IsNew) (fit : kind e.requests.length q) :
      Next kind clock e ⟨(e.add q).2, .call e.requests.length⟩
  | due {before d after} (t : Nat) (ha : e.agenda = before ++ d :: after) (later : e.now ≤ t)
      (hdue : d.time ≤ t) (allowed : clock e t) :
      Next kind clock e ⟨e.taken before after t, d.signal⟩
  | close (drain : Drain) : Next kind clock e ⟨(e.addDrain drain).2, .close e.drains.length⟩

/-- What may happen to an engine between its turns. -/
inductive Between (kind : Nat → Request ρ → Prop) (clock : Engine ρ → Nat → Prop) (e : Engine ρ) :
    Engine ρ → Prop
  | spawn (q : Request ρ) (new : q.IsNew) (fit : kind e.requests.length q) : Between kind clock e (e.spawn q).2
  | spawnShutDown : Between kind clock e e.spawnShutDown.2
  | aside (w : World) (later : e.now ≤ w.now) (allowed : clock e w.now) :
      Between kind clock e { e with world := w }

/-- The turns that lead from one engine to another. -/
inductive Course (kind : Nat → Request ρ → Prop) (clock : Engine ρ → Nat → Prop) (e₀ : Engine ρ) :
    List (Turn ρ) → Engine ρ → Prop
  | start : Course kind clock e₀ [] e₀
  | turn {ts e t} (h : Course kind clock e₀ ts e) (next : Next kind clock e t) :
      Course kind clock e₀ (ts ++ [t]) t.after
  | between {ts e e'} (h : Course kind clock e₀ ts e) (between : Between kind clock e e') :
      Course kind clock e₀ ts e'

/-- Who is called has been made, is called once, and has no second call to come. -/
structure Booked (e : Engine ρ) (sent : List Nat) : Prop where
  made : ∀ r ∈ sent, (e.request? r).isSome
  once : sent.Nodup
  calls : ∀ r, 0 < e.due (.call r) →
    r ∉ sent ∧ (e.request? r).isSome ∧ e.due (.call r) = 1
  known : ∀ r, 0 < e.due (.work r) → (e.request? r).isSome

theorem request?_add_of_isSome (made : (e.request? r).isSome) (q : Request ρ) :
    (e.add q).2.request? r = e.request? r := by
  rw [request?_add, if_neg]
  rintro rfl
  rw [request?_length] at made
  cases made

theorem booked_ofWorld (w : World) (c : PoolConfig) : (ofWorld (ρ := ρ) w c).Booked [] where
  made r hr := by cases hr
  once := .nil
  calls r hr := by cases hr
  known r hr := by cases hr

namespace Booked

theorem uncalled (h : e.Booked sent) :
    e.requests.length ∉ sent ∧ e.due (.call e.requests.length) = 0 := by
  refine ⟨fun hr => ?_, Nat.eq_zero_of_not_pos fun hr => ?_⟩
  · have made := h.made _ hr
    rw [request?_length] at made
    cases made
  · have made := (h.calls _ hr).2.1
    rw [request?_length] at made
    cases made

theorem idle (h : e.Booked sent) : e.due (.work e.requests.length) = 0 := by
  refine Nat.eq_zero_of_not_pos fun hr => ?_
  have made := h.known _ hr
  rw [request?_length] at made
  cases made

/-- Nobody comes or goes, and no call becomes due. -/
theorem same (h : e.Booked sent) (requests : ∀ r, (e.request? r).isSome → (e'.request? r).isSome)
    (calls : ∀ r, e'.due (.call r) = e.due (.call r))
    (works : ∀ r, 0 < e'.due (.work r) → (e'.request? r).isSome) : e'.Booked sent where
  made r hr := requests r (h.made r hr)
  once := h.once
  calls r hr := by
    rw [calls] at hr ⊢
    obtain ⟨unsent, made, once⟩ := h.calls r hr
    exact ⟨unsent, requests r made, once⟩
  known := works

/-- Only the requests and the agenda matter. -/
theorem alike (h : e.Booked sent) (requests : e'.requests = e.requests)
    (agenda : e'.agenda = e.agenda) : e'.Booked sent := by
  have same (r : Nat) : e'.request? r = e.request? r := congrArg (·[r]?) requests
  have due (s : Signal) : e'.due s = e.due s := by rw [due, agenda, due]
  refine h.same (fun r made => ?_) (fun r => due _) fun r hr => ?_
  · rw [same]
    exact made
  · rw [due] at hr
    rw [same]
    exact h.known r hr

/-- What becomes of a request is nothing to its calls. -/
theorem modify (h : e.Booked sent) (r : Nat) (f : Request ρ → Request ρ) :
    (e.modify r f).Booked sent := by
  refine h.same (fun r' made => ?_) (fun _ => rfl) fun r' hr => ?_
  · rw [request?_modify_isSome]
    exact made
  · rw [request?_modify_isSome]
    exact h.known r' hr

/-- A signal that is no call may become due, work only of a request that has been made. -/
theorem schedule (h : e.Booked sent) (t : Nat) (rank : Rank) {s : Signal}
    (quiet : ∀ r, s ≠ .call r) (known : ∀ r, s = .work r → (e.request? r).isSome) :
    (e.schedule t rank s).Booked sent := by
  refine h.same (fun _ => id) (fun r => ?_) fun r hr => ?_
  · rw [due_schedule, if_neg (quiet r), Nat.add_zero]
  · rw [due_schedule] at hr
    by_cases hs : s = .work r
    · exact known r hs
    · rw [if_neg hs, Nat.add_zero] at hr
      exact h.known r hr

theorem add (h : e.Booked sent) (q : Request ρ) : (e.add q).2.Booked sent := by
  have kept (r : Nat) (made : (e.request? r).isSome) : ((e.add q).2.request? r).isSome := by
    rw [request?_add_of_isSome made]
    exact made
  exact h.same kept (fun _ => rfl) fun r hr => kept r (h.known r hr)

/-- A request that has not been called may be called, once. -/
theorem schedule_call (h : e.Booked sent) (rank : Rank) (made : (e.request? r).isSome)
    (fresh : r ∉ sent) (uncalled : e.due (.call r) = 0) : (e.wake rank (.call r)).Booked sent where
  made := h.made
  once := h.once
  calls r' hr' := by
    rw [due_wake] at hr' ⊢
    by_cases hr : r = r'
    · subst hr
      refine ⟨fresh, made, ?_⟩
      rw [uncalled, if_pos rfl]
    · have other : Signal.call r ≠ .call r' := fun h => hr (Signal.call.inj h)
      rw [if_neg other, Nat.add_zero] at hr' ⊢
      exact h.calls r' hr'
  known r' hr' := by
    rw [due_wake, if_neg (by simp), Nat.add_zero] at hr'
    exact h.known r' hr'

theorem spawn (h : e.Booked sent) (q : Request ρ) : (e.spawn q).2.Booked sent := by
  obtain ⟨fresh, uncalled⟩ := h.uncalled
  refine (h.add q).schedule_call .background ?_ fresh uncalled
  rw [request?_add, if_pos rfl]
  rfl

section Agenda
variable {before after : Agenda Signal} {d : Due Signal} (h : e.Booked sent)
  (ha : e.agenda = before ++ d :: after) (t : Nat)
include h ha

theorem pop : (e.taken before after t).Booked sent where
  made := h.made
  once := h.once
  calls r hr := by
    have due := due_taken ha t (.call r)
    obtain ⟨unsent, made, once⟩ := h.calls r (by omega)
    exact ⟨unsent, made, by omega⟩
  known r hdue := by
    have due := due_taken ha t (.work r)
    exact h.known r (by omega)

/-- A call that has been taken from the agenda is the only one for its request. -/
theorem called (hd : d.signal = .call r) :
    r ∉ sent ∧ (e.request? r).isSome ∧ (e.taken before after t).due (.call r) = 0 := by
  have due := due_taken ha t (.call r)
  rw [if_pos hd] at due
  obtain ⟨unsent, made, once⟩ := h.calls r (by omega)
  exact ⟨unsent, made, by omega⟩

end Agenda

/-- A request is called. -/
theorem send (h : e.Booked sent) (fresh : r ∉ sent) (made : (e.request? r).isSome)
    (uncalled : e.due (.call r) = 0) : e.Booked (sent ++ [r]) where
  made r' hr' := by
    obtain old | new := List.mem_append.1 hr'
    · exact h.made r' old
    · rw [List.mem_singleton.1 new]
      exact made
  once := by
    rw [List.nodup_append]
    refine ⟨h.once, List.nodup_singleton r, ?_⟩
    rintro r' old _ new rfl
    rw [List.mem_singleton.1 new] at old
    exact fresh old
  calls r' hr' := by
    obtain ⟨unsent, made', once⟩ := h.calls r' hr'
    refine ⟨fun sent => ?_, made', once⟩
    obtain old | new := List.mem_append.1 sent
    · exact unsent old
    · rw [List.mem_singleton.1 new] at hr'
      omega
  known := h.known

end Booked

/-- A call that is made is the first of its request, and no other is to come. -/
def CallsOnce (e : Engine ρ) (sent : List Nat) (s : Signal) : Prop :=
  ∀ r, s = .call r → r ∉ sent ∧ (e.request? r).isSome ∧ e.due (.call r) = 0

namespace Booked

theorem next (h : e.Booked sent) {t : Turn ρ} (next : Next kind clock e t) :
    t.engine.Booked sent ∧ t.engine.CallsOnce sent t.signal := by
  cases next with
  | call q new fit =>
      obtain ⟨fresh, uncalled⟩ := h.uncalled
      refine ⟨h.add q, fun r hr => ?_⟩
      cases hr
      refine ⟨fresh, ?_, uncalled⟩
      rw [request?_add, if_pos rfl]
      rfl
  | due t ha later hdue allowed => exact ⟨h.pop ha t, fun r hr => h.called ha t hr⟩
  | close drain => exact ⟨h.alike rfl rfl, fun r hr => by cases hr⟩

theorem between (h : e.Booked sent) (between : Between kind clock e e') : e'.Booked sent := by
  cases between with
  | spawn q new fit => exact h.spawn q
  | spawnShutDown =>
      have asked : (e.addDrain { foreground := false }).2.Booked sent := h.alike rfl rfl
      exact asked.schedule e.now .background (by simp) (by simp)
  | aside w later allowed => exact h.alike rfl rfl

theorem submits (h : e.Booked sent) {s : Signal} (calls : e.CallsOnce sent s) :
    e.Booked (sent ++ s.submits) := by
  cases s with
  | call r =>
      obtain ⟨fresh, made, uncalled⟩ := calls r rfl
      exact h.send fresh made uncalled
  | caller | worker | slot | outcome | work | close | drained =>
      change e.Booked (sent ++ [])
      rw [List.append_nil]
      exact h

end Booked

/-- What each turn keeps, a run keeps that handles what is due next. -/
theorem keeps_runFor {P : List (Turn ρ) → Engine ρ → Prop} {ts : List (Turn ρ)} (here : P ts e)
    (step : ∀ ts e d rest, e.agenda = d :: rest → P ts e →
      P (ts ++ [⟨e.taken [] rest (max e.now d.time), d.signal⟩])
        (Turn.after ⟨e.taken [] rest (max e.now d.time), d.signal⟩))
    (goal : Engine ρ → Bool) (fuel : Nat) : P (ts ++ e.turns goal fuel) (e.runFor goal fuel) := by
  have stays : P (ts ++ []) e := by
    rw [List.append_nil]
    exact here
  induction fuel generalizing e ts with
  | zero => exact stays
  | succ fuel ih =>
      rw [turns, Engine.runFor]
      split
      · exact stays
      · rw [step?]
        cases ha : e.agenda with
        | nil => exact stays
        | cons d rest =>
            have first := step ts e d rest ha here
            have others := ih first (by rw [List.append_nil]; exact first)
            rw [List.append_assoc] at others
            exact others

/-- An engine that is left to itself takes one of the courses it may take. -/
theorem Course.runFor {ts : List (Turn ρ)} (course : Course kind clock e₀ ts e)
    (free : ∀ e t, clock e t) (goal : Engine ρ → Bool) (fuel : Nat) :
    Course kind clock e₀ (ts ++ e.turns goal fuel) (e.runFor goal fuel) :=
  keeps_runFor course (fun _ _ _ _ ha course => course.turn
    (.due _ ha (Nat.le_max_left ..) (Nat.le_max_right ..) (free _ _))) goal fuel

end Engine
end EventSourcing
