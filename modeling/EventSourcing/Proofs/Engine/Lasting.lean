import EventSourcing.Proofs.Engine.Handlers
import EventSourcing.Proofs.Engine.Seats

/-!
What lasts at an engine.
Limits are fixed, answers and ends are for good, callers are only told of requests that have been
called, the agenda is in order, and the pool knows its callers. Every change of an engine keeps to
this.
-/
namespace EventSourcing

theorem Agenda.sorted_push {σ : Type} (d : Due σ) {a : Agenda σ}
    (h : a.Pairwise fun d d' => d.time ≤ d'.time) :
    (Agenda.push d a).Pairwise fun d d' => d.time ≤ d'.time := by
  induction a with
  | nil => exact List.pairwise_singleton _ _
  | cons e rest ih =>
      obtain ⟨first, sorted⟩ := List.pairwise_cons.1 h
      rw [Agenda.push]
      split
      · rename_i before
        have early : d.time ≤ e.time := by
          simp only [Due.before, Bool.or_eq_true, Bool.and_eq_true, decide_eq_true_iff] at before
          omega
        refine List.pairwise_cons.2 ⟨fun d' hd' => ?_, h⟩
        obtain rfl | hd' := List.mem_cons.1 hd'
        · exact early
        · exact Nat.le_trans early (first d' hd')
      · rename_i after
        have late : e.time ≤ d.time := by
          simp only [Due.before, Bool.or_eq_true, Bool.and_eq_true, decide_eq_true_iff] at after
          omega
        refine List.pairwise_cons.2 ⟨fun d' hd' => ?_, ih sorted⟩
        obtain rfl | hd' := Agenda.mem_push.1 hd'
        · exact late
        · exact first d' hd'

/-- How a request goes on: its limit, its beginning, its answer and its end are for good, and so is
the time of its call once that has been made. -/
structure Request.GoesOn {ρ : Type} (called : Prop) (q q' : Request ρ) : Prop where
  limit : q'.limit = q.limit
  called : called → q'.called = q.called
  isOver : q.stage = .over → q'.stage = .over
  begun : ∀ t, q.begun = some t → q'.begun = some t
  answer : ∀ a, q.answer = some a → q'.answer = some a

namespace Engine
variable {ρ : Type}

/-- What has been settled at an engine stays so. -/
structure GoesOn (sent : List Nat) (e e' : Engine ρ) : Prop where
  time : e.now ≤ e'.now
  requests : ∀ r q, e.request? r = some q → ∃ q', e'.request? r = some q' ∧ q.GoesOn (r ∈ sent) q'

/-- Limits, answers, places and the agenda, each for itself. -/
structure Tame (limit : Nat → Nat) (e : Engine ρ) (sent : List Nat) : Prop where
  limits : ∀ r q, e.request? r = some q → q.limit = some (limit r)
  unreplied : ∀ r q, r ∉ sent → e.request? r = some q → q.answer = none ∧ q.result = none
  callers : ∀ d ∈ e.agenda, ∀ r, d.signal = .caller r → r ∈ sent
  sorted : e.agenda.Pairwise fun d d' => d.time ≤ d'.time
  seated : e.Seated

variable {limit : Nat → Nat} {e e' : Engine ρ} {sent sent' : List Nat} {r : Nat} {q : Request ρ}

namespace Tame

theorem more (h : e.Tame limit sent) (more : sent ⊆ sent') : e.Tame limit sent' where
  limits := h.limits
  unreplied r q hr hq := h.unreplied r q (fun sent => hr (more sent)) hq
  callers d hd r hs := more (h.callers d hd r hs)
  sorted := h.sorted
  seated := h.seated

theorem move (h : e.Tame limit sent) {f : Request ρ → Request ρ} {p : Pool}
    (limits : ∀ q, e.request? r = some q → (f q).limit = q.limit)
    (unreplied : r ∈ sent ∨ ∀ q, (f q).answer = q.answer ∧ (f q).result = q.result)
    (seated : Engine.Seated { e.modify r f with pool := p }) :
    Engine.Tame limit { e.modify r f with pool := p } sent where
  limits r' q hq := by
    have hq : (e.modify r f).request? r' = some q := hq
    rw [request?_modify] at hq
    split at hq
    · rename_i same
      subst same
      obtain ⟨q₀, hq₀, rfl⟩ := Option.map_eq_some_iff.1 hq
      rw [limits q₀ hq₀]
      exact h.limits r q₀ hq₀
    · exact h.limits r' q hq
  unreplied r' q hr hq := by
    have hq : (e.modify r f).request? r' = some q := hq
    rw [request?_modify] at hq
    split at hq
    · rename_i same
      subst same
      obtain ⟨q₀, hq₀, rfl⟩ := Option.map_eq_some_iff.1 hq
      have kept := unreplied.resolve_left hr q₀
      rw [kept.1, kept.2]
      exact h.unreplied r q₀ hr hq₀
    · exact h.unreplied r' q hr hq
  callers := h.callers
  sorted := h.sorted
  seated := seated

theorem schedule (h : e.Tame limit sent) (t : Nat) (rank : Rank) {s : Signal}
    (caller : ∀ r, s = .caller r → r ∈ sent) : (e.schedule t rank s).Tame limit sent where
  limits := h.limits
  unreplied := h.unreplied
  callers d hd r hs := by
    obtain rfl | hd := Agenda.mem_push.1 hd
    · exact caller r hs
    · exact h.callers d hd r hs
  sorted := Agenda.sorted_push _ h.sorted
  seated := h.seated

end Tame

theorem Change.tame (change : Change sent e e') (h : e.Tame limit sent) : e'.Tame limit sent := by
  have seated := change.seated h.seated
  cases change with
  | aside | close | cancelAll => exact ⟨h.limits, h.unreplied, h.callers, h.sorted, seated⟩
  | signal t rank s later fit =>
      refine h.schedule t rank fun r hs => ?_
      subst hs
      exact fit
  | ask r => exact h.move (fun _ _ => rfl) (.inr fun _ => ⟨rfl, rfl⟩) seated
  | @shift r q p f hq called shift =>
      refine h.move (fun q' hq' => ?_) (.inl called) seated
      rw [hq, Option.some.injEq] at hq'
      rw [← hq']
      exact shift.limit_eq

theorem Changes.tame (changes : Changes sent e e') (h : e.Tame limit sent) : e'.Tame limit sent :=
  changes.keep (fun _ _ change => change.tame) h

namespace GoesOn

theorem of_requests (time : e.now ≤ e'.now)
    (same : ∀ r q, e.request? r = some q → e'.request? r = some q) : GoesOn sent e e' :=
  ⟨time, fun r q hq => ⟨q, same r q hq, rfl, fun _ => rfl, id, fun _ => id, fun _ => id⟩⟩

theorem trans {e'' : Engine ρ} (h : GoesOn sent e e') (h' : GoesOn sent' e' e'')
    (more : sent ⊆ sent') : GoesOn sent e e'' where
  time := Nat.le_trans h.time h'.time
  requests r q hq := by
    obtain ⟨q', hq', on⟩ := h.requests r q hq
    obtain ⟨q'', hq'', on'⟩ := h'.requests r q' hq'
    exact ⟨q'', hq'', on'.limit.trans on.limit,
      fun called => (on'.called (more called)).trans (on.called called),
      fun isOver => on'.isOver (on.isOver isOver), fun t ht => on'.begun t (on.begun t ht),
      fun a ha => on'.answer a (on.answer a ha)⟩

theorem move {f : Request ρ → Request ρ} {p : Pool}
    (on : ∀ q, e.request? r = some q → q.GoesOn (r ∈ sent) (f q)) :
    GoesOn sent e { e.modify r f with pool := p } where
  time := Nat.le_refl _
  requests r' q hq := by
    by_cases hr : r = r'
    · subst hr
      exact ⟨f q, request?_modify_self hq f, on q hq⟩
    · refine ⟨q, ?_, rfl, fun _ => rfl, id, fun _ => id, fun _ => id⟩
      change (e.modify r f).request? r' = some q
      rw [request?_modify, if_neg hr]
      exact hq

end GoesOn

theorem Change.goesOn (change : Change sent e e') : GoesOn sent' e e' := by
  cases change with
  | aside lanes drains world same => exact .of_requests (Nat.le_of_eq same.symm) fun _ _ hq => hq
  | signal | close | cancelAll => exact .of_requests (Nat.le_refl _) fun _ _ hq => hq
  | ask r => exact .move fun q _ => ⟨rfl, fun _ => rfl, id, fun _ => id, fun _ => id⟩
  | @shift r q p f hq called shift =>
      refine .move fun q' hq' => ?_
      rw [hq, Option.some.injEq] at hq'
      rw [← hq']
      refine ⟨shift.limit_eq, fun _ => shift.called_eq, shift.isOver, fun t ht => ?_, fun a => shift.answer⟩
      rw [shift.begun_eq]
      exact ht

theorem Changes.goesOn (changes : Changes sent e e') : GoesOn sent' e e' :=
  changes.keep (fun _ _ change on => on.trans change.goesOn (List.Subset.refl sent'))
    (.of_requests (Nat.le_refl _) fun _ _ hq => hq)

theorem goesOn_add (e : Engine ρ) (q : Request ρ) : GoesOn sent e (e.add q).2 := by
  refine .of_requests (Nat.le_refl _) fun r q' hq' => ?_
  rw [request?_add, if_neg]
  · exact hq'
  · rintro rfl
    rw [request?_length] at hq'
    cases hq'

theorem Tame.noted (h : e.Tame limit sent) (s : Signal) : (e.noted s).Tame limit sent := by
  cases s with
  | call r =>
      exact h.move (fun _ _ => rfl) (.inr fun _ => ⟨rfl, rfl⟩)
        (h.seated.modify r (fun _ => rfl) fun _ => rfl)
  | work r =>
      rw [Engine.noted]
      split
      · split
        · exact h.move (fun _ _ => rfl) (.inr fun _ => ⟨rfl, rfl⟩)
            (h.seated.modify r (fun _ => rfl) fun _ => rfl)
        · exact h
      · exact h
  | caller | worker | slot | outcome | close | drained => exact h

theorem tame_ofWorld (w : World) (c : PoolConfig) : (ofWorld (ρ := ρ) w c).Tame limit [] where
  limits r q hq := by cases hq
  unreplied r q _ hq := by cases hq
  callers d hd := by cases hd
  sorted := .nil
  seated := by
    refine ⟨fun r hr => (by cases hr), fun r => ?_, List.nodup_nil, fun _ => rfl, rfl⟩
    refine iff_of_false List.not_mem_nil ?_
    rintro ⟨q, hq, _⟩
    cases hq

theorem Tame.add (h : e.Tame limit sent) (hlimit : q.limit = some (limit e.requests.length))
    (unreplied : q.answer = none ∧ q.result = none) (pending : q.stage = .pending) :
    (e.add q).2.Tame limit sent where
  limits r q' hq' := by
    rw [request?_add] at hq'
    split at hq'
    · rename_i hr
      cases hq'
      rw [← hr]
      exact hlimit
    · exact h.limits r q' hq'
  unreplied r q' hr hq' := by
    rw [request?_add] at hq'
    split at hq'
    · cases hq'
      exact unreplied
    · exact h.unreplied r q' hr hq'
  callers := h.callers
  sorted := h.sorted
  seated := by
    refine Pool.Serves.congr h.seated (fun r => ?_) fun r => ?_
    · rw [Waits, stage?, request?_add]
      split
      · rename_i hr
        rw [← hr, Waits, stage?, request?_length]
        simp [pending]
      · exact .rfl
    · rw [Works, request?_add]
      split
      · rename_i hr
        rw [← hr, Works, request?_length]
        refine iff_of_false ?_ (by simp)
        rintro ⟨q', hq', place⟩
        cases hq'
        exact place.not_isEarly (.inl pending)
      · exact .rfl

end Engine

end EventSourcing
