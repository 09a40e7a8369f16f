import EventSourcing.Proofs.Engine.Order

/-!
How the requests of one aggregate are cut.
They are over, or being done, or in the queue, in this order. A request comes to the end of the queue,
is taken from its front, and is over in the end; the worker of the lane is busy in between, and gives
the lane up where the queue is empty. Whatever happens in other lanes does not matter.
-/
namespace EventSourcing.Engine
variable {ρ : Type} {lane : Nat → AggregateId} {e e' : Engine ρ} {submitted submitted' : List Nat}
  {spare spare' : Option AggregateId} {a : AggregateId} {r : Nat}

theorem staff_le_one (e : Engine ρ) (a : AggregateId) : e.staff a ≤ 1 := by
  rw [staff]
  split <;> omega

namespace Cut

section Members
variable {past doing line : List Nat}
  (hcut : submitted.filter (fun r => lane r = a) = past ++ doing ++ line)
include hcut

theorem mem_submitted {x : Nat} (hx : x ∈ past ∨ x ∈ doing ∨ x ∈ line) :
    x ∈ submitted ∧ lane x = a := by
  have here : x ∈ submitted.filter fun r => lane r = a := by
    rw [hcut, List.mem_append, List.mem_append, or_assoc]
    exact hx
  simpa using List.mem_filter.1 here

theorem mem_part {x : Nat} (sent : x ∈ submitted) (ours : lane x = a) :
    x ∈ past ∨ x ∈ doing ∨ x ∈ line := by
  have here : x ∈ submitted.filter fun r => lane r = a := by simp [sent, ours]
  rw [hcut, List.mem_append, List.mem_append, or_assoc] at here
  exact here

end Members

/-- Nothing has happened in the lane of an aggregate. -/
theorem congr (h : Cut lane e submitted spare a) (queue : e'.queue a = e.queue a)
    (staff : e'.staff a = e.staff a)
    (workers : e'.due (.worker a) + (if spare' = some a then 1 else 0) =
      e.due (.worker a) + if spare = some a then 1 else 0)
    (sent : submitted'.filter (fun r => lane r = a) = submitted.filter fun r => lane r = a)
    (stage : ∀ r ∈ submitted, lane r = a → e'.stage? r = e.stage? r) :
    Cut lane e' submitted' spare' a := by
  obtain ⟨past, doing, hcut, hpast, hdoing, hqueue, hcount⟩ := h
  have same {x : Nat} (hx : x ∈ past ∨ x ∈ doing ∨ x ∈ e.queue a) : e'.stage? x = e.stage? x := by
    obtain ⟨sent, ours⟩ := mem_submitted hcut hx
    exact stage x sent ours
  refine ⟨past, doing, ?_, fun x hx => ?_, fun x hx => ?_, fun x hx => ?_, ?_⟩
  · rw [queue, sent]
    exact hcut
  · rw [same (.inl hx)]
    exact hpast x hx
  · rw [same (.inr (.inl hx))]
    exact hdoing x hx
  · rw [queue] at hx
    rw [same (.inr (.inr hx))]
    exact hqueue x hx
  · rw [workers, staff]
    exact hcount

/-- While the worker of a lane is spare, nothing is being done there. -/
theorem idle (h : Cut lane e submitted (some a) a) :
    ∃ past, submitted.filter (fun r => lane r = a) = past ++ e.queue a ∧
      (∀ r ∈ past, e.stage? r = some .over) ∧ (∀ r ∈ e.queue a, e.stage? r = some .pending) ∧
      e.due (.worker a) = 0 := by
  obtain ⟨past, doing, hcut, hpast, _, hpending, hcount⟩ := h
  have few := e.staff_le_one a
  rw [if_pos rfl] at hcount
  have none_doing : doing = [] := List.eq_nil_of_length_eq_zero (by omega)
  subst none_doing
  rw [List.append_nil] at hcut
  exact ⟨past, hcut, hpast, hpending, by omega⟩

/-- In its lane, the request that is being done is the only one that is neither over nor in the
queue. -/
theorem doing (h : Cut lane e submitted spare (lane r)) (sent : r ∈ submitted)
    (unfinished : e.stage? r ≠ some .over) (taken : r ∉ e.queue (lane r)) :
    ∃ past, submitted.filter (fun r' => lane r' = lane r) = past ++ [r] ++ e.queue (lane r) ∧
      (∀ r' ∈ past, e.stage? r' = some .over) ∧
      (∀ r' ∈ e.queue (lane r), e.stage? r' = some .pending) ∧
      e.due (.worker (lane r)) = 0 ∧ spare ≠ some (lane r) ∧ e.staff (lane r) = 1 := by
  obtain ⟨past, doing, hcut, hpast, _, hqueue, hcount⟩ := h
  have here : r ∈ doing := by
    obtain hr | hr | hr := mem_part hcut sent rfl
    · exact absurd (hpast r hr) unfinished
    · exact hr
    · exact absurd hr taken
  have few := e.staff_le_one (lane r)
  have busy : 0 < doing.length := List.length_pos_of_mem here
  have one : doing = [r] := by
    obtain ⟨x, hx⟩ := List.length_eq_one_iff.1 (show doing.length = 1 by omega)
    rw [hx, List.mem_singleton] at here
    rw [hx, here]
  subst one
  rw [List.length_singleton] at hcount
  refine ⟨past, hcut, hpast, hqueue, by omega, ?_, by omega⟩
  intro hspare
  rw [if_pos hspare] at hcount
  omega

/-- The request at the front of a queue belongs there, and comes only once. -/
theorem front {rest : List Nat} (h : Cut lane e submitted spare a) (once : submitted.Nodup)
    (hqueue : e.queue a = r :: rest) :
    r ∈ submitted ∧ lane r = a ∧ e.stage? r = some .pending ∧ r ∉ rest := by
  obtain ⟨past, doing, hcut, _, _, hpending, _⟩ := h
  rw [hqueue] at hcut hpending
  obtain ⟨sent, ours⟩ := mem_submitted hcut (.inr (.inr List.mem_cons_self))
  have nodup : (past ++ doing ++ r :: rest).Nodup := by
    rw [← hcut]
    exact once.filter _
  have gone : r ∉ rest := (List.nodup_cons.1 (List.nodup_append.1 nodup).2.1).1
  exact ⟨sent, ours, hpending r List.mem_cons_self, gone⟩

/-- The request that is being done may come to another stage, but not to its end. -/
theorem stay (h : Cut lane e submitted spare (lane r)) (sent : r ∈ submitted)
    (unfinished : e.stage? r ≠ some .over) (taken : r ∉ e.queue (lane r))
    (still : e'.stage? r ≠ some .over)
    (others : ∀ r' ∈ submitted, r ≠ r' → e'.stage? r' = e.stage? r')
    (queue : e'.queue (lane r) = e.queue (lane r)) (staff : e'.staff (lane r) = e.staff (lane r))
    (workers : e'.due (.worker (lane r)) = e.due (.worker (lane r))) :
    Cut lane e' submitted spare (lane r) := by
  obtain ⟨past, hcut, hpast, hqueue, hdue, hspare, hstaff⟩ := h.doing sent unfinished taken
  have other {x : Nat} (hr : r ≠ x) (hx : x ∈ past ∨ x ∈ [r] ∨ x ∈ e.queue (lane r)) :
      e'.stage? x = e.stage? x := others x (mem_submitted hcut hx).1 hr
  refine ⟨past, [r], ?_, fun x hx => ?_, fun x hx => ?_, fun x hx => ?_, ?_⟩
  · rw [queue]
    exact hcut
  · have hr : r ≠ x := by
      rintro rfl
      exact unfinished (hpast r hx)
    rw [other hr (.inl hx)]
    exact hpast x hx
  · rw [List.mem_singleton.1 hx]
    exact still
  · rw [queue] at hx
    have hr : r ≠ x := by
      rintro rfl
      exact taken hx
    rw [other hr (.inr (.inr hx))]
    exact hqueue x hx
  · rw [workers, staff, hdue, hstaff, if_neg hspare]
    rfl

/-- The request that was being done is over; its worker is free. -/
theorem retire (h : Cut lane e submitted none (lane r)) (sent : r ∈ submitted)
    (unfinished : e.stage? r ≠ some .over) (taken : r ∉ e.queue (lane r))
    (ended : e'.stage? r = some .over)
    (others : ∀ r' ∈ submitted, r ≠ r' → e'.stage? r' = e.stage? r')
    (queue : e'.queue (lane r) = e.queue (lane r)) (staff : e'.staff (lane r) = e.staff (lane r))
    (workers : e'.due (.worker (lane r)) = e.due (.worker (lane r))) :
    Cut lane e' submitted (some (lane r)) (lane r) := by
  obtain ⟨past, hcut, hpast, hqueue, hdue, _, hstaff⟩ := h.doing sent unfinished taken
  have other {x : Nat} (hr : r ≠ x) (hx : x ∈ past ∨ x ∈ [r] ∨ x ∈ e.queue (lane r)) :
      e'.stage? x = e.stage? x := others x (mem_submitted hcut hx).1 hr
  refine ⟨past ++ [r], [], ?_, fun x hx => ?_, by simp, fun x hx => ?_, ?_⟩
  · rw [queue, List.append_nil]
    exact hcut
  · by_cases hr : r = x
    · rw [← hr]
      exact ended
    · have old : x ∈ past := by
        obtain old | new := List.mem_append.1 hx
        · exact old
        · exact absurd (List.mem_singleton.1 new).symm hr
      rw [other hr (.inl old)]
      exact hpast x old
  · rw [queue] at hx
    have hr : r ≠ x := by
      rintro rfl
      exact taken hx
    rw [other hr (.inr (.inr hx))]
    exact hqueue x hx
  · rw [workers, staff, hdue, hstaff, if_pos rfl]
    rfl

/-- A request comes to the end of the queue; a new lane has a worker to spare. -/
theorem submit (h : Cut lane e submitted none (lane r))
    (pending : e'.stage? r = some .pending)
    (others : ∀ r' ∈ submitted, e'.stage? r' = e.stage? r')
    (queue : e'.queue (lane r) = e.queue (lane r) ++ [r]) (staff : e'.staff (lane r) = 1)
    (workers : e'.due (.worker (lane r)) = e.due (.worker (lane r)))
    (isNew : spare' = some (lane r) ↔ e.staff (lane r) = 0) :
    Cut lane e' (submitted ++ [r]) spare' (lane r) := by
  obtain ⟨past, doing, hcut, hpast, hdoing, hqueue, hcount⟩ := h
  have same {x : Nat} (hx : x ∈ past ∨ x ∈ doing ∨ x ∈ e.queue (lane r)) :
      e'.stage? x = e.stage? x := others x (mem_submitted hcut hx).1
  refine ⟨past, doing, ?_, fun x hx => ?_, fun x hx => ?_, fun x hx => ?_, ?_⟩
  · rw [List.filter_append, hcut, queue]
    simp
  · rw [same (.inl hx)]
    exact hpast x hx
  · rw [same (.inr (.inl hx))]
    exact hdoing x hx
  · rw [queue] at hx
    obtain old | new := List.mem_append.1 hx
    · rw [same (.inr (.inr old))]
      exact hqueue x old
    · rw [List.mem_singleton.1 new]
      exact pending
  · have few := e.staff_le_one (lane r)
    rw [if_neg (by simp)] at hcount
    rw [workers, staff]
    split
    · rename_i new
      have empty := isNew.1 new
      omega
    · rename_i old
      have full : e.staff (lane r) ≠ 0 := fun empty => old (isNew.2 empty)
      omega

/-- The request at the front of the queue is taken by the worker. -/
theorem take {rest : List Nat} (h : Cut lane e submitted (some a) a) (once : submitted.Nodup)
    (front : e.queue a = r :: rest) (unfinished : e'.stage? r ≠ some .over)
    (others : ∀ r' ∈ submitted, r ≠ r' → e'.stage? r' = e.stage? r')
    (queue : e'.queue a = rest) (staff : e'.staff a = 1)
    (workers : e'.due (.worker a) = e.due (.worker a)) : Cut lane e' submitted none a := by
  obtain ⟨sent, _, pending, gone⟩ := h.front once front
  obtain ⟨past, hcut, hpast, hqueue, hdue⟩ := h.idle
  rw [front] at hcut hqueue
  have same {x : Nat} (hr : r ≠ x) (hx : x ∈ past ++ r :: rest) : e'.stage? x = e.stage? x := by
    rw [← hcut] at hx
    exact others x (List.mem_filter.1 hx).1 hr
  refine ⟨past, [r], ?_, fun x hx => ?_, fun x hx => ?_, fun x hx => ?_, ?_⟩
  · rw [queue, hcut]
    simp
  · have hr : r ≠ x := by
      rintro rfl
      rw [hpast r hx] at pending
      cases pending
    rw [same hr (List.mem_append_left _ hx)]
    exact hpast x hx
  · rw [List.mem_singleton.1 hx]
    exact unfinished
  · rw [queue] at hx
    have hr : r ≠ x := by
      rintro rfl
      exact gone hx
    have old : x ∈ r :: rest := List.mem_cons_of_mem r hx
    rw [same hr (List.mem_append_right _ old)]
    exact hqueue x old
  · rw [workers, staff, hdue]
    rfl

/-- A lane that is found empty is given up. -/
theorem giveUp (h : Cut lane e submitted (some a) a) (empty : e.queue a = [])
    (stage : ∀ r ∈ submitted, e'.stage? r = e.stage? r) (queue : e'.queue a = [])
    (staff : e'.staff a = 0) (workers : e'.due (.worker a) = e.due (.worker a)) :
    Cut lane e' submitted none a := by
  obtain ⟨past, hcut, hpast, _, hdue⟩ := h.idle
  rw [empty] at hcut
  refine ⟨past, [], ?_, fun x hx => ?_, by simp, fun x hx => ?_, ?_⟩
  · rw [queue, List.append_nil]
    exact hcut
  · have here : x ∈ past ++ [] := List.mem_append_left _ hx
    rw [← hcut] at here
    rw [stage x (List.mem_filter.1 here).1]
    exact hpast x hx
  · rw [queue] at hx
    cases hx
  · rw [workers, staff, hdue]
    rfl

end Cut
end EventSourcing.Engine
