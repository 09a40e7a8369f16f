import EventSourcing.Proofs.Engine.Seats

/-!
Moves of the callers of a pool.
A caller that comes to the pool by itself is told at once when its time is up, while its work goes on
and keeps the slot. So a slot is held by work that runs for its caller, or that was asked to stop and
has not. Whatever moves a caller makes, the pool goes on to serve those who wait and those whose work
holds a slot, its line stands only where no slot is free, and it is never longer than allowed.
-/
namespace EventSourcing

namespace Pool

/-- The line stands only where no slot is free, and no more wait than are allowed to. -/
structure Bounded (p : Pool) : Prop where
  busy : p.line ≠ [] → p.free = 0
  room : p.waiting ≤ p.config.maxPending

/-- Before the pool closes, all who wait stand in line or have been handed a slot. -/
def Keeps (p : Pool) (waiting : Nat → Prop) : Prop :=
  p.closing = false → ∀ r, waiting r → r ∈ p.line ++ p.handed

/-- How the pool goes on while some arrive at its line: slots are handed to the head of the line,
and only from there. -/
structure Advances (arrived : List Nat) (p p' : Pool) : Prop where
  config : p'.config = p.config
  given : ∃ kept given, p'.handed = kept ++ given ∧ kept.Sublist p.handed ∧
    (given ++ p'.line).Sublist (p.line ++ arrived)

section Steps
variable {p p' : Pool} {r : Nat}

theorem Advances.refl (p : Pool) : Advances [] p p :=
  ⟨rfl, p.handed, [], by simp, List.Sublist.refl _, by simp⟩

theorem Advances.trans {p'' : Pool} {xs ys : List Nat} (h : Advances xs p p')
    (h' : Advances ys p' p'') : Advances (xs ++ ys) p p'' := by
  obtain ⟨config, kept, given, handed, hkept, hgiven⟩ := h
  obtain ⟨config', kept', given', handed', hkept', hgiven'⟩ := h'
  rw [handed] at hkept'
  obtain ⟨old, new, rfl, hold, hnew⟩ := List.sublist_append_iff.1 hkept'
  refine ⟨config'.trans config, old, new ++ given', ?_, hold.trans hkept, ?_⟩
  · rw [handed', List.append_assoc]
  · have line : (new ++ (given' ++ p''.line)).Sublist (given ++ (p'.line ++ ys)) :=
      hnew.append hgiven'
    rw [List.append_assoc]
    refine line.trans ?_
    rw [← List.append_assoc, ← List.append_assoc]
    exact hgiven.append_right ys

/-- What is done to a pool that leaves its line and hands out no slot. -/
theorem Advances.of_line (config : p'.config = p.config) (line : p'.line.Sublist p.line)
    (handed : p'.handed.Sublist p.handed) : Advances [] p p' := by
  refine ⟨config, p'.handed, [], by simp, handed, ?_⟩
  rw [List.nil_append, List.append_nil]
  exact line

theorem advances_handOver (p : Pool) : Advances [] p p.handOver.2 := by
  rw [handOver]
  cases hl : p.line with
  | nil => exact .of_line rfl (by simp [hl]) (List.Sublist.refl _)
  | cons c rest =>
      refine ⟨rfl, p.handed, [c], rfl, List.Sublist.refl _, ?_⟩
      simp [hl]

theorem bounded_handOver (h : p.Bounded) : p.handOver.2.Bounded := by
  obtain ⟨busy, room⟩ := h
  rw [waiting] at room
  rw [handOver]
  cases hl : p.line with
  | nil =>
      refine ⟨fun line => absurd rfl line, ?_⟩
      rw [hl] at room
      exact room
  | cons c rest =>
      rw [hl] at busy room
      refine ⟨fun _ => busy (by simp), ?_⟩
      simp only [waiting, List.length_append, List.length_cons, List.length_nil] at room ⊢
      omega

theorem mem_handOver (p : Pool) (r : Nat) :
    r ∈ p.handOver.2.line ++ p.handOver.2.handed ↔ r ∈ p.line ++ p.handed := by
  rw [handOver]
  cases hl : p.line with
  | nil => simp
  | cons c rest =>
      simp only [List.mem_append, List.mem_cons, List.not_mem_nil, or_false]
      tauto

theorem closing_handOver (p : Pool) : p.handOver.2.closing = p.closing := by
  rw [handOver]
  split <;> rfl

theorem Bounded.fewer (h : p.Bounded) (config : p'.config = p.config) (free : p'.free = p.free)
    (line : p'.line.Sublist p.line) (handed : p'.handed.Sublist p.handed) : p'.Bounded := by
  refine ⟨fun some => ?_, ?_⟩
  · rw [free]
    refine h.busy fun none => some ?_
    rw [none] at line
    exact List.sublist_nil.1 line
  · rw [config]
    exact Nat.le_trans (Nat.add_le_add line.length_le handed.length_le) h.room

theorem bounded_admitted (h : p.Bounded) (arrives : p.arrive r = (.admitted, p')) :
    p'.Bounded := by
  obtain ⟨free, rfl⟩ := arrive_admitted arrives
  refine ⟨fun line => absurd (h.busy line) free, h.room⟩

theorem bounded_inLine (arrives : p.arrive r = (.inLine, p')) : p'.Bounded := by
  rw [arrive] at arrives
  split at arrives
  · cases arrives
  · split at arrives
    · cases arrives
    · rename_i room
      split at arrives
      · rename_i free
        cases arrives
        refine ⟨fun _ => free, ?_⟩
        rw [not_and', Nat.not_le] at room
        have room := room free
        simp only [waiting, List.length_append, List.length_singleton] at room ⊢
        omega
      · cases arrives

/-- A call is refused for want of room exactly where no slot is free and the places to wait are
taken. -/
theorem arrive_saturated {n : Nat} : (p.arrive r).1 = .refused (.saturated n) ↔
    p.closing = false ∧ p.free = 0 ∧ p.config.maxPending ≤ p.waiting ∧ n = p.waiting := by
  rw [arrive]
  split
  · rename_i closing
    simp [closing]
  · rename_i isOpen
    rw [Bool.not_eq_true] at isOpen
    split
    · rename_i full
      simp only [Admission.refused.injEq, PoolError.saturated.injEq, isOpen, full, true_and]
      exact eq_comm
    · rename_i room
      have never : ¬(p.free = 0 ∧ p.config.maxPending ≤ p.waiting ∧ n = p.waiting) :=
        fun busy => room ⟨busy.2.1, busy.1⟩
      split <;> simp [isOpen, never]

end Steps
end Pool

namespace Request
variable {ρ : Type} {q : Request ρ}

/-- The caller has been told, and waits no more. -/
def replied (q : Request ρ) (now : Nat) (o : Ending ρ) : Request ρ :=
  { q with stage := .over, answer := some (now, o) }

/-- The work of the request holds a slot: it has come to one and has not stopped. -/
def HoldsSlot (q : Request ρ) : Prop :=
  q.hasEnded = false ∧ (q.stage = .running ∨ q.stage = .over ∧ q.cancelled = true)

/-- How many others waited when the caller was turned away for want of room. -/
def turnedAway? (q : Request ρ) : Option Nat :=
  match q.answer with
  | some (_, .error (.pool (.saturated n))) => some n
  | _ => none

theorem HoldsSlot.not_pending (h : q.HoldsSlot) : q.stage ≠ .pending := by
  intro pending
  obtain running | ⟨isOver, _⟩ := h.2
  · simp [running] at pending
  · simp [isOver] at pending

theorem HoldsSlot.not_waiting (h : q.HoldsSlot) : q.stage ≠ .waiting := by
  intro waiting
  obtain running | ⟨isOver, _⟩ := h.2
  · simp [running] at waiting
  · simp [isOver] at waiting

end Request

/-- How a caller of the pool moves at a time, who joins the line by it, and how the pool moves with
it. -/
inductive Move {ρ : Type} (now r : Nat) (p : Pool) (q : Request ρ) :
    List Nat → Pool → Request ρ → Prop where
  | noted (pending : q.stage = .pending) (t l : Nat) :
      Move now r p q [] p { q with called := t, poolLimit := l }
  | refused {why : PoolError} {p' : Pool} (pending : q.stage = .pending)
      (unasked : q.cancelled = false) (h : p.arrive r = (.refused why, p')) :
      Move now r p q [] p (q.replied now (.error (.pool why)))
  /-- The line is not for a caller whose time is up when it comes. -/
  | skipped {p' : Pool} (l : Nat) (pending : q.stage = .pending) (unasked : q.cancelled = false)
      (late : q.overdue now = true) (h : p.arrive r = (.inLine, p')) :
      Move now r p q [] p (q.replied now (.error (.pool (.timeout l))))
  | queued {p' : Pool} (pending : q.stage = .pending) (h : p.arrive r = (.inLine, p')) :
      Move now r p q [r] p' { q with stage := .waiting }
  | seated {p' : Pool} (fresh : q.isFresh = true) (seat : Seat r p q p') :
      Move now r p q [] p' { q with stage := .running, cancelled := p'.cancelled }
  | asked (holds : q.HoldsSlot) : Move now r p q [] p { q with cancelled := true }
  | begun (holds : q.HoldsSlot) : Move now r p q [] p { q with begun := some now }
  | slept (wake : Nat) (wakeable : Bool) (rest : Bool → Activity ρ) (holds : q.HoldsSlot) :
      Move now r p q [] p { q with work := .asleep wake wakeable rest }
  | ended (o : Ending ρ) (holds : q.HoldsSlot)
      (how : (∃ x, o = .ok x) ∨ o = .error (.pool .panicked)) :
      Move now r p q [] (p.release r).2 { q with work := .ended o }
  | answered (o : Ending ρ) (running : q.stage = .running) (done : q.work = .ended o)
      (how : (∃ x, o = .ok x) ∨ o = .error (.pool .panicked)) :
      Move now r p q [] p (q.replied now o)
  | overran (l : Nat) (running : q.stage = .running) (goes : q.hasEnded = false)
      (asked : q.cancelled = true) (late : q.overdue now = true) :
      Move now r p q [] p (q.replied now (.error (.pool (.timeout l))))
  | expired (l : Nat) (waiting : q.stage = .waiting) (unasked : q.cancelled = false)
      (late : q.overdue now = true) (slotless : r ∉ p.handed) :
      Move now r p q [] (p.leave r) (q.replied now (.error (.pool (.timeout l))))
  | dismissed (waiting : q.stage = .waiting) (unasked : q.cancelled = false)
      (closing : p.closing = true) (slotless : r ∉ p.handed) :
      Move now r p q [] p (q.replied now (.error (.pool .shuttingDown)))
  | declined (waiting : q.stage = .waiting) (unasked : q.cancelled = false)
      (closing : p.closing = true) (has : r ∈ p.handed) :
      Move now r p q [] (p.decline r).2 (q.replied now (.error (.pool .shuttingDown)))

namespace Move
variable {ρ : Type} {now r : Nat} {arrived : List Nat} {p p' : Pool} {q q' : Request ρ}
  (h : Move now r p q arrived p' q')
include h

theorem advances : Pool.Advances arrived p p' := by
  cases h with
  | noted | refused | skipped | asked | begun | slept | answered | overran | dismissed =>
      exact .refl p
  | queued pending arrives =>
      obtain ⟨_, rfl⟩ := Pool.arrive_inLine arrives
      exact ⟨rfl, p.handed, [], by simp, List.Sublist.refl _, by simp⟩
  | seated fresh seat =>
      cases seat with
      | free pending arrives =>
          obtain ⟨_, rfl⟩ := Pool.arrive_admitted arrives
          exact .of_line rfl (List.Sublist.refl _) (List.Sublist.refl _)
      | handed waiting has => exact .of_line rfl (List.Sublist.refl _) List.erase_sublist
  | expired => exact .of_line rfl List.erase_sublist (List.Sublist.refl _)
  | ended o holds how =>
      have freed : Pool.Advances [] p { p with running := p.running.erase r } :=
        .of_line rfl (List.Sublist.refl _) (List.Sublist.refl _)
      exact freed.trans (Pool.advances_handOver _)
  | declined waiting unasked closing has =>
      have freed : Pool.Advances [] p { p with handed := p.handed.erase r } :=
        .of_line rfl (List.Sublist.refl _) List.erase_sublist
      exact freed.trans (Pool.advances_handOver _)

theorem bounded (bounded : p.Bounded) : p'.Bounded := by
  cases h with
  | noted | refused | skipped | asked | begun | slept | answered | overran | dismissed =>
      exact bounded
  | queued pending arrives => exact Pool.bounded_inLine arrives
  | seated fresh seat =>
      cases seat with
      | free pending arrives => exact Pool.bounded_admitted bounded arrives
      | handed waiting has =>
          exact bounded.fewer rfl rfl (List.Sublist.refl _) List.erase_sublist
  | expired => exact bounded.fewer rfl rfl List.erase_sublist (List.Sublist.refl _)
  | ended o holds how =>
      have freed : Pool.Bounded { p with running := p.running.erase r } :=
        bounded.fewer rfl rfl (List.Sublist.refl _) (List.Sublist.refl _)
      exact Pool.bounded_handOver freed
  | declined waiting unasked closing has =>
      have freed : Pool.Bounded { p with handed := p.handed.erase r } :=
        bounded.fewer rfl rfl (List.Sublist.refl _) List.erase_sublist
      exact Pool.bounded_handOver freed

/-- Who has come to the pool has come for good, and is not turned away any more. -/
theorem past (came : q.stage ≠ .pending) :
    q'.stage ≠ .pending ∧ ∀ n, q'.turnedAway? = some n → q.turnedAway? = some n := by
  cases h with
  | noted pending | refused pending | skipped _ pending | queued pending =>
      exact absurd pending came
  | seated => exact ⟨by simp, fun _ => id⟩
  | asked | begun | slept | ended => exact ⟨came, fun _ => id⟩
  | answered o running done how =>
      refine ⟨by simp [Request.replied], fun n turned => ?_⟩
      obtain ⟨x, rfl⟩ | rfl := how <;> simp [Request.turnedAway?, Request.replied] at turned
  | overran | expired | dismissed | declined =>
      exact ⟨by simp [Request.replied], fun n turned => by
        simp [Request.turnedAway?, Request.replied] at turned⟩

section Served
variable {w w' u u' : Nat → Prop}
  (others : ∀ r', r ≠ r' → (w' r' ↔ w r') ∧ (u' r' ↔ u r')) (waits : w r ↔ q.stage = .waiting)
  (waits' : w' r ↔ q'.stage = .waiting)
include others waits waits'

/-- Whatever move a caller makes, the pool goes on to serve those who wait and those whose work
holds a slot. -/
theorem serves (holds : u r ↔ q.HoldsSlot) (holds' : u' r ↔ q'.HoldsSlot)
    (served : p.Serves w u 0) : p'.Serves w' u' 0 := by
  have stays (stage : q'.stage = .waiting ↔ q.stage = .waiting)
      (slot : q'.HoldsSlot ↔ q.HoldsSlot) : p.Serves w' u' 0 := by
    refine served.congr (fun r' => ?_) fun r' => ?_
    · by_cases hr : r = r'
      · rw [← hr, waits', waits, stage]
      · exact (others r' hr).1
    · by_cases hr : r = r'
      · rw [← hr, holds', holds, slot]
      · exact (others r' hr).2
  have outside (hr : q.stage ≠ .waiting) : r ∉ p.line ++ p.handed := by
    intro hmem
    exact hr (waits.1 (served.waits r hmem))
  have pending_idle (pending : q.stage = .pending) : ¬u r := by
    rw [holds]
    exact fun slot => slot.not_pending pending
  have waiting_idle (waiting : q.stage = .waiting) : ¬u r := by
    rw [holds]
    exact fun slot => slot.not_waiting waiting
  have leaves {o : Ending ρ} (gone : q' = q.replied now o) (unasked : q.cancelled = false) :
      ¬u' r := by
    rw [holds', gone]
    rintro ⟨_, running | ⟨_, asked⟩⟩
    · cases running
    · rw [Request.replied, unasked] at asked
      cases asked
  cases h with
  | noted => exact stays .rfl .rfl
  | asked slot =>
      refine stays .rfl (iff_of_true ⟨slot.1, ?_⟩ slot)
      exact slot.2.imp_right fun isOver => ⟨isOver.1, rfl⟩
  | begun slot => exact stays .rfl .rfl
  | slept wake wakeable rest slot => exact stays .rfl (iff_of_true ⟨rfl, slot.2⟩ slot)
  | refused pending unasked | skipped _ pending unasked =>
      exact served.elsewhere others (outside (by simp [pending])) (pending_idle pending)
        (leaves rfl unasked)
  | queued pending arrives =>
      obtain ⟨isOpen, rfl⟩ := Pool.arrive_inLine arrives
      refine served.queue others (outside (by simp [pending])) (pending_idle pending) ?_
        (waits'.2 rfl) isOpen
      rw [holds']
      exact fun slot => slot.not_waiting rfl
  | seated fresh seat =>
      have placed : u' r := holds'.2 ⟨q.hasEnded_of_isFresh fresh, .inl rfl⟩
      cases seat with
      | free pending arrives =>
          obtain ⟨some, rfl⟩ := Pool.arrive_admitted arrives
          exact served.seatFree others (outside (by simp [pending])) (pending_idle pending) placed
            some
      | handed waiting has => exact served.take others has placed
  | ended o slot how =>
      refine served.release others (holds.2 slot) ?_
      rw [holds']
      rintro ⟨goes, _⟩
      cases goes
  | answered o running done how =>
      have gone : ¬(q.replied now o).HoldsSlot := by
        rintro ⟨goes, _⟩
        rw [Request.hasEnded, Request.replied, done] at goes
        cases goes
      refine stays (iff_of_false (by simp [Request.replied]) (by simp [running])) ?_
      refine iff_of_false gone fun slot => ?_
      have goes := slot.1
      rw [Request.hasEnded, done] at goes
      cases goes
  | overran l running goes asked late =>
      refine stays (iff_of_false (by simp [Request.replied]) (by simp [running])) ?_
      exact iff_of_true ⟨goes, .inr ⟨rfl, asked⟩⟩ ⟨goes, .inl running⟩
  | expired l waiting unasked late slotless =>
      exact served.leave others slotless (waiting_idle waiting) (leaves rfl unasked)
  | dismissed waiting unasked closing slotless =>
      refine served.elsewhere others (fun hr => ?_) (waiting_idle waiting) (leaves rfl unasked)
      rw [served.closed closing] at hr
      exact slotless hr
  | declined waiting unasked closing has =>
      exact served.decline others has (leaves rfl unasked)

/-- Before the pool closes, nobody who waits is lost. -/
theorem keeps (kept : p.Keeps w) : p'.Keeps w' := by
  have rest {p'' : Pool} (stays : q'.stage ≠ .waiting) (closing : p''.closing = p.closing)
      (places : ∀ r', r ≠ r' → r' ∈ p.line ++ p.handed → r' ∈ p''.line ++ p''.handed) :
      p''.Keeps w' := by
    intro isOpen r' hr'
    have other : r ≠ r' := by
      rintro rfl
      exact stays (waits'.1 hr')
    exact places r' other (kept (closing ▸ isOpen) r' ((others r' other).1.1 hr'))
  have same (stage : q'.stage = .waiting ↔ q.stage = .waiting) : p.Keeps w' := by
    intro isOpen r' hr'
    refine kept isOpen r' ?_
    by_cases hr : r = r'
    · subst hr
      exact waits.2 (stage.1 (waits'.1 hr'))
    · exact (others r' hr).1.1 hr'
  cases h with
  | noted | asked | begun | slept => exact same .rfl
  | refused | skipped | answered | overran =>
      exact rest (by simp [Request.replied]) rfl fun _ _ place => place
  | queued pending arrives =>
      obtain ⟨isOpen, rfl⟩ := Pool.arrive_inLine arrives
      intro _ r' hr'
      by_cases hr : r = r'
      · simp [hr]
      · have place := kept isOpen r' ((others r' hr).1.1 hr')
        simp only [List.mem_append, List.mem_singleton] at place ⊢
        exact place.imp_left .inl
  | seated fresh seat =>
      cases seat with
      | free pending arrives =>
          obtain ⟨_, rfl⟩ := Pool.arrive_admitted arrives
          exact rest (by simp) rfl fun _ _ place => place
      | handed waiting has =>
          refine rest (by simp) rfl fun r' other place => ?_
          simp only [Pool.take, List.mem_append] at place ⊢
          exact place.imp_right (List.mem_erase_of_ne other.symm).2
  | ended o slot how =>
      have never : q.stage ≠ .waiting := slot.not_waiting
      refine rest never (Pool.closing_handOver _) fun r' _ place => ?_
      exact (Pool.mem_handOver _ r').2 place
  | expired l waiting unasked late slotless =>
      refine rest (by simp [Request.replied]) rfl fun r' other place => ?_
      simp only [Pool.leave, List.mem_append] at place ⊢
      exact place.imp_left (List.mem_erase_of_ne other.symm).2
  | dismissed waiting unasked closing =>
      intro isOpen
      rw [closing] at isOpen
      cases isOpen
  | declined waiting unasked closing =>
      intro isOpen
      change (Pool.handOver _).2.closing = false at isOpen
      rw [Pool.closing_handOver, closing] at isOpen
      cases isOpen

end Served

end Move
end EventSourcing
