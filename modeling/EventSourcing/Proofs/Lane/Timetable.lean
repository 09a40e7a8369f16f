import EventSourcing.Proofs.Lane.Handlers

/-!
The timetable of an aggregate.
Jobs that only sleep and compute take a time and have a result that nothing outside them decides. Where
they run one after the other, each starts when it has been submitted and the job before it is over, so
that a timetable for all of them can be drawn up from when they were submitted and what they are.
-/
namespace EventSourcing

namespace Activity
variable {ρ : Type}

/-- The work only sleeps and computes: it asks nothing of the world. -/
def IsPlain : Activity ρ → Prop
  | .done _ | .panic => True
  | .load .. | .append .. | .draw _ | .share _ => False
  | .count _ k | .note _ k | .sleep _ k => k.IsPlain
  | .sleepUnlessCancelled _ k | .cancelled k => (k false).IsPlain

/-- How long plain work takes in all, where nobody asks it to stop. -/
def span : Activity ρ → Nat
  | .count _ k | .note _ k => k.span
  | .sleep ms k => sleepSpan ms + k.span
  | .sleepUnlessCancelled ms k => sleepSpan ms + (k false).span
  | .cancelled k => (k false).span
  | .done _ | .panic | .load .. | .append .. | .draw _ | .share _ => 0

/-- What plain work comes to as a job. -/
def ending : Activity ρ → Ending ρ
  | .done x => .ok x
  | .count _ k | .note _ k | .sleep _ k => k.ending
  | .sleepUnlessCancelled _ k | .cancelled k => (k false).ending
  | .panic | .load .. | .append .. | .draw _ | .share _ => .error .aborted

end Activity

namespace Work
variable {ρ : Type}

/-- Work that has begun will have come to an end at a time, whatever happens, unless it already has. -/
inductive Leads (finish : Nat) (o : Ending ρ) : Work ρ → Prop
  | ended : Leads finish o (.ended o)
  | asleep {wake : Nat} {wakeable : Bool} {rest : Bool → Activity ρ} (plain : (rest false).IsPlain)
      (time : wake + (rest false).span = finish) (result : (rest false).ending = o) :
      Leads finish o (.asleep wake wakeable rest)

end Work

namespace Activity
variable {ρ : Type} {x : Activity ρ}

/-- Plain work that runs comes to its end at its time: either here, or after it has slept. -/
theorem IsPlain.leads (h : x.IsPlain) (w : World) (now : Nat) :
    ((x.advance false w).2.jobWork now).Leads (now + x.span) x.ending ∧
      ∀ o, (x.advance false w).2.jobWork now = .ended o → x.span = 0 := by
  induction x generalizing w with
  | done x => exact ⟨.ended, fun _ _ => rfl⟩
  | panic => exact ⟨.ended, fun _ _ => rfl⟩
  | load | append | draw | share => cases h
  | count m k ih => exact ih h _
  | note n k ih => exact ih h _
  | cancelled k ih => exact ih false h w
  | sleep ms k ih =>
      rw [advance]
      split
      · rename_i none
        simpa [span, ending, sleepSpan, none] using ih h w
      · exact ⟨.asleep h (Nat.add_assoc ..) rfl, fun _ ended => by cases ended⟩
  | sleepUnlessCancelled ms k ih =>
      rw [advance]
      simp only [Bool.false_eq_true, if_false]
      split
      · rename_i none
        simpa [span, ending, sleepSpan, none] using ih false h w
      · exact ⟨.asleep h (Nat.add_assoc ..) rfl, fun _ ended => by cases ended⟩

end Activity

namespace LaneTraffic
variable {ρ : Type}

/-- A job as it was submitted. -/
structure Arrival (ρ : Type) where
  job : Nat
  time : Nat
  work : Activity ρ

/-- When a job was submitted, and what it is. -/
def Arrival.terms (v : Arrival ρ) : Nat × Activity ρ := (v.time, v.work)

/-- What a timetable says of a job. -/
structure Row (ρ : Type) where
  start : Nat
  finish : Nat
  ending : Ending ρ

/-- The row of a job whose lane is free from a time on. -/
def Arrival.row (v : Arrival ρ) (free : Nat) : Row ρ where
  start := max v.time free
  finish := max v.time free + v.work.span
  ending := v.work.ending

/-- The timetable of jobs that run one after the other, in a lane that is free from a time on: each
starts at the later of its submission and the end of the job before it. -/
def timetable (free : Nat) : List (Arrival ρ) → List (Arrival ρ × Row ρ)
  | [] => []
  | v :: rest => (v, v.row free) :: timetable (v.row free).finish rest

/-- When a lane is free that does some jobs. -/
def freeAfter (free : Nat) : List (Arrival ρ) → Nat
  | [] => free
  | v :: rest => freeAfter (v.row free).finish rest

variable {vs vs' : List (Arrival ρ)} {v v' : Arrival ρ} {free i : Nat} {row row' : Row ρ}

theorem Arrival.free_le (v : Arrival ρ) (free : Nat) : free ≤ (v.row free).finish :=
  Nat.le_trans (Nat.le_max_right ..) (Nat.le_add_right ..)

theorem timetable_append :
    timetable free (vs ++ vs') = timetable free vs ++ timetable (freeAfter free vs) vs' := by
  induction vs generalizing free with
  | nil => rfl
  | cons v rest ih => exact congrArg (_ :: ·) ih

theorem freeAfter_append : freeAfter free (vs ++ vs') = freeAfter (freeAfter free vs) vs' := by
  induction vs generalizing free with
  | nil => rfl
  | cons v rest ih => exact ih

theorem le_freeAfter : free ≤ freeAfter free vs := by
  induction vs generalizing free with
  | nil => exact Nat.le_refl _
  | cons v rest ih => exact Nat.le_trans (v.free_le free) ih

/-- Each job has its row, in the place of the job. -/
theorem exists_row (free : Nat) (hv : vs[i]? = some v) :
    ∃ row, (timetable free vs)[i]? = some (v, row) := by
  induction vs generalizing free i with
  | nil => cases hv
  | cons u rest ih =>
      cases i with
      | zero =>
          cases hv
          exact ⟨_, rfl⟩
      | succ i => exact ih _ hv

theorem exists_row_of_mem (free : Nat) (hv : v ∈ vs) : ∃ row, (v, row) ∈ timetable free vs := by
  obtain ⟨i, hi⟩ := List.mem_iff_getElem?.1 hv
  obtain ⟨row, hrow⟩ := exists_row free hi
  exact ⟨row, List.mem_of_getElem? hrow⟩

theorem mem_of_mem_timetable (h : (v, row) ∈ timetable free vs) : v ∈ vs := by
  induction vs generalizing free with
  | nil => cases h
  | cons u rest ih =>
      obtain first | later := List.mem_cons.1 h
      · cases first
        exact List.mem_cons_self
      · exact List.mem_cons_of_mem _ (ih later)

/-- All jobs are over when the lane is free. -/
theorem finish_le_freeAfter (h : (v, row) ∈ timetable free vs) : row.finish ≤ freeAfter free vs := by
  induction vs generalizing free with
  | nil => cases h
  | cons u rest ih =>
      obtain first | later := List.mem_cons.1 h
      · cases first
        exact le_freeAfter
      · exact ih later

/-- A lane is free once all its jobs are over. -/
theorem freeAfter_le {now : Nat} (start : free ≤ now)
    (ends : ∀ v row, (v, row) ∈ timetable free vs → row.finish ≤ now) : freeAfter free vs ≤ now := by
  induction vs generalizing free with
  | nil => exact start
  | cons v rest ih =>
      exact ih (ends _ _ List.mem_cons_self) fun v row h => ends v row (List.mem_cons_of_mem _ h)

/-- No job starts before the lane is free, or before it was submitted. -/
theorem le_start (h : (v, row) ∈ timetable free vs) :
    max v.time free ≤ row.start ∧ row.finish = row.start + v.work.span := by
  induction vs generalizing free with
  | nil => cases h
  | cons u rest ih =>
      obtain first | later := List.mem_cons.1 h
      · cases first
        exact ⟨Nat.le_refl _, rfl⟩
      · obtain ⟨start, finish⟩ := ih later
        have moves := u.free_le free
        exact ⟨by omega, finish⟩

/-- The rows say when the jobs were submitted and what they are, not what they are called. -/
theorem row_eq (same : vs.map Arrival.terms = vs'.map Arrival.terms)
    (hv : (timetable free vs)[i]? = some (v, row))
    (hv' : (timetable free vs')[i]? = some (v', row')) : row = row' := by
  induction vs generalizing free vs' i with
  | nil => cases hv
  | cons u rest ih =>
      cases vs' with
      | nil => cases hv'
      | cons u' rest' =>
          simp only [List.map_cons, List.cons.injEq, Arrival.terms, Prod.mk.injEq] at same
          obtain ⟨⟨time, work⟩, others⟩ := same
          have first : u.row free = u'.row free := by rw [Arrival.row, time, work, Arrival.row]
          cases i with
          | zero =>
              cases hv
              cases hv'
              exact first
          | succ i =>
              rw [timetable, ← first] at hv'
              exact ih others hv hv'

end LaneTraffic
end EventSourcing
