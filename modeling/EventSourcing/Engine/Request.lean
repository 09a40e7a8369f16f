import EventSourcing.Activity
import EventSourcing.Agenda
import EventSourcing.Pool

/-!
Requests.
A request is a call that waits for the result of an activity. It goes through the lane of an
aggregate, or the pool, or first the lane and then, from its head, the pool; the lane is then held
until the work has really stopped, even where the call was answered before.
-/
namespace EventSourcing

inductive Route where
  | pool
  | lane (a : AggregateId)
  | laneThenPool (a : AggregateId)
  deriving DecidableEq

/-- Why a call has no result of its work. -/
inductive Failure where
  | pool (e : PoolError)
  /-- The work broke down in its lane. -/
  | aborted
  deriving DecidableEq

abbrev Ending (ρ : Type) := Except Failure ρ

/-- How far the work of a request has come. -/
inductive Work (ρ : Type) where
  | fresh (a : Activity ρ)
  | asleep (wake : Nat) (wakeable : Bool) (rest : Bool → Activity ρ)
  | ended (e : Ending ρ)

/-- Where a request is. -/
inductive Stage (ρ : Type) where
  /-- Not yet called, or in its lane. -/
  | pending
  /-- In the line of the pool. -/
  | waiting
  /-- Its work has a place to run, and its outcome is open. -/
  | running
  /-- Its outcome is known, but its work still holds the lane. -/
  | overrun (e : Ending ρ)
  | over

structure Request (ρ : Type) where
  route : Route
  /-- The time the caller allows, in milliseconds. -/
  limit : Option Nat
  /-- The caller is in front, not in the background. -/
  foreground : Bool
  work : Work ρ
  stage : Stage ρ := .pending
  /-- When the call was made. -/
  called : Nat := 0
  /-- What was left of the limit when the request came to the pool. -/
  poolLimit : Nat := 0
  /-- The work has been asked to stop. -/
  cancelled : Bool := false
  /-- When the work began. -/
  begun : Option Nat := none
  /-- What the lane has sent back and the caller has not yet seen. -/
  result : Option (Ending ρ) := none
  /-- What the caller was told, and when. -/
  answer : Option (Nat × Ending ρ) := none

namespace Request
variable {ρ : Type}

/-- The moment up to which the caller waits. -/
def deadline? (q : Request ρ) : Option Nat := q.limit.map fun l => q.called + l

def overdue (q : Request ρ) (now : Nat) : Bool :=
  match q.deadline? with
  | some t => t ≤ now
  | none => false

/-- Whether the caller of the pool is in front; a lane calls the pool from the background. -/
def poolInFront (q : Request ρ) : Bool := q.route = .pool && q.foreground

def hasEnded (q : Request ρ) : Bool :=
  match q.work with
  | .ended _ => true
  | _ => false

/-- Whether the work sleeps in a way that a request to stop ends. -/
def isWakeable (q : Request ρ) : Bool :=
  match q.work with
  | .asleep _ wakeable _ => wakeable
  | _ => false

end Request

/-- The rank of a deadline. -/
def Rank.deadline (inFront : Bool) : Rank := if inFront then .front else .background

/-- The rank of a notice for a caller. -/
def Rank.notice (inFront : Bool) : Rank := if inFront then .back else .background

end EventSourcing
