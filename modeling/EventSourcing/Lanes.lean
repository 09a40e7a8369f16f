import EventSourcing.Assoc
import EventSourcing.Aggregate

/-!
Lanes.
Each aggregate with work to do has a lane, in which jobs wait their turn; one worker serves the lane
and gives it up once it finds it empty. A lane whose worker has died keeps its place until the next
job for its aggregate starts another. Jobs are known by their numbers.
-/
namespace EventSourcing

structure Lane where
  queue : List Nat := []
  /-- The job that is being done. -/
  current : Option Nat := none
  /-- No worker will come back to this lane. -/
  dead : Bool := false
  deriving DecidableEq, Inhabited

structure Lanes where
  table : Assoc AggregateId Lane := ∅

namespace Lanes

def get? (l : Lanes) (a : AggregateId) : Option Lane := l.table.get? a

/-- The number of aggregates with a lane. -/
def size (l : Lanes) : Nat := l.table.size

/-- Puts a job at the end of a lane; says whether the lane is new and needs a worker. -/
def submit (l : Lanes) (a : AggregateId) (job : Nat) : Bool × Lanes :=
  match l.get? a with
  | some lane =>
    if lane.dead then (true, ⟨l.table.put a { queue := [job] }⟩)
    else (false, ⟨l.table.put a { lane with queue := lane.queue ++ [job] }⟩)
  | none => (true, ⟨l.table.put a { queue := [job] }⟩)

/-- Takes the next job of a lane, if there is one. -/
def take? (l : Lanes) (a : AggregateId) : Option (Nat × Lanes) :=
  match l.get? a with
  | some lane =>
    match lane.queue with
    | job :: rest => some (job, ⟨l.table.put a { lane with queue := rest, current := some job }⟩)
    | [] => none
  | none => none

/-- Looks once more for a job and gives up the lane if there is none. -/
def takeOrRetire (l : Lanes) (a : AggregateId) : Option Nat × Lanes :=
  match l.take? a with
  | some (job, l) => (some job, l)
  | none => (none, ⟨l.table.erase a⟩)

/-- Marks the current job of a lane as done. -/
def finish (l : Lanes) (a : AggregateId) : Lanes :=
  ⟨l.table.modify a fun lane => { lane with current := none }⟩

/-- All workers die. -/
def abandon (l : Lanes) : Lanes :=
  ⟨⟨l.table.entries.map fun e => (e.1, { e.2 with dead := true })⟩⟩

def debugText (l : Lanes) : String :=
  "AggregateSerializer \x7b pending_keys: " ++ toString l.size ++ " \x7d"

end Lanes
end EventSourcing
