import EventSourcing.Assoc
import EventSourcing.Entity
import EventSourcing.Event

/-!
Folding a log into a state.
While there is no state, an event counts if its type has an initializer; once there is one, it
counts if its type has a reducer. All other events are skipped, whatever they hold.
-/
namespace EventSourcing

/-- How the events of one type of entity make up its state. -/
structure Folding (S : Type) where
  type : String
  /-- The state before the first event, if there is one without events. -/
  seed : Option (AggregateId → S) := none
  initializers : Assoc String (Decoder S) := ∅
  reducers : Assoc String (S → Decoder S) := ∅

namespace Folding
variable {S P : Type}

/-- Events of a type whose payload makes the first state. -/
def withInitializer (f : Folding S) (event : String) (decode : Decoder P) (init : P → S) : Folding S :=
  { f with initializers := f.initializers.put event fun j => (decode j).map init }

/-- Events of a type whose payload changes the state. -/
def withReducer (f : Folding S) (event : String) (decode : Decoder P) (step : S → P → S) : Folding S :=
  { f with reducers := f.reducers.put event fun s j => (decode j).map (step s) }

/-- The state after an event, or nothing where the event does not count. -/
def apply (f : Folding S) (state : Option S) (e : RecordedEvent) :
    Except DecodeError (Option S) :=
  match state with
  | none =>
    match f.initializers.get? e.type with
    | some init => (init e.data).map some
    | none => .ok none
  | some s =>
    match f.reducers.get? e.type with
    | some reduce => (reduce s e.data).map some
    | none => .ok none

def start (f : Folding S) (a : AggregateId) : Replay S :=
  ⟨a, f.type, f.seed.map fun seed => seed a, .initial, .initial, 0, 0⟩

def step (f : Folding S) (r : Replay S) (e : RecordedEvent) : Except DecodeError (Replay S) := do
  match ← f.apply r.state e with
  | some s =>
    return { r with state := some s, revision := e.revision, head := e.revision,
                    applied := r.applied + 1 }
  | none => return { r with head := e.revision, skipped := r.skipped + 1 }

/-- Reads a log from its start. The first payload that cannot be read ends it. -/
def replay (f : Folding S) (a : AggregateId) (log : List RecordedEvent) :
    Except DecodeError (Replay S) :=
  log.foldlM f.step (f.start a)

theorem replay_append (f : Folding S) (a : AggregateId) (xs ys : List RecordedEvent) :
    f.replay a (xs ++ ys) = (f.replay a xs).bind fun r => ys.foldlM f.step r := by
  simp [replay, List.foldlM_append, bind]

end Folding
end EventSourcing
