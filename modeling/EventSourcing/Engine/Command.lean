import EventSourcing.Command.Dispatch
import EventSourcing.Engine.Error
import EventSourcing.Engine.Run

/-!
Commands through the engine.
A command takes its turn in the lane of its aggregate and then a slot of the pool. Faults of the
store that may pass are tried again under the policy of the engine.
-/
namespace EventSourcing

/-- What all commands of an engine share. -/
structure CommandEngine (S ε : Type) where
  config : Config
  description : Description S ε
  access : StoreAccess

/-- What the work of a command comes to. -/
abbrev CommandResult (S ε : Type) := Except (CommandError ε) (Entity S)

/-- A call of a command. -/
structure CommandCall where
  aggregate : AggregateId
  command : String
  payload : Json
  limit : Option Nat := none
  correlation : Option String := none

namespace CommandEngine
variable {S ε : Type}

def make (c : Config) (d : Description S ε) : Except ConfigError (CommandEngine S ε) := do
  c.validate
  let access ← (StoreAccess.direct.retrying? c.retry).mapError ConfigError.retry
  return ⟨c, d, access⟩

/-- The request that a call stands for. Without a limit of its own it has that of the pool. -/
def request (m : CommandEngine S ε) (c : CommandCall) (foreground : Bool) :
    Request (CommandResult S ε) where
  route := .laneThenPool c.aggregate
  limit := some (c.limit.getD m.config.pool.defaultTimeout)
  foreground := foreground
  work := .fresh (m.description.dispatch m.access
    ⟨c.command, .id c.aggregate, c.payload, c.correlation⟩)

/-- What the caller of a command is told. -/
def outcome : Ending (CommandResult S ε) → Except (EngineError ε) (Entity S)
  | .ok (.ok entity) => .ok entity
  | .ok (.error error) => .error (.command error)
  | .error (.pool error) => .error (.pool error)
  | .error .aborted => .error (.command .aborted)

/-- Loads an entity without a command. -/
def load (m : CommandEngine S ε) (a : AggregateId) :
    Activity (Except (EngineError ε) (Entity S)) :=
  (m.description.load m.access a).bind fun r => .done (r.mapError .ofEntity)

end CommandEngine
end EventSourcing
