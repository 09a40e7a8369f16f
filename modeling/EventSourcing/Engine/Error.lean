import EventSourcing.Command.Error
import EventSourcing.Config
import EventSourcing.Pool.Error

/-!
Failures of the engine.
-/
namespace EventSourcing

inductive EngineError (ε : Type) where
  | command (error : CommandError ε)
  | pool (error : PoolError)
  | config (error : ConfigError)
  deriving DecidableEq

namespace EngineError
variable {ε : Type}

def message [Rejection ε] : EngineError ε → String
  | .command error => error.message
  | .pool error => error.message
  | .config error => error.message

def ofEntity (e : EntityError) : EngineError ε := .command (.ofEntity e)

def isClient : EngineError ε → Bool
  | .command error => error.isClient
  | _ => false

/-- Failures for want of room or time. -/
def isCapacity : EngineError ε → Bool
  | .pool _ => true
  | _ => false

def rejection? : EngineError ε → Option ε
  | .command (.rejected reason) => some reason
  | _ => none

end EngineError
end EventSourcing
