import EventSourcing.Text.Duration

/-!
Failures of a pool.
-/
namespace EventSourcing

inductive PoolError where
  | shuttingDown
  | saturated (waiting : Nat)
  /-- The limit of the caller, in milliseconds, has passed. -/
  | timeout (limit : Nat)
  | panicked
  deriving DecidableEq

namespace PoolError

def message : PoolError → String
  | .shuttingDown => "Worker pool is shutting down"
  | .saturated waiting => s!"Worker pool saturated: {waiting} callers already waiting"
  | .timeout limit => s!"Work timed out after {Text.duration limit}"
  | .panicked => "Work panicked"

/-- Failures that may be gone when the caller tries again. -/
def isRetryable : PoolError → Bool
  | .saturated _ => true
  | .timeout _ => true
  | _ => false

end PoolError
end EventSourcing
