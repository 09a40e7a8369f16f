import EventSourcing.Entity.Error
import EventSourcing.Metrics
import EventSourcing.Schema.Validate

/-!
Failures of commands.
A rejection is an answer of the command's own rules; its type is that of the entity.
-/
namespace EventSourcing

inductive CommandError (ε : Type) where
  | handlerNotFound (entityType command : String)
  | validation (error : ValidationError)
  | notAvailable (aggregate : AggregateId)
  | typeMismatch (expected actual : String)
  | store (error : StoreError)
  | deserialization (error : DecodeError)
  /-- The work on the command stopped before it answered. -/
  | aborted
  | rejected (reason : ε)
  deriving DecidableEq

/-- Rejections that can be shown. -/
class Rejection (ε : Type) where
  message : ε → String

instance : Rejection String := ⟨id⟩

namespace CommandError
variable {ε : Type}

def abortedMessage : String := "Serialized job aborted before completing"

def message [Rejection ε] : CommandError ε → String
  | .handlerNotFound type command =>
    s!"No handler registered for command '{command}' on entity '{type}'"
  | .validation error => error.message
  | .notAvailable a => s!"Entity not available: {a.canonical}"
  | .typeMismatch expected actual => s!"Entity type mismatch: expected {expected}, got {actual}"
  | .store error => s!"Event store error: {error.message}"
  | .deserialization error => s!"Deserialization error: {error.message}"
  | .aborted => abortedMessage
  | .rejected reason => s!"Command rejected: {Rejection.message reason}"

def ofEntity : EntityError → CommandError ε
  | .notAvailable a => .notAvailable a
  | .typeMismatch expected actual => .typeMismatch expected actual
  | .store error => .store error
  | .deserialization error => .deserialization error

/-- Failures that the sender of the command can mend. -/
def isClient : CommandError ε → Bool
  | .validation _ => true
  | .notAvailable _ => true
  | .typeMismatch _ _ => true
  | .rejected _ => true
  | _ => false

def isConflict : CommandError ε → Bool
  | .store error => error.isConflict
  | _ => false

def outcome : CommandError ε → Outcome
  | .handlerNotFound _ _ => .handlerNotFound
  | .validation _ => .validation
  | .notAvailable _ => .notAvailable
  | .typeMismatch _ _ => .typeMismatch
  | .store error => if error.isConflict then .conflict else .eventStore
  | .deserialization _ => .deserialization
  | .aborted => .aborted
  | .rejected _ => .rejected

end CommandError
end EventSourcing
