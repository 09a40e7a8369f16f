import EventSourcing.Aggregate
import EventSourcing.Json.Document
import EventSourcing.Retry
import EventSourcing.Revision

/-!
Failures of an event store.
-/
namespace EventSourcing

/-- Why a storage fault is expected to pass. -/
inductive TransientCause where
  /-- No revision is left after the last one of a log. -/
  | revisionsExhausted
  | fault (message : String)
  deriving DecidableEq

def TransientCause.message : TransientCause → String
  | .revisionsExhausted => "revision space exhausted"
  | .fault message => message

/-- Why a batch of events cannot be appended to any log. -/
inductive BatchFault where
  | empty
  | unnamedEvent (index : Nat)
  | other (message : String)
  deriving DecidableEq

def BatchFault.message : BatchFault → String
  | .empty => "Cannot append empty event list"
  | .unnamedEvent index => s!"Event at index {index} has an empty type"
  | .other message => message

inductive StoreError where
  | revisionConflict (aggregate : AggregateId)
  | unexpectedRevision (aggregate : AggregateId) (expected actual : Revision)
  | transient (cause : TransientCause)
  | invalidAppend (fault : BatchFault)
  | subscriptionLagged (count : Nat)
  | serialization (error : Json.DocumentError)
  | retryPolicy (error : Retry.LimitTooHigh)
  deriving DecidableEq

namespace StoreError

def message : StoreError → String
  | .revisionConflict a => s!"Revision conflict for aggregate {a.canonical}"
  | .unexpectedRevision a expected actual =>
    s!"Expected revision conflict for aggregate {a.canonical}: " ++
      s!"expected {expected.text}, found {actual.text}"
  | .transient cause => s!"Transient storage fault: {cause.message}"
  | .invalidAppend fault => s!"Invalid append: {fault.message}"
  | .subscriptionLagged count => s!"Subscription lagged behind by {count} events"
  | .serialization error => s!"Serialization error: {error.message}"
  | .retryPolicy error => s!"Retry policy error: {error.message}"

/-- A fault that may be gone at the next attempt. -/
def isTransient : StoreError → Bool
  | .transient _ => true
  | _ => false

/-- A refusal because somebody else has written. -/
def isConflict : StoreError → Bool
  | .revisionConflict _ => true
  | .unexpectedRevision _ _ _ => true
  | _ => false

end StoreError
end EventSourcing
