import EventSourcing.Store.Error

/-!
Failures of reading an entity.
-/
namespace EventSourcing

inductive EntityError where
  | notAvailable (aggregate : AggregateId)
  | typeMismatch (expected actual : String)
  | store (error : StoreError)
  | deserialization (error : DecodeError)
  deriving DecidableEq

def EntityError.message : EntityError → String
  | .notAvailable a => s!"Entity not available: {a.canonical}"
  | .typeMismatch expected actual => s!"Entity type mismatch: expected {expected}, got {actual}"
  | .store error => s!"Event store error: {error.message}"
  | .deserialization error => s!"Deserialization error: {error.message}"

end EventSourcing
