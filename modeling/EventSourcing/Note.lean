import EventSourcing.Entity
import EventSourcing.Store.Error

/-!
Notes.
Work can leave notes about what it has come to see, in the order in which it ran.
-/
namespace EventSourcing

/-- What a note says. -/
inductive NoteValue where
  | text (s : String)
  | count (n : Nat)
  | revision (r : Revision)
  | aggregate (a : AggregateId)
  /-- A counting entity, if there is one. -/
  | entity (e : Option (Entity Int))
  | failure (e : StoreError)
  deriving DecidableEq

structure Note where
  /-- The aggregate at hand, where it matters. -/
  aggregate : Option AggregateId := none
  topic : String
  value : NoteValue
  deriving DecidableEq

end EventSourcing
