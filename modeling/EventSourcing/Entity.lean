import EventSourcing.Aggregate
import EventSourcing.Revision

/-!
Entities.
An entity is the state that the log of an aggregate stands for, with the revision of the last event
that shaped it and the head of the log. The head is further on where the log ends in events that the
state does not depend on.
-/
namespace EventSourcing

structure Entity (S : Type) where
  aggregate : AggregateId
  type : String
  state : S
  revision : Revision
  head : Revision
  deriving DecidableEq

namespace Entity

def map {S T : Type} (f : S → T) (e : Entity S) : Entity T :=
  ⟨e.aggregate, e.type, f e.state, e.revision, e.head⟩

end Entity

/-- The result of reading a log: the state, if there is one, and how many events counted. -/
structure Replay (S : Type) where
  aggregate : AggregateId
  type : String
  state : Option S
  revision : Revision
  head : Revision
  applied : Nat
  skipped : Nat
  deriving DecidableEq

namespace Replay
variable {S : Type}

def isAvailable (r : Replay S) : Bool := r.state.isSome

def entity? (r : Replay S) : Option (Entity S) :=
  r.state.map fun s => ⟨r.aggregate, r.type, s, r.revision, r.head⟩

end Replay
end EventSourcing
