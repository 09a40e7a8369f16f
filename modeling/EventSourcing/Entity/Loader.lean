import EventSourcing.Entity.Error
import EventSourcing.Entity.Folding
import EventSourcing.Store.Access

/-!
Loading entities.
An aggregate of another type is refused before the store is asked.
-/
namespace EventSourcing.Folding
variable {S : Type}

/-- Loads the log of an aggregate and folds it. -/
def loadReplay (f : Folding S) (s : StoreAccess) (a : AggregateId) :
    Activity (Except EntityError (Replay S)) :=
  if a.type ≠ f.type then .done (.error (.typeMismatch f.type a.type))
  else (s.load a).bind fun
    | .error e => .done (.error (.store e))
    | .ok log => .done ((f.replay a log).mapError .deserialization)

/-- Loads an entity that has state. -/
def load (f : Folding S) (s : StoreAccess) (a : AggregateId) :
    Activity (Except EntityError (Entity S)) :=
  (f.loadReplay s a).bind fun
    | .error e => .done (.error e)
    | .ok r =>
      match r.entity? with
      | some e => .done (.ok e)
      | none => .done (.error (.notAvailable a))

end EventSourcing.Folding
