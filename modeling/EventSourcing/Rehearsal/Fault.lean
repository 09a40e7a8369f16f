import EventSourcing.Store.Link

/-!
Faults to rehearse.
A fault is written down without the aggregate it will befall.
-/
namespace EventSourcing.Rehearsal

inductive Fault where
  | transient (message : String)
  | conflict
  | expected (actual : Revision)
  | invalid (message : String)
  | lagged (count : Nat)
  | retry (limit : Nat)
  /-- The failure to read a text as a whole number. -/
  | serialization (text : String)

namespace Fault

/-- The failure of a fault that befalls an aggregate. A text that can be read is no fault. -/
def error? (a : AggregateId) : Fault → Option StoreError
  | .transient message => some (.transient (.fault message))
  | .conflict => some (.revisionConflict a)
  | .expected actual => some (.unexpectedRevision a .initial actual)
  | .invalid message => some (.invalidAppend (.other message))
  | .lagged count => some (.subscriptionLagged count)
  | .retry limit => some (.retryPolicy ⟨limit⟩)
  | .serialization text =>
    match Json.integerDocument text with
    | .ok _ => none
    | .error e => some (.serialization e)

/-- The failure of a call over the link, if the fault is one. -/
def callFault? (f : Fault) : Option CallFault :=
  match f.error? default with
  | none => none
  | some e => some (.refused fun a => (f.error? a).getD e)

/-- Reads a revision; `initial` names the one before all events. -/
def readRevision? : Json → Option Revision
  | .str "initial" => some .initial
  | .str s => (Revision.parse s).toOption
  | _ => none

def ofJson? : Json → Option Fault
  | .arr [.str "transient", .str message] => some (.transient message)
  | .arr [.str "conflict"] => some .conflict
  | .arr [.str "expected", r] => (readRevision? r).map .expected
  | .arr [.str "invalid", .str message] => some (.invalid message)
  | .arr [.str "lagged", .int n] => some (.lagged n.toNat)
  | .arr [.str "retry", .int n] => some (.retry n.toNat)
  | .arr [.str "serialization", .str text] => some (.serialization text)
  | _ => none

end Fault
end EventSourcing.Rehearsal
