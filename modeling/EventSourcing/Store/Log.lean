import EventSourcing.Assoc
import EventSourcing.Event
import EventSourcing.Store.Error

/-!
Logs of events.
Each aggregate has a log, which only grows at its end. A batch of events is appended as a whole or
not at all, and only where the head of the log is the one that the writer expects, if it expects
one.
-/
namespace EventSourcing

/-- What an append asks for besides its events. -/
structure AppendOptions where
  /-- The head the log must have; without it any head will do. -/
  expected : Option Revision := none
  correlation : Option String := none
  causation : Option String := none
  deriving DecidableEq

namespace AppendOptions

def expect (r : Revision) : AppendOptions := { expected := some r }

def metadata (o : AppendOptions) : Metadata := ⟨o.correlation, o.causation⟩

end AppendOptions

/-- The first event without a type, counted from a given index. -/
def firstUnnamed (index : Nat) : List DomainEvent → Option Nat
  | [] => none
  | e :: rest => if e.type = "" then some index else firstUnnamed (index + 1) rest

/-- A batch has at least one event, and each has a type. -/
def checkBatch (batch : List DomainEvent) : Except BatchFault Unit :=
  if batch.isEmpty then .error .empty
  else match firstUnnamed 0 batch with
    | some index => .error (.unnamedEvent index)
    | none => .ok ()

/-- The identifiers drawn for one event: a candidate for its revision, and its identity. -/
structure EventDraw where
  revision : Ulid
  id : Ulid

/-- The events of a batch as they are recorded after a given revision. There is none where a
revision has no successor. -/
def recordBatch (a : AggregateId) (m : Metadata) (t : Timestamp) (draw : Nat → EventDraw) :
    Nat → Revision → List DomainEvent → Option (List RecordedEvent)
  | _, _, [] => some []
  | i, previous, e :: rest => do
    let r ← Revision.next? (draw i).revision previous
    let tail ← recordBatch a m t draw (i + 1) r rest
    return ⟨⟨(draw i).id⟩, a, e.type, e.data, r, t, m⟩ :: tail

/-- The logs of all aggregates. -/
abbrev Logs := Assoc AggregateId (List RecordedEvent)

namespace Logs

/-- The log of an aggregate; one that was never written to is empty. -/
def log (l : Logs) (a : AggregateId) : List RecordedEvent := (l.get? a).getD []

def head (l : Logs) (a : AggregateId) : Revision := headRevision (l.log a)

def count (l : Logs) : Nat := l.entries.foldr (fun e n => e.2.length + n) 0

/-- The events that an append records. -/
def record (l : Logs) (a : AggregateId) (batch : List DomainEvent) (o : AppendOptions)
    (t : Timestamp) (draw : Nat → EventDraw) : Except StoreError (List RecordedEvent) := do
  (checkBatch batch).mapError StoreError.invalidAppend
  match o.expected with
  | some r =>
    if l.head a ≠ r then throw (.unexpectedRevision a r (l.head a))
  | none => pure ()
  match recordBatch a o.metadata t draw 0 (l.head a) batch with
  | some recorded => return recorded
  | none => throw (.transient .revisionsExhausted)

/-- The logs after recorded events went to the end of one. -/
def extend (l : Logs) (a : AggregateId) (recorded : List RecordedEvent) : Logs :=
  l.put a (l.log a ++ recorded)

/-- Appends a batch in one step. -/
def commit (l : Logs) (a : AggregateId) (batch : List DomainEvent) (o : AppendOptions)
    (t : Timestamp) (draw : Nat → EventDraw) : Except StoreError (List RecordedEvent) × Logs :=
  match l.record a batch o t draw with
  | .ok recorded => (.ok recorded, l.extend a recorded)
  | .error e => (.error e, l)

end Logs
end EventSourcing
