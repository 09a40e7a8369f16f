import EventSourcing.Aggregate
import EventSourcing.Revision

/-!
Events.
A domain event says what happened; once it is in a log it is recorded, with its identity, its
revision, the time, and the ids of the request and of the step that caused it.
-/
namespace EventSourcing

structure DomainEvent where
  type : String
  data : Json
  deriving Inhabited

namespace DomainEvent

def toJson (e : DomainEvent) : Json := Json.object [("type", .str e.type), ("data", e.data)]

def decode : Decoder DomainEvent :=
  .record "DomainEvent" <|
    mk <$> .required "type" .text <*> .required "data" .json

end DomainEvent

/-- The request an event belongs to, and what directly led to it. -/
structure Metadata where
  correlation : Option String := none
  causation : Option String := none
  deriving DecidableEq, Inhabited

namespace Metadata

/-- Ids that are absent are left out. -/
def toJson (m : Metadata) : Json :=
  Json.object <|
    (m.correlation.map fun s => ("correlation_id", Json.str s)).toList ++
    (m.causation.map fun s => ("causation_id", Json.str s)).toList

def decode : Decoder Metadata :=
  .record "EventMetadata" <|
    mk <$> .withDefault "correlation_id" (.optional .text) none
      <*> .withDefault "causation_id" (.optional .text) none

end Metadata

structure RecordedEvent where
  id : EventId
  aggregate : AggregateId
  type : String
  data : Json
  revision : Revision
  timestamp : Timestamp
  metadata : Metadata
  deriving Inhabited

namespace RecordedEvent

def toDomain (e : RecordedEvent) : DomainEvent := ⟨e.type, e.data⟩

def toJson (e : RecordedEvent) : Json :=
  Json.object [
    ("id", e.id.toJson), ("aggregate", e.aggregate.toJson), ("type", .str e.type),
    ("data", e.data), ("revision", e.revision.toJson), ("timestamp", .str e.timestamp.text),
    ("metadata", e.metadata.toJson)]

def decode : Decoder RecordedEvent :=
  .record "RecordedEvent" <|
    mk <$> .required "id" EventId.decode
      <*> .required "aggregate" AggregateId.decode
      <*> .required "type" .text
      <*> .required "data" .json
      <*> .required "revision" Revision.decode
      <*> .required "timestamp" .timestamp
      <*> .withDefault "metadata" Metadata.decode {}

end RecordedEvent

/-- An event about to be recorded by hand. Identity and time may be left open. -/
structure EventDraft where
  id : Option EventId := none
  aggregate : Option AggregateId := none
  type : Option String := none
  data : Option Json := none
  revision : Option Revision := none
  timestamp : Option Timestamp := none
  metadata : Metadata := {}

/-- The event of a draft that lacks nothing, with a fresh identity and the current time where these
were left open. -/
def EventDraft.build? (d : EventDraft) (fresh : Ulid) (now : Timestamp) : Option RecordedEvent := do
  return {
    id := d.id.getD ⟨fresh⟩
    aggregate := ← d.aggregate
    type := ← d.type
    data := ← d.data
    revision := ← d.revision
    timestamp := d.timestamp.getD now
    metadata := d.metadata }

/-- The last revision of a log. -/
def headRevision (log : List RecordedEvent) : Revision :=
  (log.getLast?.map RecordedEvent.revision).getD .initial

end EventSourcing
