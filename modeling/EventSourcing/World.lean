import EventSourcing.Metrics
import EventSourcing.Note
import EventSourcing.Store.Feed
import EventSourcing.Store.Link

/-!
The world that work acts on.
It holds the store and the link to it, the clock and the random numbers that identifiers are drawn
from, the random shares of waits, the metrics and notes, and the time that has passed.
-/
namespace EventSourcing

/-- What the wall clock and the source of random bits show at one moment. -/
structure Reading where
  millis : Nat
  entropy : Nat
  deriving DecidableEq

namespace Reading

def ulid (r : Reading) : Ulid := Ulid.ofParts r.millis r.entropy

def timestamp (r : Reading) : Timestamp := .ofMillis r.millis

end Reading

structure Store where
  logs : Logs := ∅
  feed : Feed := {}

structure World where
  store : Store := {}
  link : Link := {}
  /-- The readings still to come, by number. -/
  readings : Nat → Reading
  taken : Nat := 0
  /-- The shares of waits that are drawn at random, by number. -/
  shares : Nat → Float
  sharesTaken : Nat := 0
  metrics : Metrics := {}
  /-- Notes with the time at which they were left, latest first. -/
  notes : List (Nat × Note) := []
  now : Nat := 0

namespace World

def log (w : World) (a : AggregateId) : List RecordedEvent := w.store.logs.log a

def read (w : World) : Reading := w.readings w.taken

/-- Draws a fresh identifier. -/
def draw (w : World) : Ulid × World := (w.read.ulid, { w with taken := w.taken + 1 })

/-- Draws the random share of a wait. -/
def share (w : World) : Float × World :=
  (w.shares w.sharesTaken, { w with sharesTaken := w.sharesTaken + 1 })

def count (w : World) (k : Metric) : World := { w with metrics := w.metrics.count k }

def gauge (w : World) (k : Metric) (n : Nat) : World := { w with metrics := w.metrics.set k n }

def note (w : World) (n : Note) : World := { w with notes := (w.now, n) :: w.notes }

/-- The identifiers that the events of the next append will draw. -/
def draws (w : World) (i : Nat) : EventDraw :=
  ⟨(w.readings (w.taken + 1 + 2 * i)).ulid, (w.readings (w.taken + 2 + 2 * i)).ulid⟩

/-- Appends at the store: reads the clock once for the time of the batch and then twice for each
event, and publishes what was recorded. -/
def commit (w : World) (a : AggregateId) (batch : List DomainEvent) (o : AppendOptions) :
    Except StoreError Revision × World :=
  match w.store.logs.commit a batch o w.read.timestamp w.draws with
  | (.ok recorded, logs) =>
    let w := { w with
      store := { logs, feed := w.store.feed.publishAll recorded }
      taken := w.taken + 1 + 2 * recorded.length }
    (.ok (headRevision recorded), w.count .appends)
  | (.error e, _) =>
    (.error e, match e with
      | .unexpectedRevision _ _ _ => w.count .conflicts
      | _ => w)

/-- Forgets all events; what was published stays published. -/
def clear (w : World) : World := { w with store.logs := ∅ }

/-- Lets the clock and the source of random bits show something else from now on. -/
def turn (w : World) (readings : Nat → Reading) : World := { w with readings }

/-- Appends batches of others, one after the other, as long as none fails. -/
def commitAll (w : World) : List (AggregateId × List DomainEvent) → Except StoreError Unit × World
  | [] => (.ok (), w)
  | (a, batch) :: rest =>
    match w.commit a batch {} with
    | (.ok _, w) => w.commitAll rest
    | (.error e, w) => (.error e, w)

/-- Appends what others have waited to append. -/
def letRivalsIn (w : World) : Except StoreError Unit × World :=
  { w with link.rivals := [] }.commitAll w.link.rivals

/-- Loads a log over the link, as it is before others write. What they fail of is met by the load
too. -/
def load (w : World) (a : AggregateId) : Except StoreError (List RecordedEvent) × World :=
  let (fault, link) := w.link.takeLoad
  let w := { w with link }
  match fault with
  | some (.refused e) => (.error (e a), w)
  | some (.unanswered e) => (.error (e a), w.letRivalsIn.2)
  | none => (w.letRivalsIn.1.map fun _ => w.log a, w.letRivalsIn.2)

/-- Appends over the link. -/
def append (w : World) (a : AggregateId) (batch : List DomainEvent) (o : AppendOptions) :
    Except StoreError Revision × World :=
  let (fault, link) := w.link.takeAppend
  let w := { w with link }
  match fault with
  | some (.refused e) => (.error (e a), w)
  | some (.unanswered e) =>
    match w.commit a batch o with
    | (.ok _, w) => (.error (e a), w)
    | (.error e', w) => (.error e', w)
  | none => w.commit a batch o

end World
end EventSourcing
