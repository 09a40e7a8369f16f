import EventSourcing.Event

/-!
The feed of appended events.
All subscribers share one feed, which keeps the latest events up to its capacity. A subscriber that
is further behind loses the oldest of those it has not seen, and is told how many.
-/
namespace EventSourcing

/-- The least power of two that is at least n, searched among `tries` powers. -/
def nextPowerOfTwo (n : Nat) : Nat → Nat → Nat
  | 0, p => p
  | tries + 1, p => if n ≤ p then p else nextPowerOfTwo n tries (p * 2)

structure Feed where
  /-- All events published so far, oldest first. -/
  published : List RecordedEvent := []
  capacity : Nat := 1024
  /-- Nothing will be published any more. -/
  closed : Bool := false

namespace Feed

/-- The greatest capacity; there is no room for a feed of more. -/
def maxCapacity : Nat := 36028797018963968

/-- A feed that keeps at least the given number of events, and at least one. -/
def ofCapacity (n : Nat) : Feed := { capacity := nextPowerOfTwo n 64 1 }

def publish (f : Feed) (e : RecordedEvent) : Feed := { f with published := f.published ++ [e] }

def publishAll (f : Feed) (es : List RecordedEvent) : Feed := es.foldl publish f

/-- The number of events that have left the feed. -/
def lost (f : Feed) : Nat := f.published.length - f.capacity

def close (f : Feed) : Feed := { f with closed := true }

end Feed

/-- What a subscriber finds when it looks at the feed. -/
inductive Delivery where
  | event (e : RecordedEvent)
  | lagged (count : Nat)
  /-- There is nothing yet. -/
  | pending
  | closed

/-- A subscriber: the stored events it has still to see, its place in the feed, and the aggregate
it is about, if it is about one. -/
structure Subscription where
  backlog : List RecordedEvent
  position : Nat
  aggregate : Option AggregateId
  lastSeen : Revision

namespace Subscription

/-- A subscription to all events published from now on. -/
def all (f : Feed) : Subscription := ⟨[], f.published.length, none, .initial⟩

/-- A subscription to the events of one aggregate after a revision. The place in the feed is taken
before the log is read, so that nothing is missed in between. -/
def after (a : AggregateId) (r : Revision) (log : List RecordedEvent) (position : Nat) :
    Subscription :=
  ⟨log.filter fun e => r < e.revision, position, some a, r⟩

/-- Whether an event of the feed is for this subscription and new to it. -/
def wants (s : Subscription) (e : RecordedEvent) : Bool :=
  match s.aggregate with
  | none => true
  | some a => e.aggregate = a && decide (s.lastSeen < e.revision)

/-- Marks an event as seen; without an aggregate revisions do not matter. -/
def see (s : Subscription) (e : RecordedEvent) : Subscription :=
  match s.aggregate with
  | none => s
  | some _ => { s with lastSeen := e.revision }

/-- The first event wanted among those not yet looked at. -/
def scan (closed : Bool) (s : Subscription) : List RecordedEvent → Delivery × Subscription
  | [] => (if closed then .closed else .pending, s)
  | e :: rest =>
    let s' := { s with position := s.position + 1 }
    if s.wants e then (.event e, s'.see e) else scan closed s' rest

def next (s : Subscription) (f : Feed) : Delivery × Subscription :=
  match s.backlog with
  | e :: rest => (.event e, { s with backlog := rest, lastSeen := e.revision })
  | [] =>
    if s.position < f.lost then (.lagged (f.lost - s.position), { s with position := f.lost })
    else scan f.closed s (f.published.drop s.position)

end Subscription
end EventSourcing
