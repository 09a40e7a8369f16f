import EventSourcing.Store.Log

/-!
The link between a process and its store.
Every call goes over the link, which counts it. A call may fail on its way, with or without having
reached the store, and other writers may append right after a load.
-/
namespace EventSourcing

/-- What happens to one call. The failure may name the aggregate of the call. -/
inductive CallFault where
  /-- The call does not reach the store. -/
  | refused (e : AggregateId → StoreError)
  /-- The call takes effect, but this is answered. -/
  | unanswered (e : AggregateId → StoreError)

structure Link where
  loads : Nat := 0
  appends : Nat := 0
  /-- The faults of the next loads, one for each; `none` lets the call through. -/
  loadFaults : List (Option CallFault) := []
  appendFaults : List (Option CallFault) := []
  /-- What others append after the next load. -/
  rivals : List (AggregateId × List DomainEvent) := []

namespace Link

/-- Counts a load and takes its fault. -/
def takeLoad (l : Link) : Option CallFault × Link :=
  (l.loadFaults.head?.join, { l with loads := l.loads + 1, loadFaults := l.loadFaults.tail })

/-- Counts an append and takes its fault. -/
def takeAppend (l : Link) : Option CallFault × Link :=
  (l.appendFaults.head?.join,
    { l with appends := l.appends + 1, appendFaults := l.appendFaults.tail })

end Link
end EventSourcing
