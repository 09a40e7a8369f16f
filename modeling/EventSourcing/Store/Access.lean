import EventSourcing.Retry.Loop

/-!
Access to the store.
A writer loads logs and appends to them through an access: one that calls the store directly, or
one that calls again where a fault may pass. Conflicts are never tried again, since that would
repeat a decision made on an old state.
-/
namespace EventSourcing

structure StoreAccess where
  load : AggregateId → Activity (Except StoreError (List RecordedEvent))
  append : AggregateId → List DomainEvent → AppendOptions → Activity (Except StoreError Revision)

namespace StoreAccess

def direct : StoreAccess where
  load a := .load a .done
  append a batch o := .append a batch o .done

/-- Only a transient fault is tried again. -/
def judge {α : Type} (_ : Nat) : Except StoreError α → Activity Retry.Decision
  | .error e => .done (Retry.Decision.ofBool e.isTransient)
  | .ok _ => .done .stop

def retrying (p : Retry.Policy) (s : StoreAccess) : StoreAccess where
  load a := Retry.attempts p (fun _ => s.load a) judge
  append a batch o := Retry.attempts p (fun _ => s.append a batch o) judge

/-- The access that retries under a policy, unless the policy is refused. -/
def retrying? (p : Retry.Policy) (s : StoreAccess) : Except Retry.LimitTooHigh StoreAccess := do
  p.validate
  return s.retrying p

/-- The head of a log. -/
def latest (s : StoreAccess) (a : AggregateId) : Activity (Except StoreError Revision) := do
  return (← s.load a).map headRevision

def holdsEvents (s : StoreAccess) (a : AggregateId) : Activity (Except StoreError Bool) := do
  return (← s.latest a).map fun r => !r.isInitial

end StoreAccess
end EventSourcing
