/-!
Retry policies.
An operation is tried up to a limit; between two attempts there is a wait. A limit beyond 31 is
refused, since waits double from one attempt to the next.
-/
namespace EventSourcing.Retry

def maxLimit : Nat := 31

/-- A limit on attempts, and the delay in milliseconds from which waits grow. -/
structure Policy where
  limit : Nat := 10
  delay : Nat := 100
  deriving DecidableEq, Repr, Inhabited

/-- A limit beyond the greatest that is allowed. -/
structure LimitTooHigh where
  limit : Nat
  deriving DecidableEq, Repr

def LimitTooHigh.message (e : LimitTooHigh) : String :=
  s!"retry limit {e.limit} exceeds the maximum of {maxLimit}"

namespace Policy

def validate (p : Policy) : Except LimitTooHigh Unit :=
  if maxLimit < p.limit then .error ⟨p.limit⟩ else .ok ()

/-- The number of attempts a policy stands for; there is always a first one. -/
def attempts (p : Policy) : Nat := max p.limit 1

end Policy

/-- What to do after an attempt that is not the last. -/
inductive Decision where
  | stop
  | retry
  | retryAfter (ms : Nat)
  deriving DecidableEq, Repr

def Decision.ofBool (again : Bool) : Decision := if again then .retry else .stop

end EventSourcing.Retry
