import EventSourcing.Retry

/-!
Waits between attempts.
The base of a wait is half the delay, doubled with each attempt. The wait is the base and a random
part of at most the base, rounded up to whole milliseconds; so the windows of one attempt and the
next just touch.
-/
namespace EventSourcing.Retry

/-- The numbers in which waits are computed: binary fractions when running, and any exact numbers
where waits are reasoned about. -/
class WaitNumber (R : Type) where
  ofNat : Nat → R
  add : R → R → R
  mul : R → R → R
  half : R → R
  isPositive : R → Bool
  /-- Rounds up to a whole number and stops at the greatest of 64 bits. -/
  ceil : R → Nat

instance : WaitNumber Float where
  ofNat := Float.ofNat
  add := Float.add
  mul := Float.mul
  half x := x / 2
  isPositive x := 0 < x
  ceil x := x.ceil.toUInt64.toNat

variable {R : Type} [WaitNumber R]

/-- How often the delay is doubled before an attempt is repeated. -/
def doublings (attempt : Nat) : Nat := min (attempt - 1) maxLimit

def base (delay attempt : Nat) : R :=
  let factor := Nat.pow 2 (doublings attempt)
  WaitNumber.half (WaitNumber.mul (WaitNumber.ofNat delay) (WaitNumber.ofNat factor))

/-- The wait with the given base and random part. -/
def waitOf (b jitter : R) : Nat := WaitNumber.ceil (WaitNumber.add b jitter)

/-- The wait after an attempt in milliseconds, where the random part is the given share of the
base. Nothing is drawn where the base is zero. -/
def backoff (delay attempt : Nat) (share : R) : Nat :=
  let b : R := base delay attempt
  waitOf b (if WaitNumber.isPositive b then WaitNumber.mul b share else WaitNumber.ofNat 0)

/-- Whether the wait after an attempt has a random part. -/
def drawsJitter (R : Type) [WaitNumber R] (delay attempt : Nat) : Bool :=
  WaitNumber.isPositive (base delay attempt : R)

end EventSourcing.Retry
