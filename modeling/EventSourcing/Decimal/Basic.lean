/-!
Decimal numbers and positive rationals.
-/
namespace EventSourcing.Decimal

/-- The number `digits` · 10^`exponent`. -/
structure Scientific where
  digits : Nat
  exponent : Int
  deriving DecidableEq, Repr

/-- Removes trailing zeros of the digits. -/
def Scientific.strip (fuel : Nat) (s : Scientific) : Scientific :=
  match fuel with
  | 0 => s
  | fuel + 1 =>
    if s.digits % 10 = 0 ∧ s.digits ≠ 0 then strip fuel ⟨s.digits / 10, s.exponent + 1⟩ else s

def digitCount (n : Nat) : Nat := (Nat.toDigits 10 n).length

/-- A positive rational as numerator and denominator. -/
structure Ratio where
  num : Nat
  den : Nat

namespace Ratio

/-- The rational times a power of ten. -/
def scale (r : Ratio) (e : Int) : Ratio :=
  if 0 ≤ e then ⟨r.num * Nat.pow 10 e.toNat, r.den⟩ else ⟨r.num, r.den * Nat.pow 10 (-e).toNat⟩

/-- The rational times a power of two. -/
def scaleBinary (r : Ratio) (e : Int) : Ratio :=
  if 0 ≤ e then ⟨r.num * Nat.pow 2 e.toNat, r.den⟩ else ⟨r.num, r.den * Nat.pow 2 (-e).toNat⟩

/-- The greatest e with 10^e at most the value. -/
def magnitude (r : Ratio) : Int :=
  if r.den ≤ r.num then (digitCount (r.num / r.den) : Int) - 1
  else
    let up := (r.den + r.num - 1) / r.num
    Int.neg (digitCount (up - 1))

/-- The nearest whole number; a half goes to the even neighbour. -/
def round (r : Ratio) : Nat :=
  let whole := r.num / r.den
  let rest := r.num % r.den
  if 2 * rest < r.den then whole
  else if r.den < 2 * rest then whole + 1
  else if whole % 2 = 0 then whole else whole + 1

end Ratio

def Scientific.ratio (s : Scientific) : Ratio := (Ratio.mk s.digits 1).scale s.exponent

end EventSourcing.Decimal
