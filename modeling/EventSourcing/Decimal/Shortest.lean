import EventSourcing.Decimal.Double

/-!
The shortest decimal that reads back as a given binary fraction.
A value m · 2^q owns the interval of reals that round to it; its ends belong to it exactly when m
is even. Among the decimals of 1, 2, … digits, the first grid with a point in the interval wins,
and of two such points the nearer, then the even one.
-/
namespace EventSourcing.Decimal

/-- A binary fraction m · 2^q with the halves of its interval, in quarters of 2^q. -/
structure Interval where
  below : Nat
  value : Nat
  above : Nat
  closed : Bool
  exponent : Int

/-- The interval of the double m · 2^q. At a power of two the gap below is half as wide. -/
def Interval.ofDouble (m : Nat) (q : Int) : Interval where
  below := if m = Word.count 52 ∧ -1074 < q then 4 * m - 1 else 4 * m - 2
  value := 4 * m
  above := 4 * m + 2
  closed := m % 2 = 0
  exponent := q - 2

namespace Interval

def ratio (i : Interval) (quarters : Nat) : Ratio := (Ratio.mk quarters 1).scaleBinary i.exponent

/-- Whether the grid point d · 10^e rounds to the value. -/
def owns (i : Interval) (d : Nat) (e : Int) : Bool :=
  let low := (i.ratio i.below).scale (-e)
  let high := (i.ratio i.above).scale (-e)
  if i.closed then low.num ≤ d * low.den && d * high.den ≤ high.num
  else low.num < d * low.den && d * high.den < high.num

/-- The best point of the grid of spacing 10^e, if one rounds to the value. -/
def pick? (i : Interval) (e : Int) : Option Nat :=
  let v := (i.ratio i.value).scale (-e)
  let d := v.num / v.den
  let rest := v.num % v.den
  match i.owns d e && d ≠ 0, i.owns (d + 1) e with
  | true, true =>
    if 2 * rest < v.den then some d
    else if v.den < 2 * rest then some (d + 1)
    else if d % 2 = 0 then some d else some (d + 1)
  | true, false => some d
  | false, true => some (d + 1)
  | false, false => none

end Interval

/-- Tries grids of one more digit each, `tries` times. -/
def shortestFrom (i : Interval) : Nat → Int → Scientific
  | 0, e => ⟨((i.ratio i.value).scale (-e)).num / ((i.ratio i.value).scale (-e)).den, e⟩
  | tries + 1, e =>
    match i.pick? e with
    | some d => ⟨d, e⟩
    | none => shortestFrom i tries (e - 1)

def shortest (m : Nat) (q : Int) : Scientific :=
  if m = 0 then ⟨0, 0⟩
  else
    let i := Interval.ofDouble m q
    (shortestFrom i 17 (i.ratio i.value).magnitude).strip 20

/-- The shortest decimal of a finite number, without its sign. -/
def Double.shortest (x : Double) : Scientific := Decimal.shortest x.parts.1 x.parts.2

end EventSourcing.Decimal
