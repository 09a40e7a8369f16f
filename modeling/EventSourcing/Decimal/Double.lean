import EventSourcing.Decimal.Basic
import EventSourcing.Word

/-!
Binary fractions of 64 bits.
Such a number has a sign and a magnitude. The magnitudes are numbered in order: zero, the fractions
m · 2^q, and infinity.
-/
namespace EventSourcing.Decimal

/-- A binary fraction or an infinity, by its sign and the number of its magnitude. -/
structure Double where
  negative : Bool
  magnitude : Nat
  deriving DecidableEq, Repr

namespace Double

/-- The number of the infinite magnitude. -/
def infinite : Nat := 2047 * Word.count 52

/-- The m and q of a finite magnitude m · 2^q. -/
def parts (x : Double) : Nat × Int :=
  let exponent := x.magnitude / Word.count 52
  let fraction := x.magnitude % Word.count 52
  (if exponent = 0 then fraction else fraction + Word.count 52, (max exponent 1 : Nat) - 1075)

def ofFloat (x : Float) : Double :=
  let bits := x.toBits.toNat
  ⟨bits / Word.count 63 = 1, bits % Word.count 63⟩

/-- The greatest e with 2^e at most a positive rational, or one less. -/
def binaryMagnitude (r : Ratio) : Int := (Nat.log2 r.num : Int) - Nat.log2 r.den - 1

/-- The magnitude nearest to a positive rational; a half goes to the even neighbour. It is cut to 53
bits, or fewer where it is very small; rounding up to the next power of two, or to infinity, is the
next number. -/
def nearestMagnitude (r : Ratio) : Nat :=
  let q := max (binaryMagnitude r - 52) (-1074)
  let r' := r.scaleBinary (-q)
  let q := if Word.count 53 ≤ r'.num / r'.den then q + 1 else q
  min infinite ((q + 1074).toNat * Word.count 52 + (r.scaleBinary (-q)).round)

/-- The number nearest to a decimal. Decimals far out of range are not computed. -/
def nearest (negative : Bool) (s : Scientific) : Double :=
  let top := s.exponent + digitCount s.digits
  ⟨negative,
    if s.digits = 0 ∨ top < -330 then 0
    else if 310 < top then infinite
    else nearestMagnitude s.ratio⟩

/-- A number that orders numbers by value; the two zeros are equal. -/
def place (x : Double) : Int := if x.negative then -(x.magnitude : Int) else x.magnitude

end Double
end EventSourcing.Decimal
