import EventSourcing.Decimal.Shortest

/-!
How decimal numbers are laid out.
Digits are written by position, with a point among them, or, where that would take too many zeros,
as one digit before the point and a power of ten.
-/
namespace EventSourcing.Decimal

/-- From which to below which power of ten the first digit is written by position, and what follows
a whole number. -/
structure Layout where
  lowest : Int
  highest : Int
  wholeEnd : String

/-- Data files write numbers from 10^-5 to below 10^16 by position and always keep a point. -/
def fileLayout : Layout := ⟨-5, 16, ".0"⟩

/-- Plain text writes all numbers by position, and whole ones without a point. -/
def plainLayout : Layout := ⟨-400, 400, ""⟩

def zeros (n : Nat) : String := String.ofList (List.replicate n '0')

namespace Layout

/-- Text of digits · 10^exponent without a sign. -/
def text (l : Layout) (s : Scientific) : String :=
  let ds := Nat.toDigits 10 s.digits
  let count := ds.length
  let lead : Int := s.exponent + count - 1
  if s.digits = 0 then "0" ++ l.wholeEnd
  else if l.lowest ≤ lead ∧ lead < l.highest then
    if lead < 0 then "0." ++ zeros (-lead - 1).toNat ++ String.ofList ds
    else
      let whole := lead.toNat + 1
      if count ≤ whole then String.ofList ds ++ zeros (whole - count) ++ l.wholeEnd
      else String.ofList (ds.take whole) ++ "." ++ String.ofList (ds.drop whole)
  else
    let tail := if count ≤ 1 then "" else "." ++ String.ofList (ds.drop 1)
    String.ofList (ds.take 1) ++ tail ++ (if lead < 0 then "e-" else "e+") ++ toString lead.natAbs

/-- Text of a number, where infinity has a name of its own. -/
def double (l : Layout) (x : Double) : String :=
  (if x.negative then "-" else "") ++
    (if x.magnitude = Double.infinite then "inf" else l.text x.shortest)

def float (l : Layout) (x : Float) : String := l.double (.ofFloat x)

end Layout
end EventSourcing.Decimal
