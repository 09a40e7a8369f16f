import EventSourcing.Json.Basic
import EventSourcing.Word

/-!
Number literals.
A literal without fraction and exponent that fits a signed or unsigned 64-bit word is a whole
number; any other literal, and `-0`, is a binary fraction. A fraction is read from at most 64 bits
of digits: digits that no longer fit are dropped, those before the point by raising the exponent,
and what is left is scaled once by a power of ten.
-/
namespace EventSourcing.Json

/-- Why a text is no document. -/
inductive TextFault where
  | endInValue
  | endInString
  | badNumber
  | numberTooLarge
  | expectedValue
  | expectedWord
  | trailingText
  | controlInString
  | badEscape
  | loneSurrogate
  | brokenSurrogate
  deriving DecidableEq, Repr

def TextFault.message : TextFault → String
  | .endInValue => "EOF while parsing a value"
  | .endInString => "EOF while parsing a string"
  | .badNumber => "invalid number"
  | .numberTooLarge => "number out of range"
  | .expectedValue => "expected value"
  | .expectedWord => "expected ident"
  | .trailingText => "trailing characters"
  | .controlInString => "control character (\\u0000-\\u001F) found while parsing a string"
  | .badEscape => "invalid escape"
  | .loneSurrogate => "lone leading surrogate in hex escape"
  | .brokenSurrogate => "unexpected end of hex escape"

/-- What is left of a text, and how many bytes of it have been read. -/
structure Cursor where
  rest : List Char
  index : Nat

/-- Reads some of a text; a failure names the byte at which it was noticed. -/
abbrev Scan (α : Type) := Except (TextFault × Nat) (α × Cursor)

def digit? (c : Char) : Option Nat := if c.isDigit then some (c.toNat - 48) else none

/-- The digits read so far: their value within 64 bits and the power of ten they stand for. -/
structure Significand where
  value : Nat
  exponent : Int
  deriving Repr

namespace Numeral

/-- Digits before the point. Once a digit does not fit, it and all later ones raise the exponent. -/
def whole (s : Significand) (full : Bool) : List Char → Nat → Significand × Bool × Cursor
  | [], i => (s, full, ⟨[], i⟩)
  | c :: rest, i =>
    match digit? c with
    | none => (s, full, ⟨c :: rest, i⟩)
    | some d =>
      if full || Word.count 64 ≤ s.value * 10 + d then
        whole ⟨s.value, s.exponent + 1⟩ true rest (i + 1)
      else whole ⟨s.value * 10 + d, s.exponent⟩ false rest (i + 1)

/-- Digits after the point. From the first that does not fit, all are dropped. -/
def fraction (s : Significand) (full : Bool) : List Char → Nat → Significand × Cursor
  | [], i => (s, ⟨[], i⟩)
  | c :: rest, i =>
    match digit? c with
    | none => (s, ⟨c :: rest, i⟩)
    | some d =>
      if full || Word.count 64 ≤ s.value * 10 + d then fraction s true rest (i + 1)
      else fraction ⟨s.value * 10 + d, s.exponent - 1⟩ false rest (i + 1)

/-- Digits of an exponent. One that leaves 31 bits makes the number too large, or zero. -/
def power (negative zero : Bool) (acc : Nat) : List Char → Nat → Scan Nat
  | [], i => .ok (acc, ⟨[], i⟩)
  | c :: rest, i =>
    match digit? c with
    | none => .ok (acc, ⟨c :: rest, i⟩)
    | some d =>
      if acc * 10 + d < Word.count 31 then power negative zero (acc * 10 + d) rest (i + 1)
      else if !negative && !zero then .error (.numberTooLarge, i + 1)
      else power negative zero (Word.count 31 - 1) rest (i + 1)

/-- Multiplies or divides by a power of ten; very small powers take several divisions. -/
def scale (x : Float) : Nat → Int → Float
  | 0, _ => x
  | fuel + 1, e =>
    if e.natAbs ≤ 308 then
      if 0 ≤ e then x * Float.ofScientific 1 false e.natAbs
      else x / Float.ofScientific 1 false e.natAbs
    else if x == 0 then x
    else if 0 ≤ e then x / 0
    else scale (x / Float.ofScientific 1 false 308) fuel (e + 308)

/-- The nearest value of the digits, or a failure where it is infinite. -/
def toFloat (negative : Bool) (s : Significand) (index : Nat) : Except (TextFault × Nat) Float :=
  let x := scale (Float.ofNat s.value) 8 s.exponent
  if x.isInf then .error (.numberTooLarge, index)
  else .ok (if negative then -x else x)

def toJson (negative : Bool) (n : Nat) : Json :=
  if !negative then .int n
  else if n = 0 ∨ Word.count 63 < n then .float (-(Float.ofNat n))
  else .int (-(n : Int))

/-- A literal as far as it is read: its digits, and whether it is still a whole number. -/
structure Parts where
  digits : Significand
  plain : Bool
  cursor : Cursor

/-- The point and the digits after it, if there is a point. -/
def withFraction (s : Significand) (full : Bool) (c : Cursor) :
    Except (TextFault × Nat) Parts :=
  match c.rest with
  | '.' :: after =>
    let (s', c') := fraction s false after (c.index + 1)
    if c'.index = c.index + 1 then
      if c'.rest.isEmpty then .error (.endInValue, c'.index) else .error (.badNumber, c'.index + 1)
    else .ok ⟨s', false, c'⟩
  | _ => .ok ⟨s, !full, c⟩

/-- The exponent, after its letter. -/
def withPower (negative : Bool) (s : Significand) (after : List Char) (index : Nat) :
    Except (TextFault × Nat) (Json × Cursor) :=
  let (below, digits, i) := match after with
    | '+' :: ds => (false, ds, index + 1)
    | '-' :: ds => (true, ds, index + 1)
    | ds => (false, ds, index)
  match digits with
  | [] => .error (.endInValue, i)
  | d :: _ =>
    if d.isDigit then do
      let (p, c) ← power below (s.value = 0) 0 digits i
      let x ← toFloat negative ⟨s.value, if below then s.exponent - p else s.exponent + p⟩ c.index
      return (.float x, c)
    else .error (.badNumber, i + 1)

/-- The value of a literal that has no exponent. -/
def close (negative : Bool) (p : Parts) : Except (TextFault × Nat) (Json × Cursor) :=
  if p.plain then .ok (toJson negative p.digits.value, p.cursor)
  else do
    let x ← toFloat negative p.digits p.cursor.index
    return (.float x, p.cursor)

/-- The part of a literal after its digits before the point. -/
def tail (negative : Bool) (s : Significand) (full : Bool) (c : Cursor) :
    Except (TextFault × Nat) (Json × Cursor) := do
  let p ← withFraction s full c
  match p.cursor.rest with
  | e :: after =>
    if e = 'e' ∨ e = 'E' then withPower negative p.digits after (p.cursor.index + 1)
    else close negative p
  | [] => close negative p

/-- A literal after its sign. -/
def unsigned (negative : Bool) (c : Cursor) : Scan Json :=
  match c.rest with
  | [] => .error (.endInValue, c.index)
  | '0' :: d :: rest =>
    if d.isDigit then .error (.badNumber, c.index + 2)
    else tail negative ⟨0, 0⟩ false ⟨d :: rest, c.index + 1⟩
  | d :: rest =>
    if d.isDigit then
      let (s, full, c') := whole ⟨0, 0⟩ false (d :: rest) c.index
      tail negative s full c'
    else .error (.badNumber, c.index + 1)

end Numeral

/-- Reads a number literal. -/
def numeral (c : Cursor) : Scan Json :=
  match c.rest with
  | '-' :: rest => Numeral.unsigned true ⟨rest, c.index + 1⟩
  | _ => Numeral.unsigned false c

end EventSourcing.Json
