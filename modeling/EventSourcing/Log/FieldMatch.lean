import EventSourcing.Decimal.Layout
import EventSourcing.Log.Pattern
import EventSourcing.Word

/-!
What a directive asks of a field.
A field is named, and may have to have a value: a truth value, a number, or one that matches a
pattern. Numbers are written back in one form, whatever form they were read in.
-/
namespace EventSourcing.Log

/-- A value that a field must have. -/
inductive FieldValue where
  | bool (b : Bool)
  | float (x : Decimal.Double)
  | nan
  | unsigned (n : Nat)
  | signed (n : Int)
  | pattern (cs : List Char)
  deriving DecidableEq

namespace FieldValue

def digits? (cs : List Char) : Option Nat :=
  if cs ≠ [] ∧ cs.all Char.isDigit then
    some (cs.foldl (fun n c => n * 10 + (c.toNat - 48)) 0)
  else none

/-- A sign, if there is one, and what follows it. -/
def sign : List Char → Option Bool × List Char
  | '+' :: rest => (some false, rest)
  | '-' :: rest => (some true, rest)
  | rest => (none, rest)

/-- A whole number of at most 64 bits; one with a minus sign is signed. -/
def whole? (cs : List Char) : Option FieldValue :=
  let (s, ds) := sign cs
  match digits? ds with
  | none => none
  | some n =>
    if s = some true then if n ≤ Word.count 63 then some (.signed (-n)) else none
    else if n < Word.count 64 then some (.unsigned n) else none

/-- A decimal number without a sign: digits with a point before, among or after them, and perhaps a
power of ten. -/
def scientific? (cs : List Char) : Option Decimal.Scientific :=
  let before := cs.takeWhile Char.isDigit
  let (after, rest) := match cs.dropWhile Char.isDigit with
    | '.' :: rest => (rest.takeWhile Char.isDigit, rest.dropWhile Char.isDigit)
    | rest => ([], rest)
  let power : Option Int := match rest with
    | [] => some 0
    | e :: rest =>
      let (s, ds) := sign rest
      if e = 'e' ∨ e = 'E' then
        (digits? ds).map fun n => if s = some true then -(n : Int) else n
      else none
  match digits? (before ++ after), power with
  | some n, some p => some ⟨n, p - after.length⟩
  | _, _ => none

/-- A number of any size or kind. -/
def float? (cs : List Char) : Option FieldValue :=
  let (s, rest) := sign cs
  let negative := s = some true
  let name := String.ofList (rest.map Char.toLower)
  if name = "nan" then some .nan
  else if name = "inf" ∨ name = "infinity" then some (.float ⟨negative, Decimal.Double.infinite⟩)
  else (scientific? rest).map fun d => .float (.nearest negative d)

def bool? (cs : List Char) : Option FieldValue :=
  if cs = "true".toList then some (.bool true)
  else if cs = "false".toList then some (.bool false)
  else none

/-- A value that is neither a truth value nor a number is a pattern, if it is one. -/
def read? (cs : List Char) : Option FieldValue :=
  (bool? cs).or ((whole? cs).or ((float? cs).or
    (if Pattern.isAdmitted cs then some (.pattern cs) else none)))

def text : FieldValue → List Char
  | .bool b => (if b then "true" else "false").toList
  | .float x => (Decimal.plainLayout.double x).toList
  | .nan => "NaN".toList
  | .unsigned n => (toString n).toList
  | .signed n => (toString n).toList
  | .pattern cs => cs

/-- The codes of a text, so that texts are in order when their codes are. -/
def codes (cs : List Char) : List Int := cs.map (fun c => (c.toNat : Int) + 1) ++ [0]

/-- The place of a value among others: first by its kind, then by itself. -/
def key : FieldValue → List Int
  | .bool b => [0, if b then 1 else 0]
  | .float x => [1, x.place]
  | .nan => [2]
  | .unsigned n => [3, n]
  | .signed n => [4, n]
  | .pattern cs => 5 :: codes cs

end FieldValue

/-- A field, with the value it must have if one is given. -/
structure FieldMatch where
  name : List Char
  value : Option FieldValue
  deriving DecidableEq

namespace FieldMatch

/-- Reads a field with its value. What follows a second equals sign is ignored. -/
def read? (cs : List Char) : Option FieldMatch :=
  match cs.dropWhile (· ≠ '=') with
  | [] => some ⟨cs, none⟩
  | _ :: rest =>
    (FieldValue.read? (rest.takeWhile (· ≠ '='))).map fun v => ⟨cs.takeWhile (· ≠ '='), some v⟩

def text (m : FieldMatch) : List Char :=
  match m.value with
  | none => m.name
  | some v => m.name ++ '=' :: v.text

/-- The place of a field among others: those with a value are more specific, then names and values
decide. -/
def key (m : FieldMatch) : List Int :=
  (if m.value.isSome then 1 else 0) :: FieldValue.codes m.name ++
    (match m.value with
    | none => []
    | some v => v.key)

end FieldMatch
end EventSourcing.Log
