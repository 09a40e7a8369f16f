import EventSourcing.Ulid

/-!
Identifiers as 26 digits in base 32.
The digits are the decimal digits and the upper-case letters without I, L, O and U; reading accepts
either case. The digits carry 130 bits, of which the two highest are ignored.
-/
namespace EventSourcing.Ulid

inductive TextError where
  | length
  | character
  deriving DecidableEq, Repr

def TextError.message : TextError → String
  | .length => "invalid length"
  | .character => "invalid character"

def alphabet : List Char := "0123456789ABCDEFGHJKMNPQRSTVWXYZ".toList

def textLength : Nat := 26

def digitChar (d : Nat) : Char := alphabet.getD d '0'

def digitValue? (c : Char) : Option Nat := alphabet.idxOf? c.toUpper

/-- The low `count` digits of a number, highest first. -/
def digits : Nat → Nat → List Char
  | 0, _ => []
  | count + 1, n => digits count (n / 32) ++ [digitChar (n % 32)]

/-- The number that digits stand for, if all are digits. -/
def fromDigits? (acc : Nat) : List Char → Option Nat
  | [] => some acc
  | c :: rest =>
    match digitValue? c with
    | none => none
    | some d => fromDigits? (acc * 32 + d) rest

def text (u : Ulid) : String := String.ofList (digits textLength u.toNat)

/-- Reads an identifier. The length is that of the text in bytes. -/
def parse (s : String) : Except TextError Ulid :=
  if s.utf8ByteSize ≠ textLength then .error .length
  else match fromDigits? 0 s.toList with
    | none => .error .character
    | some n => .ok (ofNat n)

end EventSourcing.Ulid
