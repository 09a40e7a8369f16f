import EventSourcing.Json.Decode
import EventSourcing.Json.Reader

/-!
Documents that hold one whole number.
The failure names what stands in its place, and the line and column at which that was noticed.
-/
namespace EventSourcing.Json

/-- Why a text is no document of the wanted kind. -/
inductive DocumentFault where
  | text (fault : TextFault)
  | value (error : DecodeError)
  deriving DecidableEq

def DocumentFault.message : DocumentFault → String
  | .text fault => fault.message
  | .value error => error.message

structure DocumentError where
  fault : DocumentFault
  line : Nat
  column : Nat
  deriving DecidableEq

def DocumentError.message (e : DocumentError) : String :=
  s!"{e.fault.message} at line {e.line} column {e.column}"

/-- Reads a whole number. A list or an object is refused at its first character. -/
def integerAt (c : Cursor) : Except (DocumentFault × Nat) (Int × Cursor) :=
  let lift {α : Type} (r : Except (TextFault × Nat) α) : Except (DocumentFault × Nat) α :=
    r.mapError fun (f, i) => (.text f, i)
  let refuse (found : Found) (c : Cursor) : Except (DocumentFault × Nat) (Int × Cursor) :=
    .error (.value (.wrongKind found "i64"), c.index)
  match c.rest with
  | [] => .error (.text .endInValue, c.index)
  | x :: _ =>
    if x = '-' ∨ x.isDigit then do
      let (j, c) ← lift (numeral c)
      match Decoder.int64 j with
      | .ok n => .ok (n, c)
      | .error e => .error (.value e, c.index)
    else if x = 'n' then do refuse .null (← lift (word "ull".toList c.advance))
    else if x = 't' then do refuse (.bool true) (← lift (word "rue".toList c.advance))
    else if x = 'f' then do refuse (.bool false) (← lift (word "alse".toList c.advance))
    else if x = '\"' then do
      let (s, c) ← lift (string c.advance)
      refuse (.str s) c
    else if x = '[' then refuse .sequence c
    else if x = '\x7b' then refuse .map c
    else .error (.text .expectedValue, c.index + 1)

/-- Reads a document that holds one whole number of 64 bits. -/
def integerDocument (s : String) : Except DocumentError Int :=
  let cs := s.toList
  let result := do
    let (n, c) ← integerAt (skipBlanksFrom cs 0)
    (finish c).mapError fun (f, i) => (DocumentFault.text f, i)
    return n
  result.mapError fun (fault, i) =>
    let (line, column) := position cs i 1 0
    ⟨fault, line, column⟩

end EventSourcing.Json
