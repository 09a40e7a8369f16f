import EventSourcing.Json.Numeral
import EventSourcing.Text.Bytes

/-!
Documents.
A document is one value with blanks around it. A failure carries the line and the column, counted
in bytes, at which it was noticed.
-/
namespace EventSourcing.Json

def isDocumentBlank (c : Char) : Bool := c = ' ' || c = '\n' || c = '\t' || c = '\r'

def Cursor.advance (c : Cursor) : Cursor :=
  match c.rest with
  | [] => c
  | x :: rest => ⟨rest, c.index + x.utf8Size⟩

def skipBlanksFrom : List Char → Nat → Cursor
  | [], i => ⟨[], i⟩
  | c :: rest, i => if isDocumentBlank c then skipBlanksFrom rest (i + 1) else ⟨c :: rest, i⟩

def Cursor.skipBlanks (c : Cursor) : Cursor := skipBlanksFrom c.rest c.index

/-- Reads the rest of a word whose first letter has been read. -/
def word : List Char → Cursor → Except (TextFault × Nat) Cursor
  | [], c => .ok c
  | w :: ws, c =>
    match c.rest with
    | [] => .error (.endInValue, c.index)
    | x :: _ => if x = w then word ws c.advance else .error (.expectedWord, c.index + 1)

def hexDigit? (c : Char) : Option Nat :=
  if c.isDigit then some (c.toNat - 48)
  else if 'a' ≤ c ∧ c ≤ 'f' then some (c.toNat - 87)
  else if 'A' ≤ c ∧ c ≤ 'F' then some (c.toNat - 55)
  else none

/-- The value of four digits in base sixteen. Four bytes are read whether they are digits or not. -/
def hexWord (c : Cursor) : Except (TextFault × Nat) (Nat × Cursor) :=
  match c.rest with
  | x₁ :: x₂ :: x₃ :: x₄ :: rest =>
    match hexDigit? x₁, hexDigit? x₂, hexDigit? x₃, hexDigit? x₄ with
    | some a, some b, some d, some e =>
      .ok (((a * 16 + b) * 16 + d) * 16 + e, ⟨rest, c.index + 4⟩)
    | _, _, _, _ => .error (.badEscape, c.index + 4)
  | rest =>
    let left := Text.byteCount rest
    if 4 ≤ left then .error (.badEscape, c.index + 4) else .error (.endInString, c.index + left)

/-- Reads one expected character of a surrogate pair. -/
def pairMark (mark : Char) (c : Cursor) : Except (TextFault × Nat) Cursor :=
  match c.rest with
  | [] => .error (.endInString, c.index)
  | x :: _ => if x = mark then .ok c.advance else .error (.brokenSurrogate, c.index + 1)

/-- The character of a numbered escape. Characters beyond 16 bits take two of them. -/
def numberedEscape (c : Cursor) : Except (TextFault × Nat) (Char × Cursor) := do
  let (n, c) ← hexWord c
  if 0xDC00 ≤ n ∧ n ≤ 0xDFFF then .error (.loneSurrogate, c.index)
  else if n < 0xD800 ∨ 0xDBFF < n then .ok (Char.ofNat n, c)
  else do
    let c ← pairMark '\\' c
    let c ← pairMark 'u' c
    let (n', c) ← hexWord c
    if n' < 0xDC00 ∨ 0xDFFF < n' then .error (.loneSurrogate, c.index)
    else .ok (Char.ofNat (0x10000 + (n - 0xD800) * 0x400 + (n' - 0xDC00)), c)

/-- The character of an escape, after its backslash. -/
def escaped (c : Cursor) : Except (TextFault × Nat) (Char × Cursor) :=
  match c.rest with
  | [] => .error (.endInString, c.index)
  | x :: _ =>
    let next := c.advance
    if x = '\"' ∨ x = '\\' ∨ x = '/' then .ok (x, next)
    else if x = 'b' then .ok ('\x08', next)
    else if x = 'f' then .ok ('\x0c', next)
    else if x = 'n' then .ok ('\n', next)
    else if x = 'r' then .ok ('\r', next)
    else if x = 't' then .ok ('\t', next)
    else if x = 'u' then numberedEscape next
    else .error (.badEscape, c.index + 1)

/-- The characters of a string up to its closing quote; `acc` holds those read, latest first. -/
def stringBody : Nat → List Char → Cursor → Except (TextFault × Nat) (String × Cursor)
  | 0, _, c => .error (.endInString, c.index)
  | fuel + 1, acc, c =>
    match c.rest with
    | [] => .error (.endInString, c.index)
    | x :: _ =>
      if x = '\"' then .ok (String.ofList acc.reverse, c.advance)
      else if x = '\\' then do
        let (y, c') ← escaped c.advance
        stringBody fuel (y :: acc) c'
      else if x.toNat < 0x20 then .error (.controlInString, c.index + 1)
      else stringBody fuel (x :: acc) c.advance

/-- A string after its opening quote. -/
def string (c : Cursor) : Except (TextFault × Nat) (String × Cursor) :=
  stringBody (c.rest.length + 1) [] c

def expect (mark : Char) (c : Cursor) : Except (TextFault × Nat) Cursor :=
  match c.rest with
  | [] => .error (.endInValue, c.index)
  | x :: _ => if x = mark then .ok c.advance else .error (.expectedValue, c.index + 1)

mutual

/-- One value, with blanks before it. The first argument bounds the nesting and the length. -/
def value (fuel : Nat) (c : Cursor) : Except (TextFault × Nat) (Json × Cursor) :=
  match fuel with
  | 0 => .error (.expectedValue, c.index)
  | fuel + 1 =>
    let c := c.skipBlanks
    match c.rest with
    | [] => .error (.endInValue, c.index)
    | x :: _ =>
      if x = 'n' then (word "ull".toList c.advance).map (Json.null, ·)
      else if x = 't' then (word "rue".toList c.advance).map (Json.bool true, ·)
      else if x = 'f' then (word "alse".toList c.advance).map (Json.bool false, ·)
      else if x = '\"' then (string c.advance).map fun (s, c) => (Json.str s, c)
      else if x = '-' ∨ x.isDigit then numeral c
      else if x = '[' then
        let c := c.advance.skipBlanks
        match c.rest with
        | ']' :: _ => .ok (.arr [], c.advance)
        | _ => items fuel [] c
      else if x = '\x7b' then
        let c := c.advance.skipBlanks
        match c.rest with
        | '\x7d' :: _ => .ok (.obj [], c.advance)
        | _ => fields fuel [] c
      else .error (.expectedValue, c.index + 1)

/-- The items of a list from one of them on. -/
def items (fuel : Nat) (acc : List Json) (c : Cursor) :
    Except (TextFault × Nat) (Json × Cursor) :=
  match fuel with
  | 0 => .error (.expectedValue, c.index)
  | fuel + 1 => do
    let (j, c) ← value fuel c
    let c := c.skipBlanks
    match c.rest with
    | ',' :: _ => items fuel (j :: acc) c.advance
    | _ =>
      let c ← expect ']' c
      .ok (.arr (j :: acc).reverse, c)

/-- The fields of an object from one of them on. -/
def fields (fuel : Nat) (acc : List (String × Json)) (c : Cursor) :
    Except (TextFault × Nat) (Json × Cursor) :=
  match fuel with
  | 0 => .error (.expectedValue, c.index)
  | fuel + 1 => do
    let c ← expect '\"' c.skipBlanks
    let (k, c) ← string c
    let c ← expect ':' c.skipBlanks
    let (j, c) ← value fuel c
    let c := c.skipBlanks
    match c.rest with
    | ',' :: _ => fields fuel ((k, j) :: acc) c.advance
    | _ =>
      let c ← expect '\x7d' c
      .ok (object ((k, j) :: acc).reverse, c)

end

/-- Nothing but blanks may follow a document. -/
def finish (c : Cursor) : Except (TextFault × Nat) Unit :=
  let c := c.skipBlanks
  if c.rest.isEmpty then .ok () else .error (.trailingText, c.index + 1)

/-- The value a text holds. -/
def parse? (s : String) : Option Json :=
  let cs := s.toList
  match value (2 * cs.length + 2) ⟨cs, 0⟩ with
  | .error _ => none
  | .ok (j, c) => match finish c with
    | .ok _ => some j
    | .error _ => none

/-- Line and column of a byte of a text; the column counts bytes from the last line break. -/
def position : List Char → Nat → Nat → Nat → Nat × Nat
  | [], _, line, column => (line, column)
  | c :: rest, index, line, column =>
    if index = 0 then (line, column)
    else if c = '\n' then position rest (index - 1) (line + 1) 0
    else position rest (index - c.utf8Size) line (column + min index c.utf8Size)

end EventSourcing.Json
