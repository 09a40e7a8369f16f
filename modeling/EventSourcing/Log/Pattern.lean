import EventSourcing.Text.Alphanumeric
import EventSourcing.Text.Blank

/-!
Patterns for the values of fields.
A pattern is a regular expression. It is admitted when it is well formed and can be matched byte by
byte without tables of characters: classes of words, digits and blanks, properties, word boundaries
and matching in either case belong to ASCII and need the flag that turns other characters off, and
what is matched is always whole characters. A pattern stands before a closing brace and holds none,
so that no counted repetition and no name in braces is ever complete.
-/
namespace EventSourcing.Log.Pattern

/-- The flags in force at a place of a pattern. -/
structure Flags where
  /-- Letters stand for both cases. -/
  caseless : Bool := false
  /-- Classes go beyond ASCII. -/
  unicode : Bool := true
  /-- Blanks and comments are skipped. -/
  verbose : Bool := false

/-- Drops blanks and comments, which start with a hash and end with the line. -/
def skipBlanks (inComment : Bool) : List Char → List Char
  | [] => []
  | c :: rest =>
    if inComment then skipBlanks (c ≠ '\n') rest
    else if Text.isBlank c then skipBlanks false rest
    else if c = '#' then skipBlanks true rest
    else c :: rest

namespace Flags

def skip (f : Flags) (cs : List Char) : List Char := if f.verbose then skipBlanks false cs else cs

/-- The character that stands after blanks. A hash only hides itself and blanks after it. -/
def peek? (f : Flags) (cs : List Char) : Option Char :=
  if f.verbose then
    match Text.trimLeft cs with
    | '#' :: rest => (Text.trimLeft rest).head?.or cs.head?
    | c :: _ => some c
    | [] => cs.head?
  else cs.head?

end Flags

/-- The least piece of a pattern. -/
inductive Atom where
  /-- A character; `byte` where it was written as one byte in base sixteen. -/
  | char (c : Char) (byte : Bool)
  /-- A class of digits, blanks or word characters. -/
  | named (negated : Bool)
  /-- A place at the start or end. -/
  | edge
  /-- A place at the start or end of a word, or inside. -/
  | wordEdge
  deriving DecidableEq

def hexDigit? (c : Char) : Option Nat :=
  if c.isDigit then some (c.toNat - 48)
  else if 'a' ≤ c ∧ c ≤ 'f' then some (c.toNat - 87)
  else if 'A' ≤ c ∧ c ≤ 'F' then some (c.toNat - 55)
  else none

/-- Reads so many digits of base sixteen; blanks may stand around each. -/
def hexDigits (f : Flags) : Nat → Nat → List Char → Option (Nat × List Char)
  | 0, n, cs => some (n, cs)
  | count + 1, n, cs =>
    match cs with
    | [] => none
    | c :: rest =>
      match hexDigit? c with
      | none => none
      | some d => hexDigits f count (n * 16 + d) (f.skip rest)

def hexChar (f : Flags) (count : Nat) (cs : List Char) : Option (Atom × List Char) :=
  match hexDigits f count 0 (f.skip cs) with
  | none => none
  | some (n, rest) =>
    if n.isValidChar then some (.char (Char.ofNat n) (count = 2), rest) else none

/-- Whether a backslash takes the meaning of a character away. -/
def isEscapable (c : Char) : Bool :=
  c.toNat < 0x80 && !c.isAlphanum && c ≠ '<' && c ≠ '>'

/-- Reads what stands after a backslash. -/
def escape (f : Flags) : List Char → Option (Atom × List Char)
  | [] => none
  | c :: rest =>
    if c = 'x' then hexChar f 2 rest
    else if c = 'u' then hexChar f 4 rest
    else if c = 'U' then hexChar f 8 rest
    else if c = 'd' ∨ c = 's' ∨ c = 'w' then some (.named false, rest)
    else if c = 'D' ∨ c = 'S' ∨ c = 'W' then some (.named true, rest)
    else if c = 'A' ∨ c = 'z' then some (.edge, rest)
    else if c = 'b' ∨ c = 'B' ∨ c = '<' ∨ c = '>' then some (.wordEdge, rest)
    else if c = 'a' then some (.char '\x07' false, rest)
    else if c = 'f' then some (.char '\x0c' false, rest)
    else if c = 't' then some (.char '\t' false, rest)
    else if c = 'n' then some (.char '\n' false, rest)
    else if c = 'r' then some (.char '\r' false, rest)
    else if c = 'v' then some (.char '\x0b' false, rest)
    else if isEscapable c then some (.char c false, rest)
    else none

/-- Whether an atom can be matched under the flags outside a class. -/
def Atom.admitted (f : Flags) : Atom → Bool
  | .char c byte => if f.unicode then !f.caseless else !byte || c.toNat < 0x80
  | .named negated => !f.unicode && !negated
  | .edge => true
  | .wordEdge => !f.unicode

/-! ### Classes in brackets -/

/-- Members of a class: how deeply it is nested, and whether characters beyond ASCII belong to it
(where that matters they do all or none). -/
structure Members where
  depth : Nat := 0
  beyond : Bool := false

/-- Members that stand side by side, and how many of them there are. -/
structure Union where
  count : Nat := 0
  deepest : Nat := 0
  beyond : Bool := false

namespace Union

def push (u : Union) (m : Members) : Union :=
  ⟨u.count + 1, max u.deepest m.depth, u.beyond || m.beyond⟩

def members (u : Union) : Members :=
  ⟨if u.count ≤ 1 then u.deepest else u.deepest + 1, u.beyond⟩

end Union

inductive SetOp where
  | intersection
  | difference
  | symmetricDifference

def SetOp.apply (o : SetOp) (a b : Members) : Members where
  depth := max a.depth b.depth + 1
  beyond := match o with
    | .intersection => a.beyond && b.beyond
    | .difference => a.beyond && !b.beyond
    | .symmetricDifference => a.beyond != b.beyond

/-- A class that has been opened and not yet closed. -/
structure OpenClass where
  negated : Bool
  /-- What stands before an operator. -/
  left : Option (Members × SetOp) := none
  union : Union := {}

namespace OpenClass

/-- All members so far. -/
def members (k : OpenClass) : Members :=
  match k.left with
  | none => k.union.members
  | some (a, o) => o.apply a k.union.members

def push (k : OpenClass) (m : Members) : OpenClass := { k with union := k.union.push m }

def operator (k : OpenClass) (o : SetOp) : OpenClass :=
  { k with left := some (k.members, o), union := {} }

end OpenClass

/-- Whether a character can be a member. -/
def isMember (f : Flags) (c : Char) : Bool :=
  if f.unicode then !f.caseless else c.toNat < 0x80

def classNames : List String :=
  ["alnum", "alpha", "ascii", "blank", "cntrl", "digit", "graph", "lower", "print", "punct", "space",
    "upper", "word", "xdigit"]

/-- Reads a class by name, after its opening bracket: whether it is negated, and the rest. -/
def namedClass? : List Char → Option (Bool × List Char)
  | ':' :: rest =>
    let (negated, rest) := match rest with
      | '^' :: rest => (true, rest)
      | rest => (false, rest)
    match rest.dropWhile (· ≠ ':') with
    | ':' :: ']' :: after =>
      if String.ofList (rest.takeWhile (· ≠ ':')) ∈ classNames then some (negated, after) else none
    | _ => none
  | _ => none

/-- Reads hyphens at the start of a class, which stand for themselves. -/
def hyphens (f : Flags) (u : Union) : Nat → List Char → Union × List Char
  | 0, cs => (u, cs)
  | fuel + 1, cs =>
    match cs with
    | '-' :: rest => hyphens f (u.push {}) fuel (f.skip rest)
    | _ => (u, cs)

/-- Reads the start of a class after its bracket. A closing bracket stands for itself there. -/
def openClass (f : Flags) (cs : List Char) : Option (OpenClass × List Char) :=
  let cs := f.skip cs
  let (negated, cs) := match cs with
    | '^' :: rest => (true, f.skip rest)
    | cs => (false, cs)
  let (u, cs) := hyphens f {} cs.length cs
  let (u, cs) := match u.count, cs with
    | 0, ']' :: rest => (u.push {}, f.skip rest)
    | _, cs => (u, cs)
  if cs = [] ∨ (u.count ≠ 0 ∧ !isMember f '-') then none
  else some ({ negated, union := u }, cs)

/-- Reads one end of a range. -/
def rangeEnd (f : Flags) : List Char → Option (Atom × List Char)
  | [] => none
  | '\\' :: rest => escape f rest
  | c :: rest => some (.char c false, rest)

/-- Reads a character, a range or a class of digits, blanks or word characters. -/
def member (f : Flags) (cs : List Char) : Option (List Char) :=
  match rangeEnd f cs with
  | none => none
  | some (a, rest) =>
    match f.skip rest with
    | [] => none
    | d :: after =>
      if d ≠ '-' ∨ f.peek? after = some ']' ∨ f.peek? after = some '-' then
        match a with
        | .char c _ => if isMember f c then some (d :: after) else none
        | .named negated => if Atom.admitted f (.named negated) then some (d :: after) else none
        | _ => none
      else
        match a, rangeEnd f (f.skip after) with
        | .char low _, some (.char high _, rest) =>
          if low ≤ high ∧ isMember f low ∧ isMember f high then some rest else none
        | _, _ => none

/-- Reads the rest of a class, after its start: how deeply it is nested. -/
def bracketed (f : Flags) : Nat → OpenClass → List OpenClass → List Char →
    Option (Nat × List Char)
  | 0, _, _, _ => none
  | fuel + 1, k, outer, cs =>
    match f.skip cs with
    | [] => none
    | '[' :: rest =>
      match namedClass? rest with
      | some (negated, after) =>
        if f.unicode && f.caseless then none
        else bracketed f fuel (k.push { beyond := negated }) outer after
      | none =>
        match openClass f rest with
        | none => none
        | some (k', rest) => bracketed f fuel k' (k :: outer) rest
    | ']' :: rest =>
      let m := k.members
      let beyond := m.beyond != k.negated
      if !f.unicode && beyond then none
      else match outer with
        | [] => some (m.depth + 1, rest)
        | k' :: outer => bracketed f fuel (k'.push ⟨m.depth + 1, beyond⟩) outer rest
    | '&' :: '&' :: rest => bracketed f fuel (k.operator .intersection) outer rest
    | '-' :: '-' :: rest => bracketed f fuel (k.operator .difference) outer rest
    | '~' :: '~' :: rest => bracketed f fuel (k.operator .symmetricDifference) outer rest
    | cs =>
      match member f cs with
      | none => none
      | some rest => bracketed f fuel (k.push {}) outer rest

/-! ### Groups -/

/-- A piece of a sequence: how deeply it is nested, and whether it can be repeated. -/
structure Piece where
  depth : Nat := 0
  repeatable : Bool := true

/-- What has been read of a group. -/
structure Group where
  /-- The pieces of the branch at hand, the last one first. -/
  pieces : List Piece := []
  /-- How deeply the branches before it are nested, if there are any. -/
  branches : Option Nat := none

namespace Group

def branchDepth (g : Group) : Nat :=
  match g.pieces with
  | [] => 0
  | [p] => p.depth
  | ps => ps.foldl (fun d p => max d p.depth) 0 + 1

def depth (g : Group) : Nat :=
  match g.branches with
  | none => g.branchDepth
  | some d => max d g.branchDepth + 1

def push (g : Group) (p : Piece) : Group := { g with pieces := p :: g.pieces }

/-- Starts another branch. -/
def branch (g : Group) : Group :=
  ⟨[], some (max (g.branches.getD 0) g.branchDepth)⟩

end Group

/-- A setting of flags: the letters set and the letters cleared. -/
structure Setting where
  on : List Char := []
  cleared : List Char := []
  /-- A minus sign has been read. -/
  clearing : Bool := false
  /-- Something follows the minus sign. -/
  complete : Bool := true

namespace Setting

def isEmpty (s : Setting) : Bool := s.on.isEmpty && s.cleared.isEmpty && !s.clearing

def add (s : Setting) (c : Char) : Option Setting :=
  if c = '-' then if s.clearing then none else some { s with clearing := true, complete := false }
  else if c ∉ ['i', 'm', 's', 'U', 'u', 'R', 'x'] ∨ c ∈ s.on ∨ c ∈ s.cleared then none
  else if s.clearing then some { s with cleared := c :: s.cleared, complete := true }
  else some { s with on := c :: s.on }

def flag (s : Setting) (c : Char) (old : Bool) : Bool :=
  if c ∈ s.on then true else if c ∈ s.cleared then false else old

def apply (s : Setting) (f : Flags) : Flags :=
  ⟨s.flag 'i' f.caseless, s.flag 'u' f.unicode, s.flag 'x' f.verbose⟩

/-- Reads the letters up to the colon or bracket that ends a setting, which is named. -/
def read (s : Setting) : List Char → Option (Setting × Char × List Char)
  | [] => none
  | c :: rest =>
    if c = ':' ∨ c = ')' then if s.complete then some (s, c, rest) else none
    else match s.add c with
      | none => none
      | some s => read s rest

end Setting

/-- Whether a text can name a group. -/
def isGroupName : List Char → Bool
  | [] => false
  | c :: rest =>
    (c = '_' || Text.isAlphabetic c) &&
      rest.all fun c => c = '_' || c = '.' || c = '[' || c = ']' || Text.isAlphanumeric c

/-- A pattern that is being read. -/
structure Reader where
  flags : Flags := {}
  group : Group := {}
  /-- The groups around it, with the flags to go back to. -/
  outer : List (Flags × Group) := []
  names : List (List Char) := []

namespace Reader

def push (r : Reader) (p : Piece) : Reader := { r with group := r.group.push p }

/-- Opens a group in which other flags may hold. -/
def enter (r : Reader) (f : Flags) : Reader :=
  { r with flags := f, group := {}, outer := (r.flags, r.group) :: r.outer }

/-- Closes the group at hand. -/
def leave (r : Reader) : Option Reader :=
  match r.outer with
  | [] => none
  | (f, g) :: outer => some { r with flags := f, group := g.push ⟨r.group.depth + 1, true⟩, outer }

/-- Opens a group with a name. -/
def enterNamed (r : Reader) (cs : List Char) : Option (Reader × List Char) :=
  let name := cs.takeWhile (· ≠ '>')
  match cs.dropWhile (· ≠ '>') with
  | [] => none
  | _ :: rest =>
    if isGroupName name ∧ name ∉ r.names then
      some ({ r.enter r.flags with names := name :: r.names }, rest)
    else none

/-- Reads what stands after the bracket that opens a group. Looking ahead or behind is refused. -/
def openGroup (r : Reader) (cs : List Char) : Option (Reader × List Char) :=
  match r.flags.skip cs with
  | '?' :: 'P' :: '<' :: rest => r.enterNamed rest
  | '?' :: '<' :: rest =>
    if rest.head? = some '=' ∨ rest.head? = some '!' then none else r.enterNamed rest
  | '?' :: rest =>
    match Setting.read {} rest with
    | none => none
    | some (s, ':', rest) => some (r.enter (s.apply r.flags), rest)
    | some (s, _, rest) =>
      if s.isEmpty then none
      else some ({ r.push ⟨0, false⟩ with flags := s.apply r.flags }, rest)
  | rest => some (r.enter r.flags, rest)

/-- Repeats the last piece. -/
def repeatLast (r : Reader) : Option Reader :=
  match r.group.pieces with
  | [] => none
  | p :: rest =>
    if p.repeatable then
      some { r with group := { r.group with pieces := ⟨p.depth + 1, true⟩ :: rest } }
    else none

/-- Reads an atom, or what stands for itself. -/
def atom (r : Reader) (c : Char) (rest : List Char) : Option (Reader × List Char) :=
  let (a, rest) : Option Atom × List Char :=
    if c = '\\' then
      match escape r.flags rest with
      | none => (none, rest)
      | some (a, rest) => (some a, rest)
    else if c = '^' ∨ c = '$' then (some .edge, rest)
    else (some (.char c false), rest)
  match a with
  | none => none
  | some a => if a.admitted r.flags then some (r.push {}, rest) else none

/-- Reads one piece or sign. Any character but a line break is a whole character only where classes
go beyond ASCII. -/
def step (r : Reader) (c : Char) (rest : List Char) : Option (Reader × List Char) :=
  if c = '(' then r.openGroup rest
  else if c = ')' then r.leave.map fun r => (r, rest)
  else if c = '|' then some ({ r with group := r.group.branch }, rest)
  else if c = '[' then
    match openClass r.flags rest with
    | none => none
    | some (k, rest) =>
      (bracketed r.flags (rest.length + 1) k [] rest).map fun (d, rest) => (r.push ⟨d, true⟩, rest)
  else if c = '?' ∨ c = '*' ∨ c = '+' then
    r.repeatLast.map fun r => (r, match rest with
      | '?' :: rest => rest
      | rest => rest)
  else if c = '\x7b' then none
  else if c = '.' then if r.flags.unicode then some (r.push {}, rest) else none
  else r.atom c rest

def readFor (r : Reader) : Nat → List Char → Option Reader
  | 0, _ => none
  | fuel + 1, cs =>
    match r.flags.skip cs with
    | [] => some r
    | c :: rest =>
      match r.step c rest with
      | none => none
      | some (r, rest) => r.readFor fuel rest

end Reader

/-- The greatest depth to which a pattern may be nested. -/
def maxDepth : Nat := 250

/-- Whether a text is a pattern that can be matched. -/
def isAdmitted (cs : List Char) : Bool :=
  match Reader.readFor {} (cs.length + 1) cs with
  | none => false
  | some r => r.outer.isEmpty && r.group.depth ≤ maxDepth

end EventSourcing.Log.Pattern
