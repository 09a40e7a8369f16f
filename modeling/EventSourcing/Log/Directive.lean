import EventSourcing.Log.FieldMatch
import EventSourcing.Log.Level
import EventSourcing.Text.Bytes

/-!
Directives of log filters.
A directive gives a level for a target, a span or fields. Places in its text are counted in bytes
from the first character that is not blank, but parts are cut from the whole text, so that blanks in
front shift what is cut.
-/
namespace EventSourcing.Log

structure Directive where
  target : Option (List Char) := none
  span : Option (List Char) := none
  fields : List FieldMatch := []
  level : Level := .trace

/-- Why a text is no directive. -/
inductive DirectiveFault where
  | malformed
  /-- A part would begin or end inside a character. -/
  | splitCharacter
  deriving DecidableEq

namespace Directive

/-- The part of a text between two places. -/
def cut (whole : List Char) (start stop : Nat) : Except DirectiveFault (List Char) :=
  match (Text.splitBytes? start whole).bind fun (_, rest) => Text.splitBytes? (stop - start) rest with
  | some (part, _) => .ok part
  | none => .error .splitCharacter

/-- A text from a place on. -/
def cutFrom (whole : List Char) (start : Nat) : Except DirectiveFault (List Char) :=
  match Text.splitBytes? start whole with
  | some (_, rest) => .ok rest
  | none => .error .splitCharacter

/-- How far a directive has been read. Numbers are places in its text. -/
inductive Stage where
  | start
  | levelOrTarget (start : Nat)
  | span (start : Nat)
  | field (start : Nat)
  | fieldsDone
  | spanDone
  | level (start : Nat)

/-- Reads one character. -/
def step (whole : List Char) (d : Directive) (stage : Stage) (i : Nat) (c : Char) :
    Except DirectiveFault (Directive × Stage) :=
  match stage with
  | .start =>
    if c = '[' then .ok (d, .span (i + 1))
    else if c = '-' ∨ c = ':' ∨ c = '_' ∨ Text.isAlphanumeric c then .ok (d, .levelOrTarget i)
    else .error .malformed
  | .levelOrTarget s =>
    if c = '=' then return ({ d with target := some (← cut whole s i) }, .level (i + 1))
    else if c = '[' then return ({ d with target := some (← cut whole s i) }, .span (i + 1))
    else .ok (d, stage)
  | .span s =>
    if c = ']' then return ({ d with span := some (← cut whole s i) }, .spanDone)
    else if c = '\x7b' then do
      let name ← cut whole s i
      return ({ d with span := if name.isEmpty then none else some name }, .field (i + 1))
    else .ok (d, stage)
  | .field s =>
    if c = '\x7d' then do
      let text ← cut whole s i
      match if text.isEmpty then none else FieldMatch.read? text with
      | none => .error .malformed
      | some m => .ok ({ d with fields := d.fields ++ [m] }, .fieldsDone)
    else .ok (d, stage)
  | .fieldsDone => if c = ']' then .ok (d, .spanDone) else .error .malformed
  | .spanDone => if c = '=' then .ok (d, .level (i + 1)) else .error .malformed
  | .level _ => .ok (d, stage)

def scan (whole : List Char) (d : Directive) (stage : Stage) (i : Nat) :
    List Char → Except DirectiveFault (Directive × Stage)
  | [] => .ok (d, stage)
  | c :: rest => do
    let (d, stage) ← step whole d stage i c
    scan whole d stage (i + c.utf8Size) rest

/-- Reads what is left when all characters have been read. A directive without a level stands for
the finest one. -/
def finish (whole : List Char) (d : Directive) : Stage → Except DirectiveFault Directive
  | .levelOrTarget s => do
    let text ← cutFrom whole s
    match Level.read? text with
    | some l => return { d with level := l }
    | none => return { d with target := some text }
  | .level s => do
    let text ← cutFrom whole s
    if text.isEmpty then return d
    else match Level.read? text with
      | some l => return { d with level := l }
      | none => .error .malformed
  | .spanDone => .ok d
  | _ => .error .malformed

def read (cs : List Char) : Except DirectiveFault Directive := do
  let (d, stage) ← scan cs {} .start 0 (Text.trim cs)
  finish cs d stage

/-- A directive that depends on the span at hand. -/
def isDynamic (d : Directive) : Bool := d.span.isSome || !d.fields.isEmpty

/-- The directive as far as it holds everywhere, unless it needs a span or a value. -/
def toStatic? (d : Directive) : Option Directive :=
  if d.span.isSome || d.fields.any (fun f => f.value.isSome) then none else some d

def text (d : Directive) : List Char :=
  let inner := d.fields.map FieldMatch.text
  let place := d.target.getD [] ++
    (if d.isDynamic then
      '[' :: d.span.getD [] ++
        (if inner.isEmpty then [] else '\x7b' :: [','].intercalate inner ++ ['\x7d']) ++ [']']
    else [])
  if d.target.isSome || d.isDynamic then place ++ '=' :: d.level.name.toList
  else d.level.name.toList

/-- The place of a directive among others: the length of its target, whether it has a span, the
number of its fields, and then the order of their texts. -/
def key (d : Directive) : List Int :=
  let optional (cs : Option (List Char)) : List Int :=
    match cs with
    | none => [0]
    | some cs => 1 :: FieldValue.codes cs
  let counts : List Nat := [d.target.elim 0 fun t => Text.byteCount t + 1,
    if d.span.isSome then 1 else 0, d.fields.length]
  counts.map Int.ofNat ++ optional d.target ++ optional d.span ++ (d.fields.map FieldMatch.key).flatten

/-- Puts a directive among others, the most specific first; it replaces one of the same place. -/
def insert (d : Directive) : List Directive → List Directive
  | [] => [d]
  | e :: rest =>
    if d.key = e.key then d :: rest
    else if e.key < d.key then d :: e :: rest
    else e :: insert d rest

end Directive
end EventSourcing.Log
