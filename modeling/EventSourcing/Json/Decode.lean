import EventSourcing.Decimal.Layout
import EventSourcing.Json.Basic
import EventSourcing.Text.Quoted
import EventSourcing.Timestamp.Rfc3339
import EventSourcing.Ulid.Text
import EventSourcing.Word

/-!
From data values to the values they stand for.
A record is read from an object, whose further fields are ignored, or from an array of its fields in
order. The fields that are present are read first, in the order in which they stand, and only then
is a missing one noticed, in the order of declaration.
-/
namespace EventSourcing

/-- What was found in the place of something else. -/
inductive Found where
  | null
  | bool (b : Bool)
  | int (n : Int)
  | float (x : Float)
  | str (s : String)
  | sequence
  | map
  deriving DecidableEq

def Found.ofJson : Json → Found
  | .null => .null
  | .bool b => .bool b
  | .int n => .int n
  | .float x => .float x
  | .str s => .str s
  | .arr _ => .sequence
  | .obj _ => .map

def Found.text : Found → String
  | .null => "null"
  | .bool b => s!"boolean `{b}`"
  | .int n => s!"integer `{n}`"
  | .float x => "floating point `" ++ Decimal.fileLayout.float x ++ "`"
  | .str s => "string " ++ Text.quoted s
  | .sequence => "sequence"
  | .map => "map"

/-- Why a value does not stand for what was asked. -/
inductive DecodeError where
  | wrongKind (found : Found) (wanted : String)
  | wrongValue (found : Found) (wanted : String)
  | wrongLength (length : Nat) (wanted : String)
  | missingField (name : String)
  | unknownVariant (name : String) (known : List String)
  | ulid (e : Ulid.TextError)
  | timestamp (e : Timestamp.TextError)
  deriving DecidableEq

def DecodeError.message : DecodeError → String
  | .wrongKind found wanted => s!"invalid type: {found.text}, expected {wanted}"
  | .wrongValue found wanted => s!"invalid value: {found.text}, expected {wanted}"
  | .wrongLength length wanted => s!"invalid length {length}, expected {wanted}"
  | .missingField name => s!"missing field `{name}`"
  | .unknownVariant name known =>
    s!"unknown variant `{name}`, expected " ++
      " or ".intercalate (known.map fun k => s!"`{k}`")
  | .ulid e => e.message
  | .timestamp e => e.message

/-- A way to read values of a type. -/
abbrev Decoder (α : Type) := Json → Except DecodeError α

namespace Decoder
variable {α β : Type}

def json : Decoder Json := .ok

def text : Decoder String
  | .str s => .ok s
  | j => .error (.wrongKind (.ofJson j) "a string")

def int64 : Decoder Int
  | .int n =>
    if Word.isInt64 n then .ok n else .error (.wrongValue (.int n) "i64")
  | j => .error (.wrongKind (.ofJson j) "i64")

/-- Null stands for no value. -/
def optional (d : Decoder α) : Decoder (Option α)
  | .null => .ok none
  | j => (d j).map some

def ulid : Decoder Ulid := fun j => do
  let s ← text j
  (Ulid.parse s).mapError .ulid

def timestamp : Decoder Timestamp
  | .str s => (Timestamp.parse s).mapError .timestamp
  | j => .error (.wrongKind (.ofJson j) "an RFC 3339 formatted date and time string")

/-- What the absence of a field means. -/
inductive Absence where
  /-- The record is refused. -/
  | missing
  /-- An object may lack the field, an array may not. -/
  | none
  /-- The field has a value of its own when it is absent. -/
  | default
  deriving DecidableEq

/-- One field of a record, apart from its value. -/
structure Field where
  name : String
  absence : Absence
  check : Decoder Unit

/-- The fields of a record and its value once they have been looked up. -/
structure Fields (α : Type) where
  list : List Field
  build : (String → Option Json) → Except DecodeError α

namespace Fields

def pure (a : α) : Fields α := ⟨[], fun _ => .ok a⟩

def ap (f : Fields (α → β)) (x : Fields α) : Fields β where
  list := f.list ++ x.list
  build get := do
    let g ← f.build get
    let a ← x.build get
    .ok (g a)

instance : Applicative Fields where
  pure := Fields.pure
  seq f x := f.ap (x ())

def required (name : String) (d : Decoder α) : Fields α where
  list := [⟨name, .missing, fun j => (d j).map fun _ => ()⟩]
  build get :=
    match get name with
    | some j => d j
    | none => .error (.missingField name)

def optional (name : String) (d : Decoder α) : Fields (Option α) where
  list := [⟨name, .none, fun j => (Decoder.optional d j).map fun _ => ()⟩]
  build get :=
    match get name with
    | some j => Decoder.optional d j
    | none => .ok none

def withDefault (name : String) (d : Decoder α) (a : α) : Fields α where
  list := [⟨name, .default, fun j => (d j).map fun _ => ()⟩]
  build get :=
    match get name with
    | some j => d j
    | none => .ok a

end Fields

/-- Reads the fields of an object that belong to the record, in the order in which they stand. -/
def checkPresent (list : List Field) : List (String × Json) → Except DecodeError Unit
  | [] => .ok ()
  | (k, v) :: rest => do
    match list.find? fun f => f.name = k with
    | some f => f.check v
    | none => .ok ()
    checkPresent list rest

/-- The first field that is missing from an object. -/
def checkMissing (fields : List (String × Json)) : List Field → Except DecodeError Unit
  | [] => .ok ()
  | f :: rest =>
    if f.absence = .missing ∧ (Json.field? f.name fields).isNone then .error (.missingField f.name)
    else checkMissing fields rest

def elementCount (n : Nat) : String := if n = 1 then "1 element" else s!"{n} elements"

/-- Reads fields from the items of an array; `seen` counts the fields before them. -/
def checkItems (name : String) (total seen : Nat) :
    List Field → List Json → Except DecodeError Unit
  | [], [] => .ok ()
  | [], extra => .error (.wrongLength (seen + extra.length) "fewer elements in array")
  | f :: fs, [] =>
    if f.absence = .default then checkItems name total (seen + 1) fs []
    else .error (.wrongLength seen s!"struct {name} with {elementCount total}")
  | f :: fs, j :: js => do
    f.check j
    checkItems name total (seen + 1) fs js

def record (name : String) (fs : Fields α) : Decoder α
  | .obj fields => do
    checkPresent fs.list fields
    checkMissing fields fs.list
    fs.build fun k => Json.field? k fields
  | .arr items => do
    checkItems name fs.list.length 0 fs.list items
    fs.build fun k => Json.field? k ((fs.list.map Field.name).zip items)
  | j => .error (.wrongKind (.ofJson j) s!"struct {name}")

/-- One of several named values without content: its name, or an object with that one field,
holding null. -/
def variant (known : List (String × α)) : Decoder α := fun j => do
  let (name, content) ← match j with
    | .str s => .ok (s, Json.null)
    | .obj [(k, v)] => .ok (k, v)
    | .obj _ => .error (.wrongValue .map "map with a single key")
    | j => .error (.wrongKind (.ofJson j) "string or map")
  match known.lookup name with
  | none => .error (.unknownVariant name (known.map Prod.fst))
  | some a =>
    match content with
    | .null => .ok a
    | j => .error (.wrongKind (.ofJson j) "unit")

end Decoder
end EventSourcing
