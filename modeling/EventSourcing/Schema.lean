import EventSourcing.Json.Basic

/-!
Schemas of payloads.
A schema states the kind of a value and, for an object, its fields: their kinds, whether they must
be present, and whether further fields are allowed.
-/
namespace EventSourcing

/-- The kinds that a field can be declared to have. -/
inductive FieldKind where
  | null
  | boolean
  | integer
  /-- A number with or without a fraction. -/
  | number
  | string
  | array
  | object
  | any
  deriving DecidableEq, Repr

namespace FieldKind

def text : FieldKind → String
  | .null => "null"
  | .boolean => "boolean"
  | .integer => "integer"
  | .number => "number"
  | .string => "string"
  | .array => "array"
  | .object => "object"
  | .any => "any"

def accepts : FieldKind → Json → Bool
  | .any, _ => true
  | .null, .null => true
  | .boolean, .bool _ => true
  | .integer, .int _ => true
  | .number, .int _ => true
  | .number, .float _ => true
  | .string, .str _ => true
  | .array, .arr _ => true
  | .object, .obj _ => true
  | _, _ => false

/-- The kind of a value. A whole number is an integer. -/
def ofJson : Json → FieldKind
  | .null => .null
  | .bool _ => .boolean
  | .int _ => .integer
  | .float _ => .number
  | .str _ => .string
  | .arr _ => .array
  | .obj _ => .object

end FieldKind

mutual

/-- A schema: the kind of the value, its declared fields, and whether it may have others. -/
inductive Schema where
  | mk (root : FieldKind) (fields : List Schema.Field) (extra : Bool)

/-- A declared field. What is inside it may have a schema of its own. -/
inductive Schema.Field where
  | mk (name : String) (kind : FieldKind) (required : Bool) (inner : Option Schema)

end

namespace Schema

def root : Schema → FieldKind
  | .mk r _ _ => r

def fields : Schema → List Field
  | .mk _ fs _ => fs

def allowsExtra : Schema → Bool
  | .mk _ _ e => e

def Field.name : Field → String
  | .mk n _ _ _ => n

def Field.kind : Field → FieldKind
  | .mk _ k _ _ => k

def Field.required : Field → Bool
  | .mk _ _ r _ => r

def Field.inner : Field → Option Schema
  | .mk _ _ _ i => i

/-- An object without fields. -/
def object : Schema := .mk .object [] false

/-- Any value at all. -/
def any : Schema := .mk .any [] true

instance : Inhabited Schema := ⟨object⟩

def add (s : Schema) (f : Field) : Schema := .mk s.root (s.fields ++ [f]) s.allowsExtra

def require (s : Schema) (name : String) (kind : FieldKind) : Schema :=
  s.add (.mk name kind true none)

def optional (s : Schema) (name : String) (kind : FieldKind) : Schema :=
  s.add (.mk name kind false none)

def nested (s : Schema) (name : String) (inner : Schema) (required : Bool) : Schema :=
  s.add (.mk name .object required (some inner))

def allowExtra (s : Schema) (allow : Bool) : Schema := .mk s.root s.fields allow

mutual

def toJson : Schema → Json
  | .mk root fields extra =>
    Json.object [("root", .str root.text), ("fields", .arr (fieldsJson fields)),
      ("allow_extra_fields", .bool extra)]

def fieldsJson : List Field → List Json
  | [] => []
  | f :: rest => fieldJson f :: fieldsJson rest

/-- A field without a schema of its own has no entry for one. -/
def fieldJson : Field → Json
  | .mk name kind required none =>
    Json.object [("name", .str name), ("type", .str kind.text), ("required", .bool required)]
  | .mk name kind required (some inner) =>
    Json.object [("name", .str name), ("type", .str kind.text), ("required", .bool required),
      ("fields", toJson inner)]

end

end Schema
end EventSourcing
