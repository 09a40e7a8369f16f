import EventSourcing.Json.Decode
import EventSourcing.Schema

/-!
Checking a payload against a schema.
Every failing condition is reported, each at the path of the field where it fails. A value of the
wrong kind is one violation and is not looked into. Declared fields come in the order of their
declaration, with the violations inside a field in its place, and then the unknown fields in the
order of their names.
-/
namespace EventSourcing

/-- What is wrong at one place of a payload. -/
inductive Complaint where
  | missing
  | wrongKind (expected found : FieldKind)
  | unknown
  /-- The payload does not stand for the command it should. -/
  | undecodable (error : DecodeError)
  deriving DecidableEq

def Complaint.message : Complaint → String
  | .missing => "required field is missing"
  | .wrongKind expected found => s!"expected {expected.text}, got {found.text}"
  | .unknown => "unknown field"
  | .undecodable error => error.message

structure Violation where
  path : String
  complaint : Complaint
  deriving DecidableEq

/-- A violation of the payload as a whole shows no path. -/
def Violation.text (v : Violation) : String :=
  if v.path = "" then v.complaint.message else s!"{v.path}: {v.complaint.message}"

/-- The path of a field below another path. The empty path adds no dot. -/
def joinPath (path name : String) : String := if path = "" then name else path ++ "." ++ name

namespace Schema

/-- The fields that no declaration mentions. -/
def unknownFields (declared : List Field) (path : String) (present : List (String × Json)) :
    List Violation :=
  (present.filter fun f => declared.all fun d => d.name ≠ f.1).map
    fun f => ⟨joinPath path f.1, .unknown⟩

mutual

def violations (path : String) (payload : Json) : Schema → List Violation
  | .mk root declared extra =>
    if root.accepts payload then
      match payload with
      | .obj present =>
        fieldViolations path present declared ++
          if extra then [] else unknownFields declared path present
      | _ => []
    else [⟨path, .wrongKind root (.ofJson payload)⟩]

def fieldViolations (path : String) (present : List (String × Json)) :
    List Field → List Violation
  | [] => []
  | f :: rest => violationsOfField path present f ++ fieldViolations path present rest

/-- Null stands for the absence of an optional field. -/
def violationsOfField (path : String) (present : List (String × Json)) :
    Field → List Violation
  | .mk name kind required inner =>
    match Json.field? name present with
    | none => if required then [⟨joinPath path name, .missing⟩] else []
    | some v =>
      if !required && FieldKind.null.accepts v then []
      else if kind.accepts v then
        match inner with
        | none => []
        | some s => violations (joinPath path name) v s
      else [⟨joinPath path name, .wrongKind kind (.ofJson v)⟩]

end

end Schema

/-- A payload that is refused, with all that is wrong with it. -/
structure ValidationError where
  violations : List Violation
  deriving DecidableEq

namespace ValidationError

def message (e : ValidationError) : String :=
  "Invalid payload: " ++ "; ".intercalate (e.violations.map Violation.text)

/-- The payload does not stand for the command it should. -/
def ofDecode (error : DecodeError) : ValidationError := ⟨[⟨"", .undecodable error⟩]⟩

end ValidationError

def Schema.validate (s : Schema) (payload : Json) : Except ValidationError Unit :=
  match s.violations "" payload with
  | [] => .ok ()
  | vs => .error ⟨vs⟩

end EventSourcing
