/-!
Data values.
Whole numbers and numbers with a fraction are different values, so `1` and `1.0` are told apart.
The fields of an object stand in the order of their names, each name once; `Json.object` and
`Json.set` keep them so, and `Json.get?` is the view through which an object is read.
-/
namespace EventSourcing

inductive Json where
  | null
  | bool (b : Bool)
  | int (n : Int)
  | float (x : Float)
  | str (s : String)
  | arr (items : List Json)
  | obj (fields : List (String × Json))
  deriving Inhabited

namespace Json

/-- The value of a name in a list of fields. -/
def field? (name : String) : List (String × Json) → Option Json
  | [] => none
  | (k, v) :: rest => if k = name then some v else field? name rest

/-- Puts a field in its place in the order of names; a field of the same name is replaced. -/
def insertField (name : String) (v : Json) : List (String × Json) → List (String × Json)
  | [] => [(name, v)]
  | (k, w) :: rest =>
    if k = name then (name, v) :: rest
    else if name < k then (name, v) :: (k, w) :: rest
    else (k, w) :: insertField name v rest

/-- The object with the given fields; of fields with one name the last counts. -/
def object (fields : List (String × Json)) : Json :=
  .obj (fields.foldl (fun acc f => insertField f.1 f.2 acc) [])

def get? : Json → String → Option Json
  | .obj fields, name => field? name fields
  | _, _ => none

/-- Puts a field into an object; any other value stays as it is. -/
def set (j : Json) (name : String) (v : Json) : Json :=
  match j with
  | .obj fields => .obj (insertField name v fields)
  | j => j

/-- A text, or null where there is none. -/
def optionalText : Option String → Json
  | none => .null
  | some s => .str s

theorem field?_insertField (name name' : String) (v : Json) (fields : List (String × Json)) :
    field? name' (insertField name v fields) =
      if name = name' then some v else field? name' fields := by
  induction fields with
  | nil => simp [insertField, field?]
  | cons f rest ih =>
    obtain ⟨k, w⟩ := f
    by_cases hk : k = name
    · subst hk
      by_cases h : k = name' <;> simp [insertField, field?, h]
    · by_cases hlt : name < k
      · simp [insertField, field?, hk, hlt]
      · by_cases h : k = name'
        · subst h
          simp [insertField, field?, hk, hlt, Ne.symm hk]
        · simp [insertField, field?, hk, hlt, h, ih]

end Json
end EventSourcing
