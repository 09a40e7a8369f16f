import EventSourcing.Json.Decode

/-!
Aggregates.
An aggregate is named by its type and a key. The canonical form joins both by a dot; it can be read
back where the type is not empty and holds no dot.
-/
namespace EventSourcing

structure AggregateId where
  type : String
  key : String
  deriving DecidableEq, Inhabited

namespace AggregateId

/-- A text that is no canonical form. -/
structure TextError where
  text : String
  deriving DecidableEq

def TextError.message (e : TextError) : String :=
  s!"invalid aggregate id '{e.text}': expected 'type.key'"

def canonical (a : AggregateId) : String := a.type ++ "." ++ a.key

/-- Splits at the first dot. The part before it must not be empty. -/
def parse (s : String) : Except TextError AggregateId :=
  let cs := s.toList
  match cs.takeWhile (· ≠ '.'), cs.dropWhile (· ≠ '.') with
  | c :: type, _ :: key => .ok ⟨String.ofList (c :: type), String.ofList key⟩
  | _, _ => .error ⟨s⟩

/-- The order by type and then by key. -/
def lt (a b : AggregateId) : Bool := a.type < b.type || (a.type = b.type && a.key < b.key)

/-- The ids in order, each once. -/
def sort (ids : List AggregateId) : List AggregateId :=
  (ids.mergeSort fun a b => !b.lt a).foldr
    (fun a acc => if acc.head? = some a then acc else a :: acc) []

def toJson (a : AggregateId) : Json := Json.object [("type", .str a.type), ("key", .str a.key)]

def decode : Decoder AggregateId :=
  .record "AggregateId" <|
    mk <$> .required "type" .text <*> .required "key" .text

end AggregateId
end EventSourcing
