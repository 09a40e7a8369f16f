import EventSourcing.Command.Program
import EventSourcing.Entity.Folding

/-!
Descriptions of entities.
A description says how a type of entity is folded from its events, which schemas its state, events
and commands have, and what its commands do.
-/
namespace EventSourcing

/-- What a command does once its payload has been read. -/
inductive Handler (S ε : Type) where
  /-- Only for an entity that has state. -/
  | existing (prepare : Decoder (Entity S → Program ε))
  /-- Also where there is no entity yet. -/
  | creating (prepare : Decoder (Option (Entity S) → Program ε))

structure Command (S ε : Type) where
  schema : Schema
  handler : Handler S ε

namespace Command
variable {S ε : Type}

def creates (c : Command S ε) : Bool :=
  match c.handler with
  | .existing _ => false
  | .creating _ => true

/-- Reads a payload. A command that needs state ends at once where there is none. -/
def prepare (c : Command S ε) (a : AggregateId) :
    Decoder (Option (Entity S) → Program ε) := fun payload =>
  match c.handler with
  | .creating p => p payload
  | .existing p => (p payload).map fun program entity =>
    match entity with
    | some e => program e
    | none => .stop (.notAvailable a)

end Command

structure Description (S ε : Type) extends Folding S where
  stateSchema : Schema := .any
  events : Assoc String Schema := ∅
  commands : Assoc String (Command S ε) := ∅

namespace Description
variable {S ε P : Type}

/-- The description of a type of entity that has neither events nor commands. -/
def ofType (type : String) : Description S ε := { type }

def withState (d : Description S ε) (s : Schema) : Description S ε := { d with stateSchema := s }

def withSeed (d : Description S ε) (seed : AggregateId → S) : Description S ε :=
  { d with seed := some seed }

def withEvent (d : Description S ε) (name : String) (s : Schema) : Description S ε :=
  { d with events := d.events.put name s }

def withInitializer (d : Description S ε) (event : String) (decode : Decoder P) (init : P → S) :
    Description S ε :=
  { d with toFolding := d.toFolding.withInitializer event decode init }

def withReducer (d : Description S ε) (event : String) (decode : Decoder P) (step : S → P → S) :
    Description S ε :=
  { d with toFolding := d.toFolding.withReducer event decode step }

def withCommand (d : Description S ε) (name : String) (s : Schema) (decode : Decoder P)
    (handle : Entity S → P → Program ε) : Description S ε :=
  let c : Command S ε := ⟨s, .existing fun j => (decode j).map fun p e => handle e p⟩
  { d with commands := d.commands.put name c }

def withCreation (d : Description S ε) (name : String) (s : Schema) (decode : Decoder P)
    (handle : Option (Entity S) → P → Program ε) : Description S ε :=
  let c : Command S ε := ⟨s, .creating fun j => (decode j).map fun p e => handle e p⟩
  { d with commands := d.commands.put name c }

/-- The names of the commands that can make an entity, in order. -/
def creationCommands (d : Description S ε) : List String :=
  ((d.commands.entries.filter fun e => e.2.creates).map Prod.fst).mergeSort fun a b => !(b < a)

def isCreation (d : Description S ε) (name : String) : Bool :=
  ((d.commands.get? name).map Command.creates).getD false

def nameList (names : List String) : String :=
  "[" ++ ", ".intercalate (names.map Text.quoted) ++ "]"

def debugText (d : Description S ε) : String :=
  let names := (d.commands.keys).mergeSort fun a b => !(b < a)
  "EntityDescription \x7b entity_type: " ++ Text.quoted d.type ++
    s!", seeded: {d.seed.isSome}, initializers: " ++ nameList d.initializers.keys ++
    ", reducers: " ++ nameList d.reducers.keys ++ ", commands: " ++ nameList names ++ " \x7d"

end Description
end EventSourcing
