import EventSourcing.Command.Description
import EventSourcing.Entity.Loader

/-!
Dispatching commands.
A command is checked in order: that it is known, that its payload fits its schema and can be read,
and, for an id, that the entity can be loaded. Then its handler runs, and the entity is loaded again
if the handler appended anything. Each dispatch is counted once with its outcome.
-/
namespace EventSourcing

/-- The entity a command is for: an id, or an entity as it was found earlier. -/
inductive Target (S : Type) where
  | id (a : AggregateId)
  | loaded (e : Entity S)

def Target.aggregate {S : Type} : Target S → AggregateId
  | .id a => a
  | .loaded e => e.aggregate

/-- A command as it is sent. -/
structure CommandRequest (S : Type) where
  command : String
  target : Target S
  payload : Json
  correlation : Option String := none

namespace Description
variable {S ε : Type}

/-- Finds the handler's program for a request, without touching the store. -/
def prepare (d : Description S ε) (q : CommandRequest S) :
    Except (CommandError ε) (Option (Entity S) → Program ε) :=
  match d.commands.get? q.command with
  | none => .error (.handlerNotFound d.type q.command)
  | some c =>
    match c.schema.validate q.payload with
    | .error e => .error (.validation e)
    | .ok _ =>
      match c.prepare q.target.aggregate q.payload with
      | .error e => .error (.validation (.ofDecode e))
      | .ok program => .ok program

/-- The entity a command finds, and the head of its log. An entity found earlier is taken as it
is. -/
def findTarget (d : Description S ε) (s : StoreAccess) :
    Target S → Activity (Except (CommandError ε) (Option (Entity S) × Revision))
  | .loaded e => .done (.ok (some e, e.head))
  | .id a => (d.loadReplay s a).bind fun
    | .error e => .done (.error (.ofEntity e))
    | .ok r => .done (.ok (r.entity?, r.head))

/-- Answers after the handler is done: with the entity as it is stored now if anything was
appended, else as it was found. -/
def answer (d : Description S ε) (s : StoreAccess) (a : AggregateId) (found : Option (Entity S)) :
    Except (CommandError ε) Unit × AppendCursor → Activity (Except (CommandError ε) (Entity S))
  | (.error e, _) => .done (.error e)
  | (.ok _, c) =>
    if c.appends = 0 then
      match found with
      | some e => .done (.ok e)
      | none => .done (.error (.notAvailable a))
    else (d.load s a).bind fun r => .done (r.mapError .ofEntity)

/-- Runs the program of a command on the entity that was found. -/
def execute (d : Description S ε) (s : StoreAccess) (q : CommandRequest S)
    (program : Option (Entity S) → Program ε) (found : Option (Entity S)) (head : Revision) :
    Activity (Except (CommandError ε) (Entity S)) :=
  .draw fun fresh =>
    let env := CommandEnv.make q.target.aggregate q.command fresh q.correlation
    ((program found).run s env (.atHead head)).bind (d.answer s q.target.aggregate found)

/-- Carries out a request, without counting it. -/
def carryOut (d : Description S ε) (s : StoreAccess) (q : CommandRequest S) :
    Activity (Except (CommandError ε) (Entity S)) :=
  match d.prepare q with
  | .error e => .done (.error e)
  | .ok program =>
    (d.findTarget s q.target).bind fun
      | .error e => .done (.error e)
      | .ok (found, head) => d.execute s q program found head

def outcomeOf : Except (CommandError ε) (Entity S) → Outcome
  | .ok _ => .ok
  | .error e => e.outcome

def dispatch (d : Description S ε) (s : StoreAccess) (q : CommandRequest S) :
    Activity (Except (CommandError ε) (Entity S)) :=
  (d.carryOut s q).bind fun r =>
    .count (.dispatches q.command (outcomeOf r)) (.count (.durations (outcomeOf r)) (.done r))

end Description
end EventSourcing
