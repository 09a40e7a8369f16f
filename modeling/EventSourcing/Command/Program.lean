import EventSourcing.Command.Error
import EventSourcing.Store.Access

/-!
Programs of command handlers.
A handler appends events to the log of its own aggregate only. The environment numbers the command
and ties the appended events together: they carry the correlation of the request, and each batch
names the one before it, or the command itself, as its cause. A plain append expects the head that
the handler knows of, so that it fails where somebody else has written in between.
-/
namespace EventSourcing

/-- What a handler knows about the command it runs for. -/
structure CommandEnv where
  aggregate : AggregateId
  command : String
  commandId : String
  correlation : String
  deriving DecidableEq

namespace CommandEnv

/-- The environment of a command that drew the given identifier. Without a correlation of its own
the command is its own request. -/
def make (a : AggregateId) (command : String) (fresh : Ulid) (correlation : Option String) :
    CommandEnv :=
  let id := s!"{command}:{fresh.text}"
  ⟨a, command, id, correlation.getD id⟩

def debugText (e : CommandEnv) : String :=
  "CommandEnv \x7b aggregate: AggregateId \x7b aggregate_type: " ++ Text.quoted e.aggregate.type ++
    ", key: " ++ Text.quoted e.aggregate.key ++ " \x7d, command: " ++ Text.quoted e.command ++
    ", command_id: " ++ Text.quoted e.commandId ++
    ", correlation_id: " ++ Text.quoted e.correlation ++ ", .. \x7d"

end CommandEnv

/-- How far a handler has come with its appends. -/
structure AppendCursor where
  /-- The head it knows of. -/
  expected : Revision
  appends : Nat := 0
  /-- The revision of its own last append. -/
  last : Option Revision := none
  deriving DecidableEq

namespace AppendCursor

def atHead (head : Revision) : AppendCursor := { expected := head }

def moved (c : AppendCursor) (r : Revision) : AppendCursor := ⟨r, c.appends + 1, some r⟩

/-- Fills in the ids that an append leaves open. -/
def trace (c : AppendCursor) (env : CommandEnv) (o : AppendOptions) : AppendOptions :=
  { o with
    correlation := some (o.correlation.getD env.correlation)
    causation := some (o.causation.getD
      (match c.last with
      | some r => r.text
      | none => env.commandId)) }

end AppendCursor

/-- What a handler does. -/
inductive Program (ε : Type) where
  | done
  | stop (e : CommandError ε)
  | panic
  | env (k : CommandEnv → Program ε)
  /-- The number of successful appends so far. -/
  | appends (k : Nat → Program ε)
  | append (batch : List DomainEvent) (k : Except StoreError Revision → Program ε)
  /-- Appends with a choice of its own about what head to expect. -/
  | appendWith (batch : List DomainEvent) (o : AppendOptions)
      (k : Except StoreError Revision → Program ε)
  | sleep (ms : Nat) (k : Program ε)
  | note (n : Note) (k : Program ε)

namespace Program
variable {ε : Type}

/-- Appends one event; a failed append ends the handler. -/
def appendEvent (type : String) (data : Json) : Program ε :=
  .append [⟨type, data⟩] fun
    | .ok _ => .done
    | .error e => .stop (.store e)

def reject (reason : ε) : Program ε := .stop (.rejected reason)

def run (s : StoreAccess) (env : CommandEnv) :
    Program ε → AppendCursor → Activity (Except (CommandError ε) Unit × AppendCursor)
  | .done, c => .done (.ok (), c)
  | .stop e, c => .done (.error e, c)
  | .panic, _ => .panic
  | .env k, c => (k env).run s env c
  | .appends k, c => (k c.appends).run s env c
  | .append batch k, c =>
    (s.append env.aggregate batch (c.trace env (.expect c.expected))).bind fun
      | .ok r => (k (.ok r)).run s env (c.moved r)
      | .error e => (k (.error e)).run s env c
  | .appendWith batch o k, c =>
    (s.append env.aggregate batch (c.trace env o)).bind fun
      | .ok r => (k (.ok r)).run s env (c.moved r)
      | .error e => (k (.error e)).run s env c
  | .sleep ms k, c => .sleep ms (k.run s env c)
  | .note n k, c => .note n (k.run s env c)

end Program
end EventSourcing
