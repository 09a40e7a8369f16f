import EventSourcing.Account
import EventSourcing.Command.Description
import EventSourcing.Rehearsal.Script

/-!
Tallies.
A tally is an entity whose state is one whole number. Its description is put together from a few
ready-made parts.
-/
namespace EventSourcing.Rehearsal

/-- The payload of events that carry an amount. -/
def amountDecoder : Decoder Int :=
  .record "Amount" <| id <$> .required "amount" .int64

def amountJson (n : Int) : Json := Json.object [("amount", .int n)]

namespace Tally

/-- The state of a tally before its first event. -/
inductive Seed where
  | number (n : Int)
  /-- The number of bytes of the key. -/
  | keyLength

/-- How an event starts a tally. -/
inductive Opening where
  | amount
  | one

/-- How an event changes a tally. -/
inductive Change where
  | add
  | set
  | count

inductive HandlerKind where
  | increment
  | decrement
  | script

/-- One step in putting a description together. -/
inductive Part where
  | seed (s : Seed)
  | state (s : Schema)
  | event (name : String) (s : Schema)
  | opening (event : String) (o : Opening)
  | change (event : String) (c : Change)
  | command (name : String) (s : Schema) (h : HandlerKind) (creates : Bool)

def eventName : String := "incremented"

def incrementProgram (amount : Int) : Program String :=
  if amount = 0 then .done else .appendEvent eventName (amountJson amount)

/-- A tally that is not there counts as zero. -/
def decrementProgram (state : Option Int) (amount : Int) : Program String :=
  if state.getD 0 < amount then .reject "counter would go negative"
  else .appendEvent eventName (amountJson (Account.clamp (-amount)))

def addCommand (d : Description Int String) (name : String) (s : Schema) (creates : Bool) :
    HandlerKind → Description Int String
  | .increment =>
    if creates then d.withCreation name s amountDecoder fun _ n => incrementProgram n
    else d.withCommand name s amountDecoder fun _ n => incrementProgram n
  | .decrement =>
    if creates then
      d.withCreation name s amountDecoder fun e n => decrementProgram (e.map Entity.state) n
    else d.withCommand name s amountDecoder fun e n => decrementProgram (some e.state) n
  | .script =>
    if creates then d.withCreation name s .json fun e j => playActs e (actsOf j)
    else d.withCommand name s .json fun e j => playActs (some e) (actsOf j)

def addPart (d : Description Int String) : Part → Description Int String
  | .seed (.number n) => d.withSeed fun _ => n
  | .seed .keyLength => d.withSeed fun a => a.key.utf8ByteSize
  | .state s => d.withState s
  | .event name s => d.withEvent name s
  | .opening event .amount => d.withInitializer event amountDecoder id
  | .opening event .one => d.withInitializer event .json fun _ => 1
  | .change event .add => d.withReducer event amountDecoder fun n m => Account.clamp (n + m)
  | .change event .set => d.withReducer event amountDecoder fun _ m => m
  | .change event .count => d.withReducer event .json fun n _ => Account.clamp (n + 1)
  | .command name s h creates => addCommand d name s creates h

def description (type : String) (parts : List Part) : Description Int String :=
  parts.foldl addPart (.ofType type)

end Tally
end EventSourcing.Rehearsal
