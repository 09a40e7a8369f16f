import EventSourcing.Command.Program
import EventSourcing.Rehearsal.Fault

/-!
Scripted handlers.
A script is a list of acts that a command carries in its payload.
-/
namespace EventSourcing.Rehearsal

/-- What a script can note about its command. -/
inductive Remark where
  | command
  | commandId
  | correlation
  | aggregate
  | appends
  | entity
  | env
  | text (s : String)

/-- One act of a script. A lenient append goes on where it fails. -/
inductive Act where
  | append (batch : List DomainEvent) (lenient : Bool)
  | appendWith (batch : List DomainEvent) (o : AppendOptions) (lenient : Bool)
  | reject (reason : String)
  | fail (f : Fault)
  | abort
  | sleep (ms : Nat)
  | panic
  | note (r : Remark)

namespace Act

def readBatch? : Json → Option (List DomainEvent)
  | .arr items => items.mapM fun
    | .arr [.str type, data] => some ⟨type, data⟩
    | _ => none
  | _ => none

def readText? : Option Json → Option String
  | some (.str s) => some s
  | _ => none

def readOptions (j : Json) : AppendOptions where
  expected := (j.get? "expect").bind Fault.readRevision?
  correlation := readText? (j.get? "corr")
  causation := readText? (j.get? "caus")

def readRemark (x : String) : Remark :=
  match x with
  | "command" => .command
  | "command_id" => .commandId
  | "correlation_id" => .correlation
  | "aggregate" => .aggregate
  | "appends" => .appends
  | "entity" => .entity
  | "env" => .env
  | x => .text x

def ofJson? : Json → Option Act
  | .arr [.str "append", batch] => (readBatch? batch).map fun b => .append b false
  | .arr [.str "append_event", .str type, data] => some (.append [⟨type, data⟩] false)
  | .arr [.str "append_with", batch, o] =>
    (readBatch? batch).map fun b => .appendWith b (readOptions o) false
  | .arr [.str "append_with", batch] => (readBatch? batch).map fun b => .appendWith b {} false
  | .arr [.str "try_append", batch] => (readBatch? batch).map fun b => .append b true
  | .arr [.str "try_append_with", batch, o] =>
    (readBatch? batch).map fun b => .appendWith b (readOptions o) true
  | .arr [.str "try_append_with", batch] => (readBatch? batch).map fun b => .appendWith b {} true
  | .arr [.str "reject", .str reason] => some (.reject reason)
  | .arr [.str "fail", f] => (Fault.ofJson? f).map .fail
  | .arr [.str "abort"] => some .abort
  | .arr [.str "sleep", .int ms] => some (.sleep ms.toNat)
  | .arr [.str "panic"] => some .panic
  | .arr [.str "note", .str x] => some (.note (readRemark x))
  | _ => none

end Act

/-- The acts of a payload; there are none where it has no list of them. -/
def actsOf (payload : Json) : List Act :=
  match payload.get? "do" with
  | some (.arr items) => items.filterMap Act.ofJson?
  | _ => []

/-- Goes on after an append: the new revision is noted, and so is a failure that is forgiven. -/
def afterAppend (lenient : Bool) (rest : Program String) :
    Except StoreError Revision → Program String
  | .ok r => .note { topic := "appended", value := .revision r } rest
  | .error e =>
    if lenient then .note { topic := "failed", value := .failure e } rest else .stop (.store e)

def remark (entity : Option (Entity Int)) (rest : Program String) : Remark → Program String
  | .command => .env fun v => .note { topic := "command", value := .text v.command } rest
  | .commandId => .env fun v => .note { topic := "command_id", value := .text v.commandId } rest
  | .correlation =>
    .env fun v => .note { topic := "correlation_id", value := .text v.correlation } rest
  | .aggregate => .env fun v => .note { topic := "aggregate", value := .aggregate v.aggregate } rest
  | .appends => .appends fun n => .note { topic := "appends", value := .count n } rest
  | .entity => .note { topic := "entity", value := .entity entity } rest
  | .env => .env fun v => .note { topic := "env", value := .text v.debugText } rest
  | .text s => .note { topic := s, value := .text s } rest

def playActs (entity : Option (Entity Int)) : List Act → Program String
  | [] => .done
  | .append batch lenient :: rest => .append batch (afterAppend lenient (playActs entity rest))
  | .appendWith batch o lenient :: rest =>
    .appendWith batch o (afterAppend lenient (playActs entity rest))
  | .reject reason :: _ => .reject reason
  | .fail f :: rest => .env fun v =>
    match f.error? v.aggregate with
    | some e => .stop (.store e)
    | none => playActs entity rest
  | .abort :: _ => .stop .aborted
  | .sleep ms :: rest => .sleep ms (playActs entity rest)
  | .panic :: _ => .panic
  | .note r :: rest => remark entity (playActs entity rest) r

end EventSourcing.Rehearsal
