import EventSourcing.Account.Commands
import EventSourcing.Engine.Command
import EventSourcing.Json.Printer

/-!
A demonstration.
One account is opened, and five withdrawals are made at the same time, of which the balance allows
three. What is left is the result.
-/
namespace EventSourcing.Demo

/-- A withdrawal that was refused for its own reasons does not stop the demonstration. -/
def fatal? : Except (EngineError Account.Refusal) (Entity Account) → Option
    (EngineError Account.Refusal)
  | .ok _ => none
  | .error e => if e.rejection?.isSome then none else some e

abbrev Machine := Engine (CommandResult Account Account.Refusal)

/-- Makes several calls at once and waits for all; the first that fails is the failure of all. -/
def callAll (m : CommandEngine Account Account.Refusal) (e : Machine) (calls : List CommandCall) :
    Except (EngineError Account.Refusal) Machine :=
  let (rs, e) := calls.foldl (fun (rs, e) c =>
    let (r, e) := e.spawn (m.request c false)
    (rs ++ [r], e)) (([] : List Nat), e)
  let e := e.runUntil fun e => rs.all fun r => (e.answer? r).isSome
  let failures := rs.filterMap fun r =>
    (e.answer? r).bind fun (_, o) => fatal? (CommandEngine.outcome o)
  match failures with
  | [] => .ok e
  | why :: _ => .error why

def accountId : AggregateId := ⟨Account.typeName, "demo"⟩

def opening : CommandCall where
  aggregate := accountId
  command := "open"
  payload := Json.object [("owner", .str "demo"), ("initial_deposit", .int 100)]

def withdrawal : CommandCall where
  aggregate := accountId
  command := "withdraw"
  payload := Json.object [("amount", .int 30)]

/-- Opens the account and makes the withdrawals; the account at the end. -/
def play (m : CommandEngine Account Account.Refusal) (w : World) :
    Except (EngineError Account.Refusal) (Entity Account) := do
  let (a, e) := (Engine.ofWorld w m.config.pool : Machine).callAndWait (m.request opening true)
  match a with
  | some (_, o) => discard (CommandEngine.outcome o)
  | none => pure ()
  let e ← callAll m e (List.replicate 5 withdrawal)
  match (e.perform (m.load accountId)).1 with
  | some r => r
  | none => .error (.pool .panicked)

/-- Why there is no account at the end. -/
inductive Failure where
  | engine (e : EngineError Account.Refusal)
  /-- The pool has more slots than can be counted. -/
  | tooLarge

/-- The account at the end, for a process with the given variables. -/
def run (settings : List (String × String)) (w : World) : Except Failure (Entity Account) := do
  let c := Config.ofVariables settings
  let m ← (CommandEngine.make c Account.description).mapError (.engine ∘ .config)
  if !c.pool.isCountable then throw .tooLarge
  (play m w).mapError .engine

/-- How an error is named where it ends the process. -/
def errorText : EngineError Account.Refusal → String
  | .config (.retry e) =>
    "Config(Retry(LimitTooHigh \x7b limit: " ++ toString e.limit ++ ", max: " ++
      toString Retry.maxLimit ++ " \x7d))"
  | .config .zeroConcurrency => "Config(ZeroConcurrency)"
  | .pool .shuttingDown => "Pool(ShuttingDown)"
  | .pool (.saturated waiting) => "Pool(Saturated \x7b waiting: " ++ toString waiting ++ " \x7d)"
  | .pool (.timeout limit) => "Pool(Timeout(" ++ Text.duration limit ++ "))"
  | .pool .panicked => "Pool(Panicked)"
  | .command e => "Command(" ++ e.message ++ ")"

/-- The entity as it is printed; its fields stand in the order in which they are declared. -/
def entityJson (e : Entity Account) : Json :=
  .obj [
    ("aggregate", .obj [("type", .str e.aggregate.type), ("key", .str e.aggregate.key)]),
    ("type", .str e.type),
    ("state", .obj [("owner", .str e.state.owner), ("balance", .int e.state.balance),
      ("status", .str e.state.status.name)]),
    ("revision", e.revision.toJson)]

/-- What a process prints at the end. -/
def entityText (e : Entity Account) : String := (entityJson e).pretty 0

/-- What a process prints when it fails. -/
def Failure.text : Failure → String
  | .engine e => "Error: " ++ errorText e
  | .tooLarge =>
    "a semaphore may not have more than MAX_PERMITS permits (" ++ toString PoolConfig.maxSlots ++ ")"

/-- The exit code of a process that fails. -/
def Failure.exitCode : Failure → Nat
  | .engine _ => 1
  | .tooLarge => 101

end EventSourcing.Demo
