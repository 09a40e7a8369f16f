import Std.Time.DateTime.Timestamp
import EventSourcing.Demo

/-!
The command line of the demonstration.
-/
namespace EventSourcing

def variableNames : List String :=
  ["RUST_LOG", "LOG_FORMAT", "RETRY_LIMIT", "RETRY_DELAY_MS", "POOL_MAX_CONCURRENCY",
    "POOL_MAX_PENDING", "POOL_TIMEOUT_MS", "POOL_SHUTDOWN_TIMEOUT_MS"]

/-- The variables that are set. -/
def setVariables : IO (List (String × String)) :=
  variableNames.filterMapM fun name => do
    return (← IO.getEnv name).map fun value => (name, value)

/-- What the wall clock and the random source show. -/
def takeReading : IO Reading := do
  let now ← Std.Time.Timestamp.now
  let bytes ← IO.getRandomBytes 10
  return ⟨now.toMillisecondsSinceUnixEpoch.val.toNat,
    bytes.toList.foldl (fun n b => n * 256 + b.toNat) 0⟩

end EventSourcing

open EventSourcing in
def main : IO UInt32 := do
  let reading ← takeReading
  let world : World := { readings := fun _ => reading, shares := fun _ => 0.5 }
  match Demo.run (← setVariables) world with
  | .ok e =>
    IO.println (Demo.entityText e)
    return 0
  | .error f =>
    IO.eprintln f.text
    return f.exitCode.toUInt32
