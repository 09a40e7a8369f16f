import EventSourcing.Pool
import EventSourcing.Retry
import EventSourcing.Text.Blank
import EventSourcing.Word

/-!
Settings of a process.
Settings are read from named variables. A number may have blanks around it and one plus sign; a
variable that is absent, or that holds no number in range, leaves its setting as it is.
-/
namespace EventSourcing

structure Config where
  logLevel : String := "info"
  logJson : Bool := false
  retry : Retry.Policy := {}
  pool : PoolConfig := {}
  deriving DecidableEq

inductive ConfigError where
  | retry (error : Retry.LimitTooHigh)
  | zeroConcurrency
  deriving DecidableEq

def ConfigError.message : ConfigError → String
  | .retry error => s!"Invalid retry policy: {error.message}"
  | .zeroConcurrency => "Pool concurrency must be at least 1"

namespace Config

/-- A number below a bound, in decimal digits. -/
def readNumber? (bound : Nat) (s : String) : Option Nat :=
  let cs := match Text.trim s.toList with
    | '+' :: rest => rest
    | rest => rest
  if cs ≠ [] ∧ cs.all Char.isDigit then
    let n := cs.foldl (fun n c => n * 10 + (c.toNat - 48)) 0
    if n < bound then some n else none
  else none

/-- The settings that variables ask for. -/
def ofVariables (settings : List (String × String)) : Config :=
  let d : Config := {}
  let number (name : String) (bits default : Nat) : Nat :=
    ((settings.lookup name).bind (readNumber? (Word.count bits))).getD default
  { logLevel := (settings.lookup "RUST_LOG").getD d.logLevel
    logJson := ((settings.lookup "LOG_FORMAT").map fun s => decide (s.toLower = "json")).getD d.logJson
    retry :=
      { limit := number "RETRY_LIMIT" 32 d.retry.limit
        delay := number "RETRY_DELAY_MS" 64 d.retry.delay }
    pool :=
      { maxConcurrency := number "POOL_MAX_CONCURRENCY" 64 d.pool.maxConcurrency
        maxPending := number "POOL_MAX_PENDING" 64 d.pool.maxPending
        defaultTimeout := number "POOL_TIMEOUT_MS" 64 d.pool.defaultTimeout
        shutdownTimeout := number "POOL_SHUTDOWN_TIMEOUT_MS" 64 d.pool.shutdownTimeout } }

/-- The retry policy is checked first. -/
def validate (c : Config) : Except ConfigError Unit := do
  c.retry.validate.mapError ConfigError.retry
  if c.pool.maxConcurrency = 0 then throw .zeroConcurrency

end Config
end EventSourcing
