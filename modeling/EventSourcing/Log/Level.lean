/-!
Levels of log lines.
-/
namespace EventSourcing.Log

inductive Level where
  | off
  | error
  | warn
  | info
  | debug
  | trace
  deriving DecidableEq

namespace Level

def all : List Level := [.off, .error, .warn, .info, .debug, .trace]

def name : Level → String
  | .off => "off"
  | .error => "error"
  | .warn => "warn"
  | .info => "info"
  | .debug => "debug"
  | .trace => "trace"

/-- A number in decimal digits with an optional plus sign. -/
def number? (cs : List Char) : Option Nat :=
  let ds := match cs with
    | '+' :: rest => rest
    | rest => rest
  if ds ≠ [] ∧ ds.all Char.isDigit then
    some (ds.foldl (fun n c => n * 10 + (c.toNat - 48)) 0)
  else none

/-- A level by its number or its name in either case. -/
def read? (cs : List Char) : Option Level :=
  match number? cs with
  | some n => all[n]?
  | none => all.find? fun l => l.name.toList = cs.map Char.toLower

end Level
end EventSourcing.Log
