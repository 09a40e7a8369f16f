import EventSourcing.Assoc

/-!
Counts of what a process has done.
A metric exists once it has been recorded. Histograms are kept as the number of their recordings.
-/
namespace EventSourcing

/-- The ways in which a command can end, as far as they are counted apart. -/
inductive Outcome where
  | ok
  | handlerNotFound
  | validation
  | notAvailable
  | typeMismatch
  | conflict
  | eventStore
  | deserialization
  | aborted
  | rejected
  deriving DecidableEq

def Outcome.label : Outcome → String
  | .ok => "ok"
  | .handlerNotFound => "handler_not_found"
  | .validation => "validation"
  | .notAvailable => "not_available"
  | .typeMismatch => "type_mismatch"
  | .conflict => "conflict"
  | .eventStore => "event_store"
  | .deserialization => "deserialization"
  | .aborted => "serializer"
  | .rejected => "rejected"

inductive Metric where
  | retryAttempts
  | appends
  | conflicts
  | poolTimeouts
  /-- The number of lanes in use; it goes up and down. -/
  | activeLanes
  | dispatches (command : String) (outcome : Outcome)
  | durations (outcome : Outcome)
  deriving DecidableEq

def Metric.name : Metric → String
  | .retryAttempts => "retry_attempts_total"
  | .appends => "event_store_appends_total"
  | .conflicts => "event_store_conflicts_total"
  | .poolTimeouts => "worker_pool_timeouts_total"
  | .activeLanes => "serializer_queues_active"
  | .dispatches command outcome =>
    "commands_dispatched_total\x7bcommand=" ++ command ++ ",outcome=" ++ outcome.label ++ "\x7d"
  | .durations outcome => "command_duration_seconds\x7boutcome=" ++ outcome.label ++ "\x7d"

structure Metrics where
  values : Assoc Metric Nat := ∅

namespace Metrics

def get (m : Metrics) (k : Metric) : Nat := (m.values.get? k).getD 0

def set (m : Metrics) (k : Metric) (n : Nat) : Metrics := ⟨m.values.put k n⟩

def count (m : Metrics) (k : Metric) : Metrics := m.set k (m.get k + 1)

end Metrics
end EventSourcing
