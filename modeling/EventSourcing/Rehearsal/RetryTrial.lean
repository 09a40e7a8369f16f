import EventSourcing.Rehearsal.Play
import EventSourcing.Retry.Loop

/-!
Trials of retrying.
Outcomes and decisions are given as lists, of which the last one stays.
-/
namespace EventSourcing.Rehearsal

/-- A decision, as far as it is known before the outcome. -/
inductive Rule where
  | always (d : Retry.Decision)
  /-- Tries again after a failure. -/
  | onError

def Rule.decide (r : Rule) (failed : Bool) : Retry.Decision :=
  match r with
  | .always d => d
  | .onError => .ofBool failed

namespace RetryTrial

/-- Item number n, or the last one. -/
def stay {α : Type} (xs : List α) (n : Nat) : Option α := xs[min n (xs.length - 1)]?

structure Report where
  outcome : Except Json Json
  /-- When the attempts were made. -/
  attempts : List Nat
  elapsed : Nat

def attempt (outcomes : List (Except Json Json)) (n : Nat) : Activity (Except Json Json) :=
  .note { topic := "attempt", value := .count n }
    (.done ((stay outcomes (n - 1)).getD (.error .null)))

def judge (rules : List Rule) (n : Nat) (o : Except Json Json) : Activity Retry.Decision :=
  let failed := match o with
    | .ok _ => false
    | .error _ => true
  .done (((stay rules (n - 1)).map fun r => r.decide failed).getD .stop)

def run (p : Retry.Policy) (w : World) (outcomes : List (Except Json Json)) (rules : List Rule) :
    Except Retry.LimitTooHigh Report := do
  let activity ← Retry.retry p (attempt outcomes) (judge rules)
  let (result, w') := activity.run w
  return ⟨result.getD (.error .null), w'.notes.reverse.map Prod.fst, w'.now - w.now⟩

end RetryTrial
end EventSourcing.Rehearsal
