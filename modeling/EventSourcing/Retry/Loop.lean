import EventSourcing.Activity
import EventSourcing.Retry.Backoff

/-!
Trying again.
An operation is attempted until its outcome is accepted or the attempts of the policy are used up.
Each outcome but that of the last attempt is judged; success and failure are judged alike.
-/
namespace EventSourcing.Retry
variable {ρ : Type}

/-- Waits after an attempt and then goes on. A wait of the policy's own has a random part. -/
def pauseThen (p : Policy) (attempt : Nat) (k : Activity ρ) : Decision → Activity ρ
  | .retryAfter ms => .count .retryAttempts (.sleep ms k)
  | _ =>
    if drawsJitter Float p.delay attempt then
      .share fun x => .count .retryAttempts (.sleep (backoff p.delay attempt x) k)
    else .count .retryAttempts (.sleep (backoff p.delay attempt (0 : Float)) k)

/-- Attempt number `attempt` and at most `further` ones after it. -/
def attemptFrom (p : Policy) (operation : Nat → Activity ρ) (judge : Nat → ρ → Activity Decision) :
    Nat → Nat → Activity ρ
  | attempt, 0 => operation attempt
  | attempt, further + 1 =>
    (operation attempt).bind fun outcome =>
      (judge attempt outcome).bind fun decision =>
        match decision with
        | .stop => .done outcome
        | d => pauseThen p attempt (attemptFrom p operation judge (attempt + 1) further) d

def attempts (p : Policy) (operation : Nat → Activity ρ) (judge : Nat → ρ → Activity Decision) :
    Activity ρ :=
  attemptFrom p operation judge 1 (p.attempts - 1)

/-- Attempts under a policy, unless the policy is refused. -/
def retry (p : Policy) (operation : Nat → Activity ρ) (judge : Nat → ρ → Activity Decision) :
    Except LimitTooHigh (Activity ρ) := do
  p.validate
  return attempts p operation judge

end EventSourcing.Retry
