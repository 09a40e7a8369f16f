import EventSourcing.World

/-!
Activities.
An activity is work in small steps: it asks the store, draws numbers, counts, leaves notes, waits,
and at last has a result, or breaks down. Between two waits it runs without interruption.
-/
namespace EventSourcing

inductive Activity (α : Type) where
  | done (a : α)
  /-- The work breaks down. -/
  | panic
  | load (a : AggregateId) (k : Except StoreError (List RecordedEvent) → Activity α)
  | append (a : AggregateId) (batch : List DomainEvent) (o : AppendOptions)
      (k : Except StoreError Revision → Activity α)
  | draw (k : Ulid → Activity α)
  /-- Draws the random share of a wait. -/
  | share (k : Float → Activity α)
  | count (m : Metric) (k : Activity α)
  | note (n : Note) (k : Activity α)
  | sleep (ms : Nat) (k : Activity α)
  /-- Sleeps, but no longer than until the work is asked to stop; says whether it was. -/
  | sleepUnlessCancelled (ms : Nat) (k : Bool → Activity α)
  /-- Whether the work has been asked to stop. -/
  | cancelled (k : Bool → Activity α)

namespace Activity
variable {α β : Type}

def bind : Activity α → (α → Activity β) → Activity β
  | .done a, f => f a
  | .panic, _ => .panic
  | .load a k, f => .load a fun r => (k r).bind f
  | .append a batch o k, f => .append a batch o fun r => (k r).bind f
  | .draw k, f => .draw fun u => (k u).bind f
  | .share k, f => .share fun x => (k x).bind f
  | .count m k, f => .count m (k.bind f)
  | .note n k, f => .note n (k.bind f)
  | .sleep ms k, f => .sleep ms (k.bind f)
  | .sleepUnlessCancelled ms k, f => .sleepUnlessCancelled ms fun b => (k b).bind f
  | .cancelled k, f => .cancelled fun b => (k b).bind f

instance : Monad Activity where
  pure := .done
  bind := bind

@[simp] theorem bind_done (a : α) (f : α → Activity β) : (Activity.done a).bind f = f a := rfl

theorem bind_assoc {γ : Type} (x : Activity α) (f : α → Activity β) (g : β → Activity γ) :
    (x.bind f).bind g = x.bind fun a => (f a).bind g := by
  induction x with
  | done a => rfl
  | panic => rfl
  | load a k ih => simp only [bind, ih]
  | append a batch o k ih => simp only [bind, ih]
  | draw k ih => simp only [bind, ih]
  | share k ih => simp only [bind, ih]
  | count m k ih => simp only [bind, ih]
  | note n k ih => simp only [bind, ih]
  | sleep ms k ih => simp only [bind, ih]
  | sleepUnlessCancelled ms k ih => simp only [bind, ih]
  | cancelled k ih => simp only [bind, ih]

theorem bind_pure (x : Activity α) : x.bind .done = x := by
  induction x with
  | done a => rfl
  | panic => rfl
  | load a k ih => simp only [bind, ih]
  | append a batch o k ih => simp only [bind, ih]
  | draw k ih => simp only [bind, ih]
  | share k ih => simp only [bind, ih]
  | count m k ih => simp only [bind, ih]
  | note n k ih => simp only [bind, ih]
  | sleep ms k ih => simp only [bind, ih]
  | sleepUnlessCancelled ms k ih => simp only [bind, ih]
  | cancelled k ih => simp only [bind, ih]

/-- The longest sleep in milliseconds: thirty years of 365 days. -/
def longestSleep : Nat := 946080000000

/-- How long a sleep lasts that was asked to last for a number of milliseconds. -/
def sleepSpan (ms : Nat) : Nat := min ms longestSleep

/-- What an activity is doing once it has run as far as it can at one moment. -/
inductive Pause (α : Type) where
  | finished (a : α)
  | panicked
  /-- Waits for a number of milliseconds; a wakeable wait ends early when the work is asked to
  stop. The rest is told whether it was. -/
  | asleep (ms : Nat) (wakeable : Bool) (rest : Bool → Activity α)

/-- Runs an activity up to its end or to its next wait. -/
def advance (cancelled : Bool) : Activity α → World → World × Pause α
  | .done a, w => (w, .finished a)
  | .panic, w => (w, .panicked)
  | .load a k, w => (k (w.load a).1).advance cancelled (w.load a).2
  | .append a batch o k, w => (k (w.append a batch o).1).advance cancelled (w.append a batch o).2
  | .draw k, w => (k w.draw.1).advance cancelled w.draw.2
  | .share k, w => (k w.share.1).advance cancelled w.share.2
  | .count m k, w => k.advance cancelled (w.count m)
  | .note n k, w => k.advance cancelled (w.note n)
  | .sleep ms k, w =>
    if ms = 0 then k.advance cancelled w else (w, .asleep (sleepSpan ms) false fun _ => k)
  | .sleepUnlessCancelled ms k, w =>
    if cancelled then (k true).advance cancelled w
    else if ms = 0 then (k false).advance cancelled w
    else (w, .asleep (sleepSpan ms) true k)
  | .cancelled k, w => (k cancelled).advance cancelled w

/-- Runs an activity on its own to its end, letting time pass. There is no result where it breaks
down. -/
def run : Activity α → World → Option α × World
  | .done a, w => (some a, w)
  | .panic, w => (none, w)
  | .load a k, w => (k (w.load a).1).run (w.load a).2
  | .append a batch o k, w => (k (w.append a batch o).1).run (w.append a batch o).2
  | .draw k, w => (k w.draw.1).run w.draw.2
  | .share k, w => (k w.share.1).run w.share.2
  | .count m k, w => k.run (w.count m)
  | .note n k, w => k.run (w.note n)
  | .sleep ms k, w => k.run { w with now := w.now + sleepSpan ms }
  | .sleepUnlessCancelled ms k, w => (k false).run { w with now := w.now + sleepSpan ms }
  | .cancelled k, w => (k false).run w

end Activity
end EventSourcing
