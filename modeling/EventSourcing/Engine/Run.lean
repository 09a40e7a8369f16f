import EventSourcing.Engine.Step

/-!
Runs of the engine.
A run handles what is due, one after the other, until a goal is reached, nothing is due any more, or
the steps allowed are used up.
-/
namespace EventSourcing.Engine
variable {ρ : Type}

/-- The number of steps allowed for one run. -/
def patience : Nat := 1000000

/-- Handles what is due until a goal is reached. -/
def runFor (goal : Engine ρ → Bool) : Nat → Engine ρ → Engine ρ
  | 0, e => e
  | fuel + 1, e =>
    if goal e then e
    else match e.step? with
      | some e' => runFor goal fuel e'
      | none => e

def runUntil (goal : Engine ρ → Bool) (e : Engine ρ) : Engine ρ := runFor goal patience e

/-- Whether nothing is due before a time. -/
def quietBefore (t : Nat) (e : Engine ρ) : Bool :=
  match e.agenda with
  | [] => true
  | d :: _ => t ≤ d.time

/-- Lets time pass up to a moment; what is due at that moment has not been handled. -/
def passTo (e : Engine ρ) (t : Nat) : Engine ρ :=
  let e := e.runUntil (quietBefore t)
  { e with world.now := max e.now t }

/-- Handles all that is due now. -/
def settle (e : Engine ρ) : Engine ρ := e.runUntil (quietBefore (e.now + 1))

/-- Calls a request and lets time pass until it is answered. -/
def callAndWait (e : Engine ρ) (q : Request ρ) : Option (Nat × Ending ρ) × Engine ρ :=
  let (r, e) := e.add q
  let e := (e.onCall r).runUntil fun e => (e.answer? r).isSome
  (e.answer? r, e)

/-- Makes a request in the background, which is called when the caller next waits. -/
def spawn (e : Engine ρ) (q : Request ρ) : Nat × Engine ρ :=
  let (r, e) := e.add q
  (r, e.wake .background (.call r))

/-- Asks the pool to shut down and waits for the report. -/
def shutDown (e : Engine ρ) : Option (Nat × DrainReport) × Engine ρ :=
  let (d, e) := e.addDrain { foreground := true }
  let e := (e.onClose d).runUntil fun e => (e.report? d).isSome
  (e.report? d, e)

/-- Asks the pool to shut down when the caller next waits. -/
def spawnShutDown (e : Engine ρ) : Nat × Engine ρ :=
  let (d, e) := e.addDrain { foreground := false }
  (d, e.wake .background (.close d))

/-- Runs an activity in front, while the rest goes on in the background whenever it waits. -/
def performFor (fuel : Nat) {α : Type} (a : Activity α) (e : Engine ρ) : Option α × Engine ρ :=
  match fuel with
  | 0 => (none, e)
  | fuel + 1 =>
    let (w, pause) := a.advance false e.world
    let e := { e with world := w }
    match pause with
    | .finished x => (some x, e)
    | .panicked => (none, e)
    | .asleep ms _ rest => performFor fuel (rest false) (e.passTo (e.now + ms))

def perform {α : Type} (a : Activity α) (e : Engine ρ) : Option α × Engine ρ :=
  performFor patience a e

end EventSourcing.Engine
