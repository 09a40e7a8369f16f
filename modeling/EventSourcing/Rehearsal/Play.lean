import EventSourcing.Engine.Run

/-!
Plays.
A play is a list of steps that a caller in front takes with an engine. A step may start something in
the background, whose result is collected later.
-/
namespace EventSourcing.Rehearsal

/-- What was started in the background. -/
inductive Handle where
  | request (r : Nat)
  | drain (d : Nat)
  deriving DecidableEq

/-- The result of what was started, with the time at which it came. -/
inductive Finish (ρ : Type) where
  | request (time : Nat) (o : Ending ρ)
  | drain (time : Nat) (report : DrainReport)

structure Play (ρ : Type) where
  engine : Engine ρ
  /-- What was started and not collected, with the number of its step. -/
  unjoined : List (Nat × Handle) := []

namespace Play
variable {ρ : Type}

def finish? (e : Engine ρ) : Handle → Option (Finish ρ)
  | .request r => (e.answer? r).map fun (t, o) => .request t o
  | .drain d => (e.report? d).map fun (t, report) => .drain t report

def map (p : Play ρ) (f : Engine ρ → Engine ρ) : Play ρ := { p with engine := f p.engine }

/-- Remembers what a step started. -/
def started (p : Play ρ) (step : Nat) (h : Handle) : Play ρ :=
  { p with unjoined := p.unjoined ++ [(step, h)] }

def spawn (p : Play ρ) (step : Nat) (q : Request ρ) : Play ρ :=
  let (r, e) := p.engine.spawn q
  { p with engine := e }.started step (.request r)

def spawnShutDown (p : Play ρ) (step : Nat) : Play ρ :=
  let (d, e) := p.engine.spawnShutDown
  { p with engine := e }.started step (.drain d)

def sleep (p : Play ρ) (ms : Nat) : Play ρ :=
  if ms = 0 then p else p.map fun e => e.passTo (e.now + Activity.sleepSpan ms)

/-- Whether all that was started has ended. -/
def isOver (p : Play ρ) (e : Engine ρ) : Bool := p.unjoined.all fun h => (finish? e h.2).isSome

/-- Waits for all that was started, and collects the results in the order of the steps. If it has
to wait, all else that is due when the last result comes is handled too. -/
def join (p : Play ρ) : List (Nat × Finish ρ) × Play ρ :=
  let e := if p.isOver p.engine then p.engine else (p.engine.runUntil p.isOver).settle
  (p.unjoined.filterMap fun h => (finish? e h.2).map fun f => (h.1, f), { engine := e })

end Play

/-- The world in which a play begins. -/
def stageWorld (reading : Reading) (shares : Nat → Float) : World :=
  { readings := fun _ => reading, shares }

end EventSourcing.Rehearsal
