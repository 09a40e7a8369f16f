import EventSourcing.Rehearsal.Play

/-!
Trials of a pool.
The work of a trial only sleeps and leaves notes about when it starts and ends.
-/
namespace EventSourcing.Rehearsal

structure PoolJob where
  name : String
  ms : Nat
  limit : Option Nat := none
  panics : Bool := false
  /-- Ends as soon as it is asked to. -/
  heedsCancel : Bool := false

inductive PoolStep where
  | execute (job : PoolJob) (spawn : Bool)
  | shutDown (spawn : Bool)
  | probe
  | config
  | debug
  | sleep (ms : Nat)
  | join
  | metrics

inductive PoolReply where
  | ended (f : Finish (Option String))
  | spawned
  | probed (inFlight : Nat) (closing : Bool)
  | config (c : PoolConfig)
  | text (s : String)
  | time (ms : Nat)
  | joined (results : List (Nat × Finish (Option String)))
  | metrics (m : Metrics)
  | nothing

namespace PoolJob

def note (j : PoolJob) (what : String) : Note := { topic := j.name, value := .text what }

/-- The end of a job that was not stopped before. -/
def ending (j : PoolJob) : Activity (Option String) :=
  if j.panics then .panic
  else .cancelled fun late =>
    .note (j.note (if late then "end_late" else "end")) (.done (some j.name))

def activity (j : PoolJob) : Activity (Option String) :=
  .note (j.note "start") <|
    if j.heedsCancel then
      .sleepUnlessCancelled j.ms fun cancelled =>
        if cancelled then .note (j.note "cancelled") (.done none) else j.ending
    else .sleep j.ms j.ending

/-- Without a limit of its own a job has that of the pool. -/
def request (j : PoolJob) (c : PoolConfig) (foreground : Bool) : Request (Option String) where
  route := .pool
  limit := some (j.limit.getD c.defaultTimeout)
  foreground := foreground
  work := .fresh j.activity

end PoolJob

namespace PoolTrial

def reply (f : Option (Finish (Option String))) : PoolReply := (f.map .ended).getD .nothing

def step (p : Play (Option String)) (i : Nat) : PoolStep → PoolReply × Play (Option String)
  | .execute job true => (.spawned, p.spawn i (job.request p.engine.pool.config false))
  | .execute job false =>
    let (a, e) := p.engine.callAndWait (job.request p.engine.pool.config true)
    (reply (a.map fun (t, o) => .request t o), { p with engine := e })
  | .shutDown true => (.spawned, p.spawnShutDown i)
  | .shutDown false =>
    let (a, e) := p.engine.shutDown
    (reply (a.map fun (t, report) => .drain t report), { p with engine := e })
  | .probe => (.probed p.engine.pool.inFlight p.engine.pool.closing, p)
  | .config => (.config p.engine.pool.config, p)
  | .debug => (.text p.engine.pool.debugText, p)
  | .sleep ms =>
    let p := p.sleep ms
    (.time p.engine.now, p)
  | .join =>
    let (results, p) := p.join
    (.joined results, p)
  | .metrics => (.metrics p.engine.world.metrics, p)

def steps (p : Play (Option String)) (i : Nat) :
    List PoolStep → List PoolReply × Play (Option String)
  | [] => ([], p)
  | s :: rest =>
    let (a, p) := step p i s
    let (as, p) := steps p (i + 1) rest
    (a :: as, p)

structure Report where
  steps : List PoolReply
  background : List (Nat × Finish (Option String))
  /-- Notes in the order in which they were left, with their times. -/
  notes : List (Nat × Note)

/-- Runs a trial, unless the pool cannot be made. -/
def run? (c : PoolConfig) (w : World) (script : List PoolStep) : Option Report :=
  if c.isCountable then
    let (replies, p) := steps { engine := .ofWorld w c } 0 script
    let (background, p) := p.join
    some ⟨replies, background, p.engine.world.notes.reverse⟩
  else none

end PoolTrial
end EventSourcing.Rehearsal
