import EventSourcing.Rehearsal.Play

/-!
Trials of lanes.
A trial has phases, each with a time of its own, over the same lanes. A phase that is abandoned does
not wait for its jobs; their workers die.
-/
namespace EventSourcing.Rehearsal

structure LaneJob where
  name : String
  aggregate : AggregateId
  ms : Nat
  panics : Bool := false

inductive LaneStep where
  /-- Puts a job into its lane at once; nobody waits for a dropped one. -/
  | submit (job : LaneJob) (dropped : Bool)
  | run (job : LaneJob) (spawn : Bool)
  | probe
  | debug
  | sleep (ms : Nat)
  | join
  | metrics

inductive LaneReply where
  | size (n : Nat)
  | ended (f : Finish String)
  | spawned
  | text (s : String)
  | time (ms : Nat)
  | joined (results : List (Nat × Finish String))
  | metrics (m : Metrics)
  | nothing

structure LanePhase where
  steps : List LaneStep
  abandon : Bool := false

namespace LaneJob

def note (j : LaneJob) (what : String) : Note :=
  { aggregate := some j.aggregate, topic := j.name, value := .text what }

def activity (j : LaneJob) : Activity String :=
  .note (j.note "start") <| .sleep j.ms <|
    if j.panics then .panic else .note (j.note "end") (.done j.name)

def request (j : LaneJob) (foreground : Bool) : Request String where
  route := .lane j.aggregate
  limit := none
  foreground := foreground
  work := .fresh j.activity

end LaneJob

namespace LaneTrial

def step (p : Play String) (i : Nat) : LaneStep → LaneReply × Play String
  | .submit job dropped =>
    let (r, e) := p.engine.add (job.request false)
    let e := e.onCall r
    let p := { p with engine := e }
    (.size e.lanes.size, if dropped then p else p.started i (.request r))
  | .run job true => (.spawned, p.spawn i (job.request false))
  | .run job false =>
    let (a, e) := p.engine.callAndWait (job.request true)
    ((a.map fun (t, o) => .ended (.request t o)).getD .nothing, { p with engine := e })
  | .probe => (.size p.engine.lanes.size, p)
  | .debug => (.text p.engine.lanes.debugText, p)
  | .sleep ms =>
    let p := p.sleep ms
    (.time p.engine.now, p)
  | .join =>
    let (results, p) := p.join
    (.joined results, p)
  | .metrics => (.metrics p.engine.world.metrics, p)

def steps (p : Play String) (i : Nat) : List LaneStep → List LaneReply × Play String
  | [] => ([], p)
  | s :: rest =>
    let (a, p) := step p i s
    let (as, p) := steps p (i + 1) rest
    (a :: as, p)

structure Report where
  steps : List LaneReply
  /-- Missing where the phase was abandoned. -/
  background : Option (List (Nat × Finish String))
  /-- Notes in the order in which they were left, with their times. -/
  notes : List (Nat × Note)

/-- Plays a phase over the lanes that are left from earlier ones. -/
def phase (w : World) (lanes : Lanes) (f : LanePhase) : Report × Engine String :=
  let (replies, p) := steps { engine := { Engine.ofWorld w {} with lanes } } 0 f.steps
  if f.abandon then (⟨replies, none, p.engine.world.notes.reverse⟩, p.engine)
  else
    let (background, p) := p.join
    (⟨replies, some background, p.engine.world.notes.reverse⟩, p.engine)

/-- Plays phases one after the other; each starts at time zero, and the metrics go on. -/
def phases (w : World) (lanes : Lanes) : List LanePhase → List Report
  | [] => []
  | f :: rest =>
    let (report, e) := phase w lanes f
    report :: phases { w with metrics := e.world.metrics } e.lanes.abandon rest

end LaneTrial
end EventSourcing.Rehearsal
