import EventSourcing.Engine

/-!
Steps of the engine.
Each step takes what is due next and handles it. A deadline that falls on the moment of a result
does not count: whoever waits looks for the result first.
-/
namespace EventSourcing.Engine
variable {ρ : Type}

/-- Tells the caller of a request. -/
def tell (e : Engine ρ) (r : Nat) (o : Ending ρ) : Engine ρ :=
  e.modify r fun q => { q with answer := some (e.now, o) }

/-- Ends the job of a request: its result is sent, and its lane goes on at once. -/
def finishJob (e : Engine ρ) (r : Nat) (q : Request ρ) (a : AggregateId) (o : Ending ρ) :
    Engine ρ :=
  let e := e.modify r fun q => { q with stage := .over, result := some o }
  let e := { e with lanes := e.lanes.finish a }
  (e.wake (.notice q.foreground) (.caller r)).wake .immediate (.worker a)

/-- The pool has answered for a request. A lane is held on to while the work still runs. -/
def leavePool (e : Engine ρ) (r : Nat) (o : Ending ρ) : Engine ρ :=
  match e.request? r with
  | none => e
  | some q =>
    match q.route with
    | .laneThenPool a =>
      match q.stage with
      | .running =>
        if q.hasEnded then e.finishJob r q a o
        else e.modify r fun q => { q with stage := .overrun o }
      | _ => e.finishJob r q a o
    | _ => (e.modify r fun q => { q with stage := .over }).tell r o

/-- Asks the work of a request to stop. -/
def cancel (e : Engine ρ) (r : Nat) : Engine ρ :=
  match e.request? r with
  | none => e
  | some q =>
    let e := e.modify r fun q => { q with cancelled := true }
    if q.isWakeable then e.wake .background (.work r) else e

/-- The time allowed in the pool has passed. -/
def expire (e : Engine ρ) (r : Nat) (limit : Nat) : Engine ρ :=
  (e.count .poolTimeouts).leavePool r (.error (.pool (.timeout limit)))

/-- Starts work that has a slot. If its time has passed by then, it is asked to stop at once. -/
def startWork (e : Engine ρ) (r : Nat) (q : Request ρ) : Engine ρ :=
  let e := e.modify r fun q => { q with stage := .running, cancelled := e.pool.cancelled }
  let e := e.wake .background (.work r)
  if q.overdue e.now then (e.cancel r).expire r q.poolLimit
  else match q.deadline? with
    | some t => e.schedule t (.deadline q.poolInFront) (.outcome r)
    | none => e

/-- A slot has been handed over, if somebody stands in line. -/
def passSlot (e : Engine ρ) (handed : Option Nat × Pool) : Engine ρ :=
  let e := { e with pool := handed.2 }
  match handed.1 with
  | none => e
  | some c =>
    match e.request? c with
    | some q => e.wake (.notice q.poolInFront) (.slot c)
    | none => e

/-- A request comes to the pool. -/
def enterPool (e : Engine ρ) (r : Nat) (limit : Nat) : Engine ρ :=
  let e := e.modify r fun q => { q with poolLimit := limit }
  match e.request? r with
  | none => e
  | some q =>
    match e.pool.arrive r with
    | (.refused why, _) => e.leavePool r (.error (.pool why))
    | (.admitted, pool) => { e with pool }.startWork r q
    | (.inLine, pool) =>
      if q.overdue e.now then e.expire r limit
      else
        let e := { e with pool }.modify r fun q => { q with stage := .waiting }
        match q.deadline? with
        | some t => e.schedule t (.deadline q.poolInFront) (.slot r)
        | none => e

/-- Puts a request into its lane, and starts a worker where the lane is new. -/
def enterLane (e : Engine ρ) (r : Nat) (a : AggregateId) : Engine ρ :=
  let (isNew, lanes) := e.lanes.submit a r
  let e := { e with lanes }
  if isNew then e.gaugeLanes.wake .background (.worker a) else e

def onCall (e : Engine ρ) (r : Nat) : Engine ρ :=
  let e := e.modify r fun q => { q with called := e.now }
  match e.request? r with
  | none => e
  | some q =>
    match q.route with
    | .pool => e.enterPool r (q.limit.getD 0)
    | .lane a => e.enterLane r a
    | .laneThenPool a =>
      let e := e.enterLane r a
      if q.overdue e.now then e.tell r (.error (.pool (.timeout (q.limit.getD 0))))
      else match q.deadline? with
        | some t => e.schedule t (.deadline q.foreground) (.caller r)
        | none => e

def onCaller (e : Engine ρ) (r : Nat) : Engine ρ :=
  match e.request? r with
  | none => e
  | some q =>
    if q.answer.isSome then e
    else match q.result with
      | some o => e.tell r o
      | none =>
        if q.overdue e.now then e.tell r (.error (.pool (.timeout (q.limit.getD 0)))) else e

/-- The pool has run empty while it is shutting down. -/
def noticeEmpty (e : Engine ρ) : Engine ρ :=
  if e.pool.closing ∧ e.pool.inFlight = 0 then
    e.drains.zipIdx.foldl (fun e (d, i) => e.wake (.notice d.foreground) (.drained i)) e
  else e

/-- The work of a request has stopped. A lane that only waited for this hears of it first; then the
slot is passed on, and last the caller of the pool hears of it. -/
def endWork (e : Engine ρ) (r : Nat) (q : Request ρ) (o : Ending ρ) : Engine ρ :=
  let e := e.modify r fun q => { q with work := .ended o }
  match q.route with
  | .lane a => e.finishJob r q a o
  | _ =>
    let e := match q.stage with
      | .overrun _ => e.wake .background (.outcome r)
      | _ => e
    let e := (e.passSlot (e.pool.release r)).noticeEmpty
    match q.stage with
    | .running => e.wake (.notice q.poolInFront) (.outcome r)
    | _ => e

/-- How a request fails when its work breaks down. -/
def breakdown : Route → Failure
  | .lane _ => .aborted
  | _ => .pool .panicked

/-- Runs work up to its end or its next wait. -/
def runWork (e : Engine ρ) (r : Nat) (q : Request ρ) (a : Activity ρ) : Engine ρ :=
  let (w, pause) := a.advance q.cancelled e.world
  let e := { e with world := w }
  match pause with
  | .finished x => e.endWork r q (.ok x)
  | .panicked => e.endWork r q (.error (breakdown q.route))
  | .asleep ms wakeable rest =>
    let e := e.modify r fun q => { q with work := .asleep (e.now + ms) wakeable rest }
    e.schedule (e.now + ms) .background (.work r)

/-- Work that came through a lane is not begun once it has been asked to stop. -/
def onWork (e : Engine ρ) (r : Nat) : Engine ρ :=
  match e.request? r with
  | none => e
  | some q =>
    match q.work with
    | .ended _ => e
    | .fresh a =>
      match q.route, q.cancelled with
      | .laneThenPool _, true => e.endWork r q (.error (.pool .shuttingDown))
      | _, _ => (e.modify r fun q => { q with begun := some e.now }).runWork r q a
    | .asleep wake wakeable rest =>
      if wakeable && q.cancelled then e.runWork r q (rest true)
      else if wake ≤ e.now then e.runWork r q (rest false)
      else e

/-- The next job of a lane begins. One whose time has passed in the lane is skipped. -/
def startJob (e : Engine ρ) (r : Nat) : Engine ρ :=
  match e.request? r with
  | none => e
  | some q =>
    match q.route with
    | .lane _ => (e.modify r fun q => { q with stage := .running }).onWork r
    | .pool => e
    | .laneThenPool a =>
      if q.overdue e.now then e.finishJob r q a (.error (.pool (.timeout (q.limit.getD 0))))
      else e.enterPool r ((q.deadline?.getD 0) - e.now)

def onWorker (e : Engine ρ) (a : AggregateId) : Engine ρ :=
  match e.lanes.takeOrRetire a with
  | (some r, lanes) => { e with lanes }.startJob r
  | (none, lanes) => { e with lanes }.gaugeLanes

def onSlot (e : Engine ρ) (r : Nat) : Engine ρ :=
  match e.request? r with
  | none => e
  | some q =>
    match q.stage with
    | .waiting =>
      if e.pool.closing then
        let e := if r ∈ e.pool.handed then e.passSlot (e.pool.decline r) else e
        e.leavePool r (.error (.pool .shuttingDown))
      else if r ∈ e.pool.handed then { e with pool := e.pool.take r }.startWork r q
      else if q.overdue e.now then { e with pool := e.pool.leave r }.expire r q.poolLimit
      else e
    | _ => e

def onOutcome (e : Engine ρ) (r : Nat) : Engine ρ :=
  match e.request? r with
  | none => e
  | some q =>
    match q.stage, q.work with
    | .running, .ended o => e.leavePool r o
    | .running, _ => if q.overdue e.now then (e.cancel r).expire r q.poolLimit else e
    | .overrun o, .ended _ =>
      match q.route with
      | .laneThenPool a => e.finishJob r q a o
      | _ => e
    | _, _ => e

/-- The time for running empty has passed: all work is asked to stop, and what still runs is given
up. -/
def abandon (e : Engine ρ) (d : Nat) (running : Nat) : Engine ρ :=
  let e := { e with pool := { e.pool with cancelled := true } }
  let e := e.pool.running.foldl cancel e
  let report : DrainReport := ⟨running - e.pool.inFlight, e.pool.inFlight⟩
  e.modifyDrain d fun dr => { dr with answer := some (e.now, report) }

def onClose (e : Engine ρ) (d : Nat) : Engine ρ :=
  let line := e.pool.line
  let e := { e with pool := e.pool.close }
  let e := line.foldl (fun e c =>
    match e.request? c with
    | some q => e.wake (.notice q.poolInFront) (.slot c)
    | none => e) e
  let running := e.pool.inFlight
  let limit := e.pool.config.shutdownTimeout
  let e := e.modifyDrain d fun dr => { dr with running, deadline := e.now + limit }
  if running = 0 then e.modifyDrain d fun dr => { dr with answer := some (e.now, ⟨0, 0⟩) }
  else if limit = 0 then e.abandon d running
  else match e.drains[d]? with
    | some dr => e.schedule dr.deadline (.deadline dr.foreground) (.drained d)
    | none => e

def onDrained (e : Engine ρ) (d : Nat) : Engine ρ :=
  match e.drains[d]? with
  | none => e
  | some dr =>
    if dr.answer.isSome then e
    else if e.pool.inFlight = 0 then
      e.modifyDrain d fun dr => { dr with answer := some (e.now, ⟨dr.running, 0⟩) }
    else if dr.deadline ≤ e.now then e.abandon d dr.running
    else e

def handle (e : Engine ρ) : Signal → Engine ρ
  | .call r => e.onCall r
  | .caller r => e.onCaller r
  | .worker a => e.onWorker a
  | .slot r => e.onSlot r
  | .outcome r => e.onOutcome r
  | .work r => e.onWork r
  | .close d => e.onClose d
  | .drained d => e.onDrained d

/-- Handles what is due next, letting time pass until then. -/
def step? (e : Engine ρ) : Option (Engine ρ) :=
  match e.agenda with
  | [] => none
  | d :: rest =>
    some (handle { e with agenda := rest, world.now := max e.now d.time } d.signal)

end EventSourcing.Engine
