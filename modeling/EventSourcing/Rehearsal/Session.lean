import EventSourcing.Engine.Command
import EventSourcing.Rehearsal.Fault
import EventSourcing.Rehearsal.Play

/-!
Sessions.
A session works on one store: directly, through a loader and a dispatcher, and through an engine, in
front or in the background. It may let calls to the store fail and let others write in between, and
it may subscribe to the feed.
-/
namespace EventSourcing.Rehearsal

/-- What a dispatch is for: an id, or an entity saved under a name. -/
inductive Aim where
  | id (a : AggregateId)
  | saved (name : String)

inductive SessionStep where
  | append (a : AggregateId) (batch : List DomainEvent) (o : AppendOptions)
  | events (a : AggregateId)
  | latest (a : AggregateId)
  | presence (a : AggregateId)
  | log (a : AggregateId)
  | count
  | clear
  | failLoads (faults : List (Option Fault))
  | failAppends (faults : List (Option Fault))
  | rival (a : AggregateId) (batch : List DomainEvent)
  | calls
  | subscribeAll (name : String)
  | subscribeFrom (name : String) (a : AggregateId) (after : Revision)
  | next (name : String) (n : Nat)
  | stream (name : String) (n : Nat)
  | unsubscribe (name : String)
  | dropStore
  | load (a : AggregateId) (saveAs : Option String)
  | tryLoad (a : AggregateId)
  | replay (a : AggregateId) (events : List (DomainEvent × Revision)) (saveAs : Option String)
  | map (name : String)
  | dispatch (aim : Aim) (command : String) (payload : Json) (correlation saveAs : Option String)
  | execute (call : CommandCall) (spawn : Bool)
  | engineLoad (a : AggregateId)
  | shutDown (spawn : Bool)
  | probe
  | sleep (ms : Nat)
  | now
  | join
  | clock (millis entropy : Option Nat)
  | metrics

inductive SessionReply (S ε : Type) where
  | nothing
  | spawned
  | number (n : Nat)
  | truth (b : Bool)
  | revision (r : Revision)
  | events (es : List RecordedEvent)
  | storeError (e : StoreError)
  | calls (loads appends : Nat)
  | deliveries (ds : List Delivery)
  | entity (e : Entity S)
  | wrapped (e : Entity S)
  | replay (r : Replay S)
  | entityError (e : EntityError)
  | commandError (e : CommandError ε) (target : AggregateId)
  | engineError (e : EngineError ε)
  | ended (f : Finish (CommandResult S ε))
  | probed (inFlight : Nat) (closing : Bool) (type : String) (c : Config)
  | joined (results : List (Nat × Finish (CommandResult S ε)))
  | metrics (m : Metrics)
  /-- The step broke down, and the session with it. -/
  | panicked

structure Session (S ε : Type) where
  description : Description S ε
  /-- The way the loader and the dispatcher take to the store. -/
  access : StoreAccess
  engine : Option (CommandEngine S ε)
  play : Play (CommandResult S ε)
  saved : Assoc String (Entity S) := ∅
  subscriptions : Assoc String Subscription := ∅
  /-- The session has let go of the store. -/
  dropped : Bool := false

namespace Session
variable {S ε : Type}

abbrev Reply (S ε : Type) := SessionReply S ε × Session S ε

def world (s : Session S ε) : World := s.play.engine.world

def mapWorld (s : Session S ε) (f : World → World) : Session S ε :=
  { s with play := s.play.map fun e => { e with world := f e.world } }

/-- Runs an activity in front and replies with what it comes to. -/
def perform {α : Type} (s : Session S ε) (a : Activity α) (reply : α → SessionReply S ε) :
    Reply S ε :=
  let (r, e) := s.play.engine.perform a
  ((r.map reply).getD .panicked, { s with play := { s.play with engine := e } })

def ofStore {α : Type} (f : α → SessionReply S ε) : Except StoreError α → SessionReply S ε
  | .ok a => f a
  | .error e => .storeError e

def ofEntity {α : Type} (f : α → SessionReply S ε) : Except EntityError α → SessionReply S ε
  | .ok a => f a
  | .error e => .entityError e

def save (s : Session S ε) (name : Option String) (e : Option (Entity S)) : Session S ε :=
  match name, e with
  | some name, some e => { s with saved := s.saved.put name e }
  | _, _ => s

/-- Saves the entity of a reply that shows one. -/
def saveReply (name : Option String) (r : Reply S ε) : Reply S ε :=
  match r.1 with
  | .entity e => (r.1, r.2.save name (some e))
  | .replay v => (r.1, r.2.save name v.entity?)
  | _ => r

/-- Whether no work is left that could still write. -/
def idle (s : Session S ε) : Bool :=
  s.play.engine.requests.all fun q =>
    match q.stage with
    | .over => true
    | _ => false

/-- The feed as subscribers see it. -/
def feed (s : Session S ε) : Feed :=
  let f := s.world.store.feed
  if s.dropped && s.idle then f.close else f

def putSubscription (s : Session S ε) (name : String) (sub : Subscription) : Session S ε :=
  { s with subscriptions := s.subscriptions.put name sub }

/-- Looks for the next event: at once, then after all that is due now, and then for a millisecond
more. -/
def nextOf (s : Session S ε) (sub : Subscription) : Delivery × Subscription × Session S ε :=
  match sub.next s.feed with
  | (.pending, sub) =>
    let s := { s with play := s.play.map Engine.settle }
    match sub.next s.feed with
    | (.pending, sub) => (.pending, sub, s.mapWorld fun w => { w with now := w.now + 1 })
    | (d, sub) => (d, sub, s)
  | (d, sub) => (d, sub, s)

/-- Takes up to n deliveries; a stream ends where there is nothing more. -/
def take (stream : Bool) : Nat → Session S ε → Subscription →
    List Delivery × Subscription × Session S ε
  | 0, s, sub => ([], sub, s)
  | n + 1, s, sub =>
    let (d, sub, s) := s.nextOf sub
    let last := match d with
      | .pending => true
      | .closed => true
      | _ => false
    if stream && last then ([d], sub, s)
    else
      let (ds, sub, s) := take stream n s sub
      (d :: ds, sub, s)

/-- A hand-made event. -/
def recorded (a : AggregateId) (e : DomainEvent) (r : Revision) : RecordedEvent :=
  { (default : RecordedEvent) with aggregate := a, type := e.type, data := e.data, revision := r }

def dispatch (s : Session S ε) (aim : Aim) (command : String) (payload : Json)
    (correlation saveAs : Option String) : Reply S ε :=
  let target : Option (Target S) := match aim with
    | .id a => some (.id a)
    | .saved name => (s.saved.get? name).map .loaded
  match target with
  | none => (.nothing, s)
  | some target =>
    saveReply saveAs <|
      s.perform (s.description.dispatch s.access ⟨command, target, payload, correlation⟩) fun
        | .ok e => .entity e
        | .error e => .commandError e target.aggregate

def step (s : Session S ε) (i : Nat) : SessionStep → Reply S ε
  | .append a batch o => s.perform (s.access.append a batch o) (ofStore .revision)
  | .events a => s.perform (s.access.load a) (ofStore .events)
  | .latest a => s.perform (s.access.latest a) (ofStore .revision)
  | .presence a => s.perform (s.access.holdsEvents a) (ofStore .truth)
  | .log a => (.events (s.world.log a), s)
  | .count => (.number s.world.store.logs.count, s)
  | .clear => (.nothing, s.mapWorld World.clear)
  | .failLoads faults => (.nothing, s.mapWorld fun w =>
      { w with link.loadFaults := w.link.loadFaults ++ faults.map (·.bind Fault.callFault?) })
  | .failAppends faults => (.nothing, s.mapWorld fun w =>
      { w with link.appendFaults := w.link.appendFaults ++ faults.map (·.bind Fault.callFault?) })
  | .rival a batch => (.nothing, s.mapWorld fun w =>
      { w with link.rivals := w.link.rivals ++ [(a, batch)] })
  | .calls => (.calls s.world.link.loads s.world.link.appends, s)
  | .subscribeAll name => (.nothing, s.putSubscription name (.all s.world.store.feed))
  | .subscribeFrom name a r =>
    let position := s.world.store.feed.published.length
    (.nothing, s.putSubscription name (.after a r (s.world.log a) position))
  | .next name n =>
    match s.subscriptions.get? name with
    | none => (.nothing, s)
    | some sub =>
      let (ds, sub, s) := take false n s sub
      (.deliveries ds, s.putSubscription name sub)
  | .stream name n =>
    match s.subscriptions.get? name with
    | none => (.nothing, s)
    | some sub =>
      let (ds, _, s) := take true n s sub
      (.deliveries ds, { s with subscriptions := s.subscriptions.erase name })
  | .unsubscribe name =>
    (.truth (s.subscriptions.contains name),
      { s with subscriptions := s.subscriptions.erase name })
  | .dropStore => (.nothing, { s with dropped := true })
  | .load a name => saveReply name (s.perform (s.description.load s.access a) (ofEntity .entity))
  | .tryLoad a => s.perform (s.description.loadReplay s.access a) (ofEntity .replay)
  | .replay a events name =>
    let log := events.map fun e => recorded a e.1 e.2
    saveReply name (ofEntity .replay ((s.description.replay a log).mapError .deserialization), s)
  | .map name => (((s.saved.get? name).map .wrapped).getD .nothing, s)
  | .dispatch aim command payload correlation saveAs =>
    s.dispatch aim command payload correlation saveAs
  | .execute call true =>
    match s.engine with
    | none => (.nothing, s)
    | some m => (.spawned, { s with play := s.play.spawn i (m.request call false) })
  | .execute call false =>
    match s.engine with
    | none => (.nothing, s)
    | some m =>
      let (a, e) := s.play.engine.callAndWait (m.request call true)
      ((a.map fun (t, o) => .ended (.request t o)).getD .nothing,
        { s with play := { s.play with engine := e } })
  | .engineLoad a =>
    match s.engine with
    | none => (.nothing, s)
    | some m => s.perform (m.load a) fun
      | .ok e => .entity e
      | .error e => .engineError e
  | .shutDown true => (.spawned, { s with play := s.play.spawnShutDown i })
  | .shutDown false =>
    let (a, e) := s.play.engine.shutDown
    ((a.map fun (t, report) => .ended (.drain t report)).getD .nothing,
      { s with play := { s.play with engine := e } })
  | .probe =>
    match s.engine with
    | none => (.nothing, s)
    | some m =>
      let p := s.play.engine.pool
      (.probed p.inFlight p.closing m.description.type m.config, s)
  | .sleep ms =>
    let s := { s with play := s.play.sleep ms }
    (.number s.play.engine.now, s)
  | .now => (.number s.play.engine.now, s)
  | .join =>
    let (results, p) := s.play.join
    (.joined results, { s with play := p })
  | .clock millis entropy => (.nothing, s.mapWorld fun w =>
      let r := w.read
      w.turn fun _ => ⟨millis.getD r.millis, entropy.getD r.entropy⟩)
  | .metrics => (.metrics s.world.metrics, s)

/-- Takes steps one after the other. There is no result where one breaks down. -/
def steps? (s : Session S ε) (i : Nat) :
    List SessionStep → Option (List (SessionReply S ε) × Session S ε)
  | [] => some ([], s)
  | x :: rest =>
    match s.step i x with
    | (.panicked, _) => none
    | (a, s) => (steps? s (i + 1) rest).map fun (as, s) => (a :: as, s)

/-- What a session needs to begin. -/
structure Setting where
  feedCapacity : Nat := 1024
  retry : Option Retry.Policy := none
  engine : Option Config := none

/-- Why a session comes to no end. -/
inductive Failure where
  | retry (e : Retry.LimitTooHigh)
  | engine (e : ConfigError)
  /-- There is no room for the feed, or the pool has more slots than can be counted. -/
  | tooLarge
  /-- A step broke down. -/
  | brokenDown

def start (d : Description S ε) (g : Setting) (w : World) : Except Failure (Session S ε) := do
  if Feed.maxCapacity < g.feedCapacity then throw .tooLarge
  let access ← match g.retry with
    | none => .ok StoreAccess.direct
    | some p => (StoreAccess.direct.retrying? p).mapError .retry
  let engine ← match g.engine with
    | none => .ok none
    | some c => ((CommandEngine.make c d).map some).mapError .engine
  let w := { w with store.feed := .ofCapacity g.feedCapacity }
  let pool := ((g.engine.map Config.pool).getD {})
  if !pool.isCountable then throw .tooLarge
  return { description := d, access, engine, play := { engine := .ofWorld w pool } }

structure Report (S ε : Type) where
  steps : List (SessionReply S ε)
  background : List (Nat × Finish (CommandResult S ε))
  /-- Notes in the order in which they were left, with their times. -/
  notes : List (Nat × Note)

def run (d : Description S ε) (g : Setting) (w : World) (script : List SessionStep) :
    Except Failure (Report S ε) := do
  let s ← start d g w
  match s.steps? 0 script with
  | none => .error .brokenDown
  | some (replies, s) =>
    let (background, p) := s.play.join
    return ⟨replies, background, p.engine.world.notes.reverse⟩

end Session
end EventSourcing.Rehearsal
