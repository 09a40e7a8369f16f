import EventSourcing.Engine.Request
import EventSourcing.Lanes

/-!
The engine.
It holds all requests with the lanes and the pool they go through, the world their work acts on, and
the agenda of what is due. Requests are numbered in the order in which they are made.
-/
namespace EventSourcing

inductive Signal where
  /-- A request is called. -/
  | call (r : Nat)
  /-- The caller of a request looks for its answer. -/
  | caller (r : Nat)
  /-- The worker of a lane looks for its next job. -/
  | worker (a : AggregateId)
  /-- A caller in the line of the pool looks for its slot. -/
  | slot (r : Nat)
  /-- A caller of the pool looks at its work. -/
  | outcome (r : Nat)
  /-- Work goes on. -/
  | work (r : Nat)
  /-- The pool is asked to shut down. -/
  | close (d : Nat)
  /-- One who waits for the pool to run empty looks at it. -/
  | drained (d : Nat)
  deriving DecidableEq

/-- What became of the work that was running when the pool was asked to shut down. -/
structure DrainReport where
  completed : Nat
  abandoned : Nat
  deriving DecidableEq

/-- A wait for the pool to run empty. -/
structure Drain where
  foreground : Bool
  running : Nat := 0
  deadline : Nat := 0
  answer : Option (Nat × DrainReport) := none

structure Engine (ρ : Type) where
  world : World
  pool : Pool
  lanes : Lanes := {}
  requests : List (Request ρ) := []
  drains : List Drain := []
  agenda : Agenda Signal := []

namespace Engine
variable {ρ : Type}

def ofWorld (w : World) (c : PoolConfig) : Engine ρ := { world := w, pool := .ofConfig c }

def now (e : Engine ρ) : Nat := e.world.now

def request? (e : Engine ρ) (r : Nat) : Option (Request ρ) := e.requests[r]?

def modify (e : Engine ρ) (r : Nat) (f : Request ρ → Request ρ) : Engine ρ :=
  { e with requests := e.requests.modify r f }

def modifyDrain (e : Engine ρ) (d : Nat) (f : Drain → Drain) : Engine ρ :=
  { e with drains := e.drains.modify d f }

/-- Makes a signal due at a time. -/
def schedule (e : Engine ρ) (time : Nat) (rank : Rank) (s : Signal) : Engine ρ :=
  { e with agenda := Agenda.push ⟨time, rank, s⟩ e.agenda }

/-- Makes a signal due now. -/
def wake (e : Engine ρ) (rank : Rank) (s : Signal) : Engine ρ := e.schedule e.now rank s

def count (e : Engine ρ) (m : Metric) : Engine ρ := { e with world := e.world.count m }

/-- Records the number of lanes. -/
def gaugeLanes (e : Engine ρ) : Engine ρ :=
  { e with world := e.world.gauge .activeLanes e.lanes.size }

/-- Makes a request, which is not called yet. -/
def add (e : Engine ρ) (q : Request ρ) : Nat × Engine ρ :=
  (e.requests.length, { e with requests := e.requests ++ [q] })

def addDrain (e : Engine ρ) (d : Drain) : Nat × Engine ρ :=
  (e.drains.length, { e with drains := e.drains ++ [d] })

def answer? (e : Engine ρ) (r : Nat) : Option (Nat × Ending ρ) :=
  (e.request? r).bind Request.answer

def report? (e : Engine ρ) (d : Nat) : Option (Nat × DrainReport) :=
  (e.drains[d]?).bind Drain.answer

end Engine
end EventSourcing
