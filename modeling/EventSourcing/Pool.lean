import EventSourcing.Pool.Error

/-!
Pools.
A pool has a fixed number of slots. A caller takes a free slot, or stands in line for one if the
line is not too long; a slot that becomes free is handed to the head of the line, which takes it
when it next comes to run. Callers are known by their numbers.
-/
namespace EventSourcing

/-- Bounds of a pool. Times are in milliseconds. -/
structure PoolConfig where
  maxConcurrency : Nat := 64
  maxPending : Nat := 1024
  defaultTimeout : Nat := 30000
  shutdownTimeout : Nat := 10000
  deriving DecidableEq, Repr, Inhabited

/-- The number of units of work that a pool runs at a time; there is room for one at least. -/
def PoolConfig.slots (c : PoolConfig) : Nat := max c.maxConcurrency 1

/-- The greatest number of slots that can be counted. -/
def PoolConfig.maxSlots : Nat := 2305843009213693951

/-- Whether the slots of a pool can be counted. A pool of more cannot be made. -/
def PoolConfig.isCountable (c : PoolConfig) : Bool := c.slots ≤ maxSlots

def PoolConfig.debugText (c : PoolConfig) : String :=
  "PoolConfig \x7b max_concurrency: " ++ toString c.maxConcurrency ++ ", max_pending: " ++
    toString c.maxPending ++ ", default_timeout: " ++ Text.duration c.defaultTimeout ++
    ", shutdown_timeout: " ++ Text.duration c.shutdownTimeout ++ " \x7d"

structure Pool where
  config : PoolConfig
  free : Nat
  /-- Callers without a slot, first come first. -/
  line : List Nat := []
  /-- Callers that have been handed a slot and have yet to take it. -/
  handed : List Nat := []
  /-- Callers whose work has a slot. -/
  running : List Nat := []
  /-- No more work is accepted. -/
  closing : Bool := false
  /-- All work has been asked to stop. -/
  cancelled : Bool := false

namespace Pool

def ofConfig (c : PoolConfig) : Pool := { config := c, free := c.slots }

/-- The number of callers that have yet to take a slot or give up. -/
def waiting (p : Pool) : Nat := p.line.length + p.handed.length

def inFlight (p : Pool) : Nat := p.running.length

/-- What a caller meets on arrival. -/
inductive Admission where
  | refused (e : PoolError)
  | admitted
  | inLine
  deriving DecidableEq

def arrive (p : Pool) (c : Nat) : Admission × Pool :=
  if p.closing then (.refused .shuttingDown, p)
  else if p.config.maxPending ≤ p.waiting ∧ p.free = 0 then (.refused (.saturated p.waiting), p)
  else if p.free = 0 then (.inLine, { p with line := p.line ++ [c] })
  else (.admitted, { p with free := p.free - 1, running := p.running ++ [c] })

/-- Leaves the line without a slot. -/
def leave (p : Pool) (c : Nat) : Pool := { p with line := p.line.erase c }

/-- Takes the slot that was handed over. -/
def take (p : Pool) (c : Nat) : Pool :=
  { p with handed := p.handed.erase c, running := p.running ++ [c] }

/-- Hands a slot to the head of the line, which is named, or sets it free. -/
def handOver (p : Pool) : Option Nat × Pool :=
  match p.line with
  | [] => (none, { p with free := p.free + 1 })
  | c :: rest => (some c, { p with line := rest, handed := p.handed ++ [c] })

/-- The slot of work that has ended goes to the next caller. -/
def release (p : Pool) (c : Nat) : Option Nat × Pool :=
  handOver { p with running := p.running.erase c }

/-- Gives back a slot that was handed over but will not be used. -/
def decline (p : Pool) (c : Nat) : Option Nat × Pool :=
  handOver { p with handed := p.handed.erase c }

/-- Turns away the line and all who come later. -/
def close (p : Pool) : Pool := { p with closing := true, line := [] }

def debugText (p : Pool) : String :=
  "WorkerPool \x7b config: " ++ p.config.debugText ++
    s!", in_flight: {p.inFlight}, shutting_down: {p.closing} " ++ "\x7d"

end Pool
end EventSourcing
