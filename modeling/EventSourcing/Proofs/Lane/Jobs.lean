import EventSourcing.Proofs.Engine.Traffic

/-!
Jobs in their lanes.
Where all requests go through lanes and nowhere else, a job is queued, runs, or is over. While it runs
there is one signal for it to go on, not before the time at which it wakes; once it is over it has the
result of its work, and its caller has been told or will look for it. What happens to one job leaves
all others as they are.
-/
namespace EventSourcing

namespace Signal

/-- Signals that an engine gets whose requests all go through lanes. -/
def isLaning : Signal → Bool
  | .slot _ | .outcome _ | .drained _ => false
  | _ => true

end Signal

namespace Engine
variable {ρ : Type}

/-- How many signals of a kind are still to be handled, the one in hand included. -/
def ahead (e : Engine ρ) (hand : Option Signal) (s : Signal) : Nat :=
  e.due s + if hand = some s then 1 else 0

end Engine

namespace LaneTraffic
open Engine
variable {ρ : Type}

/-- How far a job has come. -/
inductive Job (e : Engine ρ) (hand : Option Signal) (r : Nat) (q : Request ρ) : Prop where
  | queued (stage : q.stage = .pending) (fresh : q.isFresh = true) (begun : q.begun = none)
      (result : q.result = none) (answer : q.answer = none) (works : e.ahead hand (.work r) = 0)
      (callers : e.ahead hand (.caller r) = 0)
  | running (stage : q.stage = .running) (begun : q.begun ≠ none) (goes : q.hasEnded = false)
      (result : q.result = none) (answer : q.answer = none) (works : e.ahead hand (.work r) = 1)
      (callers : e.ahead hand (.caller r) = 0)
      (begins : q.isFresh = true → hand = some (.work r))
      (timed : ∀ wake wakeable rest, q.work = .asleep wake wakeable rest →
        ∀ d ∈ e.agenda, d.signal = .work r → wake ≤ d.time)
  | finished (o : Ending ρ) (stage : q.stage = .over) (begun : q.begun ≠ none)
      (work : q.work = .ended o) (result : q.result = some o)
      (works : e.ahead hand (.work r) = 0)
      (replied : (q.answer = none ∧ 0 < e.ahead hand (.caller r)) ∨ ∃ t, q.answer = some (t, o))

/-- The jobs and their lanes are in order, while a signal is in hand. -/
structure Orderly (lane : Nat → AggregateId) (e : Engine ρ) (sent : List Nat)
    (hand : Option Signal) : Prop where
  booked : e.Booked sent
  heard : ∀ r, 0 < e.due (.caller r) → (e.request? r).isSome
  signals : ∀ d ∈ e.agenda, d.signal.isLaning = true
  idle : e.pool.running = [] ∧ e.pool.line = []
  alive : ∀ a l, e.lanes.get? a = some l → l.dead = false
  routes : ∀ r q, e.request? r = some q → q.route = .lane (lane r) ∧ q.cancelled = false
  unsent : ∀ r q, e.request? r = some q → r ∉ sent → q.stage = .pending
  placed : ∀ r ∈ sent, e.stage? r = some .pending → r ∈ e.queue (lane r)
  jobs : ∀ r q, e.request? r = some q → Job e hand r q
  cut : ∀ a, Cut lane e sent (hand.bind Signal.served) a

variable {lane : Nat → AggregateId} {e e' : Engine ρ} {sent sent' : List Nat}
  {hand hand' : Option Signal} {r : Nat} {q q' : Request ρ} {a : AggregateId} {o : Ending ρ}

/-- Nothing happens to a job. -/
structure Still (e : Engine ρ) (hand : Option Signal) (e' : Engine ρ) (hand' : Option Signal)
    (r : Nat) : Prop where
  request : e'.request? r = e.request? r
  works : e'.ahead hand' (.work r) = e.ahead hand (.work r)
  callers : e'.ahead hand' (.caller r) = e.ahead hand (.caller r)
  begins : hand = some (.work r) → hand' = some (.work r)
  times : ∀ d ∈ e'.agenda, d.signal = .work r → d ∈ e.agenda

theorem Job.still (h : Job e hand r q) (still : Still e hand e' hand' r) : Job e' hand' r q := by
  cases h with
  | queued stage fresh begun result answer works callers =>
      exact .queued stage fresh begun result answer (still.works.trans works)
        (still.callers.trans callers)
  | running stage begun goes result answer works callers begins timed =>
      exact .running stage begun goes result answer (still.works.trans works)
        (still.callers.trans callers) (fun fresh => still.begins (begins fresh))
        fun wake wakeable rest work d hd hs =>
          timed wake wakeable rest work d (still.times d hd hs) hs
  | finished o stage begun work result works replied =>
      refine .finished o stage begun work result (still.works.trans works) ?_
      rw [still.callers]
      exact replied

/-- Each request stays as it is, or has come to where a job may be. -/
theorem Orderly.step (h : Orderly lane e sent hand)
    (requests : ∀ r q, e'.request? r = some q → Still e hand e' hand' r ∨
      (q.route = .lane (lane r) ∧ q.cancelled = false) ∧ (r ∉ sent' → q.stage = .pending) ∧
        Job e' hand' r q)
    (grow : ∀ r ∈ sent, r ∈ sent') (booked : e'.Booked sent')
    (heard : ∀ r, 0 < e'.due (.caller r) → (e'.request? r).isSome)
    (signals : ∀ d ∈ e'.agenda, d.signal.isLaning = true)
    (idle : e'.pool.running = [] ∧ e'.pool.line = [])
    (alive : ∀ a l, e'.lanes.get? a = some l → l.dead = false)
    (placed : ∀ r ∈ sent', e'.stage? r = some .pending → r ∈ e'.queue (lane r))
    (cut : ∀ a, Cut lane e' sent' (hand'.bind Signal.served) a) : Orderly lane e' sent' hand' where
  booked := booked
  heard := heard
  signals := signals
  idle := idle
  alive := alive
  routes r q hq := by
    obtain still | ⟨route, _⟩ := requests r q hq
    · rw [still.request] at hq
      exact h.routes r q hq
    · exact route
  unsent r q hq unsent := by
    obtain still | ⟨_, pending, _⟩ := requests r q hq
    · rw [still.request] at hq
      exact h.unsent r q hq fun old => unsent (grow r old)
    · exact pending unsent
  placed := placed
  jobs r q hq := by
    obtain still | ⟨_, _, job⟩ := requests r q hq
    · have old := still.request ▸ hq
      exact (h.jobs r q old).still still
    · exact job
  cut := cut

/-- Nothing happens to the jobs, and the lanes stay as they are. -/
theorem Orderly.still (h : Orderly lane e sent hand)
    (still : ∀ r, (e.request? r).isSome → Still e hand e' hand' r)
    (made : ∀ r, (e'.request? r).isSome → (e.request? r).isSome)
    (lanes : e'.lanes = e.lanes)
    (workers : ∀ a, e'.ahead hand' (.worker a) = e.ahead hand (.worker a))
    (booked : e'.Booked sent) (heard : ∀ r, 0 < e'.due (.caller r) → (e'.request? r).isSome)
    (signals : ∀ d ∈ e'.agenda, d.signal.isLaning = true)
    (idle : e'.pool.running = [] ∧ e'.pool.line = []) : Orderly lane e' sent hand' := by
  have queue (a : AggregateId) : e'.queue a = e.queue a := by rw [queue, lanes, queue]
  have stage (r : Nat) (hr : r ∈ sent) : e'.stage? r = e.stage? r := by
    rw [stage?, (still r (h.booked.made r hr)).request, stage?]
  refine h.step (fun r q hq => .inl (still r (made r (by rw [hq]; rfl)))) (fun _ => id) booked
    heard signals idle (fun a l hl => h.alive a l (lanes ▸ hl)) (fun r hr pending => ?_) fun a => ?_
  · rw [stage r hr] at pending
    rw [queue]
    exact h.placed r hr pending
  · refine (h.cut a).congr (queue a) (by rw [staff, lanes, staff]) ?_ rfl
      fun r hr _ => stage r hr
    have served (hand : Option Signal) :
        hand.bind Signal.served = some a ↔ hand = some (.worker a) := by
      cases hand with
      | none => simp
      | some s => simpa using Signal.served_eq_some
    have same := workers a
    rw [ahead, ahead] at same
    simp only [served]
    exact same

end LaneTraffic
end EventSourcing
