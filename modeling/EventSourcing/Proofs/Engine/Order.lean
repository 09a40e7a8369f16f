import EventSourcing.Engine.Step
import EventSourcing.Proofs.Exclusive

/-!
The order of the lanes.
The requests that were submitted for an aggregate fall into those that are over, at most one that is
being done, and those in the queue of the lane, in this order. A lane has one worker: it is either
due, or it waits for the request that is being done. Work that has not begun is due only where it has
a place to run, and it holds on to its lane until it has really stopped.
-/
namespace EventSourcing

theorem Agenda.countP_push {σ : Type} (p : Due σ → Bool) (d : Due σ) (a : Agenda σ) :
    (Agenda.push d a).countP p = a.countP p + if p d then 1 else 0 := by
  induction a with
  | nil => simp [Agenda.push, List.countP_cons]
  | cons e rest ih =>
      rw [Agenda.push]
      split
      · rw [List.countP_cons]
      · rw [List.countP_cons, List.countP_cons, ih, Nat.add_right_comm]

namespace Request
variable {ρ : Type}

def isFresh (q : Request ρ) : Bool :=
  match q.work with
  | .fresh _ => true
  | _ => false

/-- What the caller of a request may be told: a failure of the pool, or what the work came to. -/
def MayTell (q : Request ρ) (o : Ending ρ) : Prop :=
  (∃ p, o = .error (.pool p)) ∨ q.work = .ended o

/-- How stage, work and answers of a request hang together, and when its work may be due. -/
structure Fits (q : Request ρ) (due : Prop) : Prop where
  fresh : q.isFresh → q.begun = none
  early : q.stage = .pending ∨ q.stage = .waiting → q.isFresh
  ready : due → q.isFresh → q.stage = .running ∨ ∃ o, q.stage = .overrun o
  stopped : q.stage = .over → q.isFresh ∨ q.hasEnded
  overrun : ∀ o, q.stage = .overrun o → ∃ p, o = .error (.pool p)
  result : ∀ o, q.result = some o → q.MayTell o
  answer : ∀ t o, q.answer = some (t, o) → q.MayTell o
  idle : q.begun = none → q.isFresh ∨ ∃ p, q.work = .ended (.error (.pool p))
  broken : ∀ f, q.work = .ended (.error f) → ∃ p, f = .pool p

/-- What of a request matters for its lane and its answer. -/
def core (q : Request ρ) : Route × Stage ρ × Work ρ × Option Nat × Option (Ending ρ) ×
    Option (Nat × Ending ρ) :=
  (q.route, q.stage, q.work, q.begun, q.result, q.answer)

theorem Fits.imp {q q' : Request ρ} {due due' : Prop} (h : q.Fits due) (hq : q'.core = q.core)
    (hd : q.isFresh → due' → due) : q'.Fits due' := by
  obtain ⟨_, _, _, work, stage, _, _, _, begun, result, answer⟩ := q
  obtain ⟨_, _, _, work', stage', _, _, _, begun', result', answer'⟩ := q'
  simp only [core, Prod.mk.injEq] at hq
  obtain ⟨_, rfl, rfl, rfl, rfl, rfl⟩ := hq
  exact ⟨h.fresh, h.early, fun due fresh => h.ready (hd fresh due) fresh, h.stopped, h.overrun,
    h.result, h.answer, h.idle, h.broken⟩

end Request

namespace Engine
variable {ρ : Type}

def due (e : Engine ρ) (s : Signal) : Nat := e.agenda.countP fun d => d.signal = s

def stage? (e : Engine ρ) (r : Nat) : Option (Stage ρ) := (e.request? r).map Request.stage

/-- When the work of a request began, if it has. -/
def begun? (e : Engine ρ) (r : Nat) : Option Nat := (e.request? r).bind Request.begun

def queue (e : Engine ρ) (a : AggregateId) : List Nat :=
  ((e.lanes.get? a).map Lane.queue).getD []

/-- The number of workers that a lane has: one, if there is a lane. -/
def staff (e : Engine ρ) (a : AggregateId) : Nat := if (e.lanes.get? a).isSome then 1 else 0

/-- The requests of an aggregate are cut into those that are over, at most one that is being done,
and those in the queue. A spare worker is one that has just been taken from the agenda, or has yet
to be put there. -/
def Cut (lane : Nat → AggregateId) (e : Engine ρ) (submitted : List Nat)
    (spare : Option AggregateId) (a : AggregateId) : Prop :=
  ∃ past doing, submitted.filter (fun r => lane r = a) = past ++ doing ++ e.queue a ∧
    (∀ r ∈ past, e.stage? r = some .over) ∧ (∀ r ∈ doing, e.stage? r ≠ some .over) ∧
    (∀ r ∈ e.queue a, e.stage? r = some .pending) ∧
    e.due (.worker a) + (if spare = some a then 1 else 0) + doing.length = e.staff a

/-- Requests, calls and lanes, each for itself. -/
structure Tidy (lane : Nat → AggregateId) (e : Engine ρ) (submitted : List Nat) : Prop where
  routes : ∀ r q, e.request? r = some q → q.route = .laneThenPool (lane r)
  made : ∀ r ∈ submitted, (e.request? r).isSome
  once : submitted.Nodup
  calls : ∀ r, 0 < e.due (.call r) →
    r ∉ submitted ∧ (e.request? r).isSome ∧ e.due (.call r) = 1
  known : ∀ r, 0 < e.due (.work r) → (e.request? r).isSome
  fits : ∀ r q, e.request? r = some q → q.Fits (0 < e.due (.work r))
  unsent : ∀ r q, e.request? r = some q → r ∉ submitted → q.stage = .pending
  alive : ∀ a l, e.lanes.get? a = some l → l.dead = false

/-- The engine with all its requests in the lanes that are theirs. -/
structure Orderly (lane : Nat → AggregateId) (e : Engine ρ) (submitted : List Nat)
    (spare : Option AggregateId) : Prop extends Tidy lane e submitted where
  cut : ∀ a, Cut lane e submitted spare a

/-- The request that is being done in its lane. -/
structure Doing (lane : Nat → AggregateId) (e : Engine ρ) (submitted : List Nat) (r : Nat) :
    Prop where
  sent : r ∈ submitted
  unfinished : e.stage? r ≠ some .over
  taken : r ∉ e.queue (lane r)

/-- Whoever waits for a slot is told to look. -/
def nudge (e : Engine ρ) (c : Nat) : Engine ρ :=
  match e.request? c with
  | some q => e.wake (.notice q.poolInFront) (.slot c)
  | none => e

/-- A lane that only waits for work to stop hears that it has. -/
def tellLane (e : Engine ρ) (r : Nat) (q : Request ρ) : Engine ρ :=
  match q.stage with
  | .overrun _ => e.wake .background (.outcome r)
  | _ => e

/-- The caller of the pool hears that work has stopped. -/
def tellCaller (e : Engine ρ) (r : Nat) (q : Request ρ) : Engine ρ :=
  match q.stage with
  | .running => e.wake (.notice q.poolInFront) (.outcome r)
  | _ => e

section Lookups
variable (e : Engine ρ)

theorem request?_modify (r r' : Nat) (f : Request ρ → Request ρ) :
    (e.modify r f).request? r' =
      if r = r' then (e.request? r').map f else e.request? r' := by
  rw [request?, request?, modify, List.getElem?_modify]
  split <;> simp

theorem request?_modify_isSome (r r' : Nat) (f : Request ρ → Request ρ) :
    ((e.modify r f).request? r').isSome = (e.request? r').isSome := by
  rw [request?_modify]
  split
  · exact Option.isSome_map
  · rfl

/-- Handing over a slot changes no request. -/
theorem request?_passSlot (handed : Option Nat × Pool) (r : Nat) :
    (e.passSlot handed).request? r = e.request? r := by
  rw [passSlot]
  split
  · rfl
  · split <;> rfl

theorem due_schedule (t : Nat) (rank : Rank) (s s' : Signal) :
    (e.schedule t rank s).due s' = e.due s' + if s = s' then 1 else 0 := by
  rw [due, schedule, Agenda.countP_push, due]
  by_cases h : s = s' <;> simp [h]

theorem due_wake (rank : Rank) (s s' : Signal) :
    (e.wake rank s).due s' = e.due s' + if s = s' then 1 else 0 :=
  e.due_schedule e.now rank s s'

end Lookups
end Engine

/-- The logs and the count of conflicts are the same, and a clear link has stayed clear. -/
structure World.Alike (w v : World) : Prop where
  logs : v.log = w.log
  clear : w.link.IsClear → v.link.IsClear
  conflicts : v.conflicts = w.conflicts

def Lane.seen (l : Lane) : List Nat × Bool := (l.queue, l.dead)

/-- Signals that tell somebody to look, but begin nothing. -/
def Signal.IsNotice : Signal → Prop
  | .call _ | .worker _ | .work _ => False
  | _ => True

/-- The lane whose worker is meant. -/
def Signal.served : Signal → Option AggregateId
  | .worker a => some a
  | _ => none

theorem Signal.served_eq_some {s : Signal} {a : AggregateId} :
    s.served = some a ↔ s = .worker a := by
  cases s <;> simp [served]

namespace Engine
variable {ρ : Type} {e e' e'' : Engine ρ}

/-- Nothing has changed that matters for lanes, works, answers and logs. -/
structure Alike (e e' : Engine ρ) : Prop where
  requests : ∀ r, (e'.request? r).map Request.core = (e.request? r).map Request.core
  lanes : ∀ a, (e'.lanes.get? a).map Lane.seen = (e.lanes.get? a).map Lane.seen
  workers : ∀ a, e'.due (.worker a) = e.due (.worker a)
  calls : ∀ r, e'.due (.call r) = e.due (.call r)
  /-- Work may only become due once it has begun. -/
  works : ∀ r, 0 < e'.due (.work r) →
    0 < e.due (.work r) ∨ ∃ q, e.request? r = some q ∧ ¬q.isFresh
  world : e.world.Alike e'.world

namespace Alike

theorem isFresh_eq {q q' : Request ρ} (h : q'.core = q.core) : q'.isFresh = q.isFresh := by
  have work : q'.work = q.work := congrArg (fun c => c.2.2.1) h
  rw [Request.isFresh, work, Request.isFresh]

theorem request (h : Alike e e') {r : Nat} {q : Request ρ} (hq : e.request? r = some q) :
    ∃ q', e'.request? r = some q' ∧ q'.core = q.core := by
  have same := h.requests r
  rw [hq, Option.map_some] at same
  obtain ⟨q', hq', hcore⟩ := Option.map_eq_some_iff.1 same
  exact ⟨q', hq', hcore⟩

theorem request_back (h : Alike e e') {r : Nat} {q' : Request ρ} (hq : e'.request? r = some q') :
    ∃ q, e.request? r = some q ∧ q'.core = q.core := by
  have same := h.requests r
  rw [hq, Option.map_some] at same
  obtain ⟨q, hq, hcore⟩ := Option.map_eq_some_iff.1 same.symm
  exact ⟨q, hq, hcore.symm⟩

theorem refl (e : Engine ρ) : Alike e e :=
  ⟨fun _ => rfl, fun _ => rfl, fun _ => rfl, fun _ => rfl, fun _ h => .inl h, ⟨rfl, id, rfl⟩⟩

theorem trans (h : Alike e e') (h' : Alike e' e'') : Alike e e'' where
  requests r := (h'.requests r).trans (h.requests r)
  lanes a := (h'.lanes a).trans (h.lanes a)
  workers a := (h'.workers a).trans (h.workers a)
  calls r := (h'.calls r).trans (h.calls r)
  works r hdue := by
    obtain hdue | ⟨q', hq', begun⟩ := h'.works r hdue
    · exact h.works r hdue
    · obtain ⟨q, hq, hcore⟩ := h.request_back hq'
      rw [isFresh_eq hcore] at begun
      exact .inr ⟨q, hq, begun⟩
  world := ⟨h'.world.logs.trans h.world.logs, h'.world.clear ∘ h.world.clear,
    h'.world.conflicts.trans h.world.conflicts⟩

theorem stage? (h : Alike e e') (r : Nat) : e'.stage? r = e.stage? r := by
  have same := congrArg (Option.map fun c => c.2.1) (h.requests r)
  rw [Option.map_map, Option.map_map] at same
  exact same

theorem queue (h : Alike e e') (a : AggregateId) : e'.queue a = e.queue a := by
  have same := congrArg (Option.map Prod.fst) (h.lanes a)
  rw [Option.map_map, Option.map_map] at same
  exact congrArg (fun l => l.getD []) same

theorem staff (h : Alike e e') (a : AggregateId) : e'.staff a = e.staff a := by
  have same := congrArg Option.isSome (h.lanes a)
  rw [Option.isSome_map, Option.isSome_map] at same
  rw [Engine.staff, same, Engine.staff]

end Alike

section AlikeOps
variable (e : Engine ρ)

theorem alike_schedule (t : Nat) (rank : Rank) {s : Signal} (hs : s.IsNotice) :
    Alike e (e.schedule t rank s) := by
  have due (s' : Signal) (hne : s ≠ s') : (e.schedule t rank s).due s' = e.due s' := by
    rw [due_schedule, if_neg hne, Nat.add_zero]
  refine ⟨fun _ => rfl, fun _ => rfl, fun a => due _ ?_, fun r => due _ ?_, fun r h => .inl ?_,
    ⟨rfl, id, rfl⟩⟩
  · rintro rfl
    exact hs
  · rintro rfl
    exact hs
  · rwa [due _ (by rintro rfl; exact hs)] at h

theorem alike_wake (rank : Rank) {s : Signal} (hs : s.IsNotice) : Alike e (e.wake rank s) :=
  e.alike_schedule e.now rank hs

/-- The pool, the waits for it and the world may change as long as the logs stay. -/
theorem alike_aside (p : Pool) (ds : List Drain) {w : World} (h : e.world.Alike w) :
    Alike e { e with pool := p, drains := ds, world := w } :=
  ⟨fun _ => rfl, fun _ => rfl, fun _ => rfl, fun _ => rfl, fun _ h => .inl h, h⟩

theorem alike_pool (p : Pool) : Alike e { e with pool := p } :=
  e.alike_aside p e.drains ⟨rfl, id, rfl⟩

theorem alike_modifyDrain (d : Nat) (f : Drain → Drain) : Alike e (e.modifyDrain d f) :=
  e.alike_aside e.pool (e.drains.modify d f) ⟨rfl, id, rfl⟩

theorem alike_count {m : Metric} (hm : m ≠ .conflicts) : Alike e (e.count m) :=
  e.alike_aside e.pool e.drains ⟨rfl, id, e.world.metrics.get_count hm⟩

theorem alike_gaugeLanes : Alike e e.gaugeLanes :=
  e.alike_aside e.pool e.drains ⟨rfl, id, e.world.metrics.get_set _ (by decide)⟩

theorem alike_modify (r : Nat) {f : Request ρ → Request ρ} (hf : ∀ q, (f q).core = q.core) :
    Alike e (e.modify r f) := by
  refine ⟨fun r' => ?_, fun _ => rfl, fun _ => rfl, fun _ => rfl, fun _ h => .inl h,
    ⟨rfl, id, rfl⟩⟩
  rw [request?_modify]
  split
  · cases e.request? r' with
    | none => rfl
    | some q => rw [Option.map_some, Option.map_some, Option.map_some, hf]
  · rfl

theorem alike_finish (a : AggregateId) : Alike e { e with lanes := e.lanes.finish a } := by
  refine ⟨fun _ => rfl, fun b => ?_, fun _ => rfl, fun _ => rfl, fun _ h => .inl h,
    ⟨rfl, id, rfl⟩⟩
  change ((e.lanes.table.modify a fun lane => { lane with current := none }).get? b).map _ = _
  rw [Assoc.get?_modify]
  split
  · rename_i hab
    subst hab
    rw [Option.map_map]
    rfl
  · rfl

/-- Work that has begun may become due at any time. -/
theorem alike_schedule_work (t : Nat) (rank : Rank) {r : Nat}
    {q : Request ρ} (hq : e.request? r = some q) (begun : ¬q.isFresh) :
    Alike e (e.schedule t rank (.work r)) where
  requests _ := rfl
  lanes _ := rfl
  workers a := by rw [due_schedule, if_neg (by simp), Nat.add_zero]
  calls r' := by rw [due_schedule, if_neg (by simp), Nat.add_zero]
  works r' hdue := by
    by_cases hr : r = r'
    · subst hr
      exact .inr ⟨q, hq, begun⟩
    · rw [due_schedule, if_neg fun h => hr (Signal.work.inj h), Nat.add_zero] at hdue
      exact .inl hdue
  world := ⟨rfl, id, rfl⟩

theorem alike_cancel (r : Nat) : Alike e (e.cancel r) := by
  rw [cancel]
  cases hq : e.request? r with
  | none => exact .refl e
  | some q =>
      have asked := e.alike_modify r (f := fun q => { q with cancelled := true }) fun _ => rfl
      dsimp only
      split
      · rename_i asleep
        obtain ⟨q', hq', hcore⟩ := asked.request hq
        refine asked.trans (alike_schedule_work _ _ _ hq' fun fresh => ?_)
        rw [Alike.isFresh_eq hcore, Request.isFresh] at fresh
        rw [Request.isWakeable] at asleep
        cases hw : q.work <;> simp [hw] at fresh asleep
      · exact asked

theorem alike_foldl {α : Type} (xs : List α) {f : Engine ρ → α → Engine ρ}
    (hf : ∀ e x, Alike e (f e x)) : Alike e (xs.foldl f e) := by
  refine List.foldlRecOn xs f (.refl e) fun e' kept x _ => ?_
  exact kept.trans (hf e' x)

theorem alike_nudge (c : Nat) : Alike e (e.nudge c) := by
  rw [nudge]
  split
  · exact e.alike_wake _ trivial
  · exact .refl e

theorem alike_tellLane (r : Nat) (q : Request ρ) : Alike e (e.tellLane r q) := by
  rw [tellLane]
  split
  · exact e.alike_wake _ trivial
  · exact .refl e

theorem alike_tellCaller (r : Nat) (q : Request ρ) : Alike e (e.tellCaller r q) := by
  rw [tellCaller]
  split
  · exact e.alike_wake _ trivial
  · exact .refl e

theorem alike_passSlot (handed : Option Nat × Pool) : Alike e (e.passSlot handed) := by
  have pool := e.alike_pool handed.2
  rw [passSlot]
  split
  · exact pool
  · split
    · exact pool.trans (alike_wake _ _ trivial)
    · exact pool

theorem alike_noticeEmpty : Alike e e.noticeEmpty := by
  rw [noticeEmpty]
  split
  · exact e.alike_foldl _ fun e d => e.alike_wake _ (s := .drained d.2) trivial
  · exact .refl e

theorem alike_abandon (d running : Nat) : Alike e (e.abandon d running) := by
  have asked := (e.alike_pool { e.pool with cancelled := true }).trans
    (alike_foldl _ e.pool.running alike_cancel)
  exact asked.trans (alike_modifyDrain _ d _)

theorem alike_onClose (d : Nat) : Alike e (e.onClose d) := by
  have nudged := (e.alike_pool e.pool.close).trans (alike_foldl _ e.pool.line alike_nudge)
  have noted (f : Drain → Drain) := nudged.trans (alike_modifyDrain _ d f)
  rw [onClose]
  split
  · exact (noted _).trans (alike_modifyDrain _ d _)
  · split
    · exact (noted _).trans (alike_abandon _ d _)
    · split
      · exact (noted _).trans (alike_schedule _ _ _ trivial)
      · exact noted _

theorem alike_onDrained (d : Nat) : Alike e (e.onDrained d) := by
  rw [onDrained]
  split
  · exact .refl e
  · split
    · exact .refl e
    · split
      · exact e.alike_modifyDrain d _
      · split
        · exact e.alike_abandon d _
        · exact .refl e

end AlikeOps
end Engine
end EventSourcing
