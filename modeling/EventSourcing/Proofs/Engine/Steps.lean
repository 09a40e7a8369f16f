import EventSourcing.Proofs.Engine.Keep

/-!
Steps of the engine that begin no work.
Calls, callers, workers of lanes, slots and outcomes, deadlines and the end of the pool: each of
these keeps the lanes in order and leaves the works, the logs and the conflicts as they are.
-/
namespace EventSourcing

namespace Request
variable {ρ : Type} {q : Request ρ} {due due' : Prop}

/-- What a request has to do, and how far it has come. -/
def task (q : Request ρ) : Route × Work ρ × Option Nat := (q.route, q.work, q.begun)

theorem Fits.running (h : q.Fits due) (c : Bool) :
    Fits { q with stage := .running, cancelled := c } due' :=
  { h with
    early := fun hs => by obtain hs | hs := hs <;> cases hs
    ready := fun _ _ => .inl rfl
    stopped := fun hs => by cases hs
    overrun := fun _ hs => by cases hs }

theorem Fits.notDue (h : q.Fits due) (hs : q.stage = .pending ∨ q.stage = .waiting) : ¬due := by
  intro hdue
  obtain place | ⟨o, place⟩ := h.ready hdue (h.early hs)
  · rw [place] at hs
    obtain hs | hs := hs <;> cases hs
  · rw [place] at hs
    obtain hs | hs := hs <;> cases hs

theorem Fits.waiting (h : q.Fits due) (hs : q.stage = .pending) :
    Fits { q with stage := .waiting } due :=
  { h with
    early := fun _ => h.early (.inl hs)
    ready := fun hdue => absurd hdue (h.notDue (.inl hs))
    stopped := fun hs => by cases hs
    overrun := fun _ hs => by cases hs }

/-- The outcome is known, but the work has yet to stop. -/
theorem Fits.overrunning (h : q.Fits due) {o : Ending ρ} (ho : ∃ p, o = .error (.pool p)) :
    Fits { q with stage := .overrun o } due :=
  { h with
    early := fun hs => by obtain hs | hs := hs <;> cases hs
    ready := fun _ _ => .inr ⟨o, rfl⟩
    stopped := fun hs => by cases hs
    overrun := fun o' hs => by
      cases hs
      exact ho }

theorem Fits.over (h : q.Fits due) {o : Ending ρ} (replied : q.MayTell o)
    (stops : (q.stage = .pending ∨ q.stage = .waiting) ∨ q.hasEnded) :
    Fits { q with stage := .over, result := some o } due where
  fresh := h.fresh
  early hs := by obtain hs | hs := hs <;> cases hs
  ready hdue fresh := by
    obtain early | ended := stops
    · exact absurd hdue (h.notDue early)
    · have fresh : q.isFresh = true := fresh
      rw [isFresh] at fresh
      rw [hasEnded] at ended
      cases hw : q.work <;> simp [hw] at fresh ended
  stopped _ := stops.imp_left h.early
  overrun _ hs := by cases hs
  result o' ho := by
    cases ho
    exact replied
  answer := h.answer
  idle := h.idle
  broken := h.broken

theorem Fits.replied (h : q.Fits due) {o : Ending ρ} (replied : q.MayTell o) (t : Nat) :
    Fits { q with answer := some (t, o) } due :=
  { h with
    answer := fun t' o' ho => by
      cases ho
      exact replied }

end Request

namespace Engine
variable {ρ : Type} {lane : Nat → AggregateId} {e₀ e e' : Engine ρ} {submitted : List Nat}
  {spare : Option AggregateId} {r : Nat} {o : Ending ρ}

/-- Works and logs have not changed, nor has what is known of conflicts. -/
structure Still (e e' : Engine ρ) : Prop where
  tasks : ∀ r, (e'.request? r).map Request.task = (e.request? r).map Request.task
  world : e.world.Alike e'.world

theorem Still.refl (e : Engine ρ) : Still e e := ⟨fun _ => rfl, rfl, id, rfl⟩

theorem Still.trans {e'' : Engine ρ} (h : Still e e') (h' : Still e' e'') : Still e e'' where
  tasks r := (h'.tasks r).trans (h.tasks r)
  world := ⟨h'.world.logs.trans h.world.logs, h'.world.clear ∘ h.world.clear,
    h'.world.conflicts.trans h.world.conflicts⟩

theorem Alike.still (h : Alike e e') : Still e e' where
  tasks r := by
    have same := congrArg (Option.map fun c => (c.1, c.2.2.1, c.2.2.2.1)) (h.requests r)
    rw [Option.map_map, Option.map_map] at same
    exact same
  world := h.world

theorem still_modify (e : Engine ρ) (r : Nat) {f : Request ρ → Request ρ}
    (hf : ∀ q, (f q).task = q.task) : Still e (e.modify r f) where
  tasks r' := by
    rw [request?_modify]
    split
    · cases e.request? r' with
      | none => rfl
      | some q => rw [Option.map_some, Option.map_some, Option.map_some, hf]
    · rfl
  world := ⟨rfl, id, rfl⟩

/-- The lanes are in order, and the works are still as they were. -/
structure Kept (lane : Nat → AggregateId) (e₀ e : Engine ρ) (submitted : List Nat)
    (spare : Option AggregateId) : Prop where
  order : Orderly lane e submitted spare
  still : Still e₀ e

/-- The request that is being done, with its outcome open. -/
structure Awaited (lane : Nat → AggregateId) (e : Engine ρ) (submitted : List Nat) (r : Nat) :
    Prop extends Doing lane e submitted r where
  outcome : e.stage? r = some .pending ∨ e.stage? r = some .waiting ∨ e.stage? r = some .running

theorem Awaited.alike (h : Awaited lane e submitted r) (same : Alike e e') :
    Awaited lane e' submitted r where
  toDoing := h.toDoing.alike same
  outcome := by
    rw [same.stage?]
    exact h.outcome

/-- A request that has left the queue and is not over is being done. -/
theorem Orderly.doing (h : Orderly lane e submitted spare) {q : Request ρ}
    (hq : e.request? r = some q) (left : q.stage ≠ .pending) (goes : q.stage ≠ .over) :
    Doing lane e submitted r where
  sent := Decidable.byContradiction fun hr => left (h.unsent r q hq hr)
  unfinished := by
    rw [stage?_eq hq]
    exact fun ended => goes (Option.some.inj ended)
  taken hr := by
    obtain ⟨past, doing, hcut, hpast, hdoing, hqueue, hcount⟩ := h.cut (lane r)
    have pending := hqueue r hr
    rw [stage?_eq hq] at pending
    exact left (Option.some.inj pending)

namespace Kept

theorem refl (h : Orderly lane e submitted spare) : Kept lane e e submitted spare := ⟨h, .refl e⟩

theorem alike (h : Kept lane e₀ e submitted spare) (same : Alike e e') :
    Kept lane e₀ e' submitted spare :=
  ⟨h.order.alike same, h.still.trans same.still⟩

theorem tell (h : Kept lane e₀ e submitted spare)
    (replied : ∀ q, e.request? r = some q → q.MayTell o) :
    Kept lane e₀ (e.tell r o) submitted spare where
  order := h.order.modify (fun _ => rfl)
    (fun q hq => (h.order.fits r q hq).replied (replied q hq) e.now) fun _ _ => .inl rfl
  still := h.still.trans (still_modify e r fun _ => rfl)

/-- The request that is being done comes to another place. -/
theorem move (h : Kept lane e₀ e submitted spare) (doing : Doing lane e submitted r)
    {f : Request ρ → Request ρ} (task : ∀ q, (f q).task = q.task)
    (goes : ∀ q, (f q).stage ≠ .over)
    (fits : ∀ q, e.request? r = some q → (f q).Fits (0 < e.due (.work r))) :
    Kept lane e₀ (e.modify r f) submitted spare ∧ Doing lane (e.modify r f) submitted r := by
  have route (q : Request ρ) : (f q).route = q.route := congrArg Prod.fst (task q)
  refine ⟨⟨h.order.modify route fits fun q _ => .inr ⟨doing, goes q⟩, ?_⟩, ?_⟩
  · exact h.still.trans (still_modify e r task)
  · exact doing.modify fun q _ => goes q

theorem tellTimeout (h : Kept lane e₀ e submitted spare) {p : PoolError} :
    Kept lane e₀ (e.tell r (.error (.pool p))) submitted spare :=
  h.tell fun _ _ => .inl ⟨p, rfl⟩

section Lane
variable (h : Kept lane e₀ e submitted none)
include h

/-- The request is over and its lane goes on, as soon as its work has stopped or will not begin. -/
theorem finishJob {q : Request ρ} (doing : Doing lane e submitted r)
    (replied : ∀ q, e.request? r = some q → q.MayTell o)
    (stops : ∀ q, e.request? r = some q → (q.stage = .pending ∨ q.stage = .waiting) ∨ q.hasEnded) :
    Kept lane e₀ (e.finishJob r q (lane r) o) submitted none := by
  have retired := h.order.retire doing (f := fun q => { q with stage := .over, result := some o })
    (fun _ => rfl) (fun q hq => (h.order.fits r q hq).over (replied q hq) (stops q hq)) fun _ => rfl
  have ended : Kept lane e₀ _ submitted (some (lane r)) :=
    ⟨retired, h.still.trans (still_modify e r fun _ => rfl)⟩
  have woken := (ended.alike (alike_finish _ (lane r))).alike
    (alike_wake _ (.notice q.foreground) (s := .caller r) trivial)
  exact ⟨woken.order.wake_worker .immediate, woken.still.tasks, woken.still.world⟩

theorem leavePool (awaited : Awaited lane e submitted r)
    (replied : ∀ q, e.request? r = some q → q.MayTell o) :
    Kept lane e₀ (e.leavePool r o) submitted none := by
  obtain ⟨q, hq⟩ := awaited.toDoing.request h.order
  have outcome := awaited.outcome
  rw [stage?_eq hq] at outcome
  simp only [Option.some.injEq] at outcome
  rw [Engine.leavePool, hq]
  simp only [h.order.routes r q hq]
  have early (hs : q.stage = .pending ∨ q.stage = .waiting) :
      Kept lane e₀ (e.finishJob r q (lane r) o) submitted none := by
    refine h.finishJob awaited.toDoing replied fun q' hq' => .inl ?_
    rw [hq, Option.some.injEq] at hq'
    rw [← hq']
    exact hs
  obtain hs | hs | hs := outcome
  · simp only [hs]
    exact early (.inl hs)
  · simp only [hs]
    exact early (.inr hs)
  · simp only [hs]
    split
    · rename_i ended
      refine h.finishJob awaited.toDoing replied fun q' hq' => .inr ?_
      rw [hq, Option.some.injEq] at hq'
      rw [← hq']
      exact ended
    · rename_i goes
      have pool : ∃ p, o = .error (.pool p) := by
        obtain pool | ended := replied q hq
        · exact pool
        · rw [Request.hasEnded, ended] at goes
          exact absurd rfl goes
      have moved := h.move awaited.toDoing (f := fun q => { q with stage := .overrun o })
        (fun _ => rfl) (fun _ => by simp) fun q' hq' => (h.order.fits r q' hq').overrunning pool
      exact moved.1

theorem expire (awaited : Awaited lane e submitted r) (limit : Nat) :
    Kept lane e₀ (e.expire r limit) submitted none := by
  have counted := alike_count e (m := .poolTimeouts) (by decide)
  exact (h.alike counted).leavePool (awaited.alike counted) fun _ _ => .inl ⟨_, rfl⟩

theorem startWork {q : Request ρ} (awaited : Awaited lane e submitted r)
    (hq : e.request? r = some q) : Kept lane e₀ (e.startWork r q) submitted none := by
  let running := e.modify r fun q => { q with stage := .running, cancelled := e.pool.cancelled }
  obtain ⟨placed, doing⟩ : Kept lane e₀ running submitted none ∧ Doing lane running submitted r :=
    h.move awaited.toDoing (fun _ => rfl) (fun _ => by simp) fun q hq =>
      (h.order.fits r q hq).running e.pool.cancelled
  have stage : running.stage? r = some .running := by
    rw [stage?_eq (request?_modify_self hq _)]
  let started := running.wake .background (.work r)
  have begun : Kept lane e₀ started submitted none := by
    have made := Option.isSome_iff_exists.2 (doing.request placed.order)
    refine ⟨placed.order.schedule_work running.now .background made fun q' hq' _ => .inl ?_,
      placed.still.tasks, placed.still.world⟩
    rw [stage?_eq hq'] at stage
    exact Option.some.inj stage
  have awaited : Awaited lane started submitted r :=
    ⟨⟨doing.sent, doing.unfinished, doing.taken⟩, .inr (.inr stage)⟩
  rw [Engine.startWork]
  split
  · have same := alike_cancel started r
    exact (begun.alike same).expire (awaited.alike same) q.poolLimit
  · split
    · exact begun.alike (alike_schedule _ _ _ trivial)
    · exact begun

theorem enterPool (doing : Doing lane e submitted r) (hs : e.stage? r = some .pending)
    (limit : Nat) : Kept lane e₀ (e.enterPool r limit) submitted none := by
  have same := alike_modify e r (f := fun q => { q with poolLimit := limit }) fun _ => rfl
  have limited := h.alike same
  have awaited : Awaited lane _ submitted r :=
    Awaited.alike ⟨doing, .inl hs⟩ same
  obtain ⟨q, hq⟩ := awaited.toDoing.request limited.order
  have pending : q.stage = .pending := by
    rw [← same.stage?, stage?_eq hq] at hs
    exact Option.some.inj hs
  rw [Engine.enterPool]
  simp only [hq]
  split
  · exact limited.leavePool awaited fun _ _ => .inl ⟨_, rfl⟩
  · rename_i pool _
    have same := alike_pool (e.modify r fun q => { q with poolLimit := limit }) pool
    exact (limited.alike same).startWork (awaited.alike same) hq
  · rename_i pool _
    split
    · exact limited.expire awaited limit
    · have same := alike_pool (e.modify r fun q => { q with poolLimit := limit }) pool
      have queued := limited.alike same
      obtain ⟨waiting, _⟩ := queued.move (awaited.alike same).toDoing
        (f := fun q => { q with stage := .waiting }) (fun _ => rfl) (fun _ => by simp)
        fun q' hq' => by
          have hq' : some q = some q' := hq.symm.trans hq'
          cases hq'
          exact (queued.order.fits r q hq).waiting pending
      split
      · exact waiting.alike (alike_schedule _ _ _ trivial)
      · exact waiting

theorem enterLane (made : (e.request? r).isSome) (fresh : r ∉ submitted)
    (uncalled : e.due (.call r) = 0) :
    Kept lane e₀ (e.enterLane r (lane r)) (submitted ++ [r]) none := by
  have put := h.order.submit made fresh uncalled
  have still : Still e₀ { e with lanes := (e.lanes.submit (lane r) r).2 } :=
    ⟨h.still.tasks, h.still.world⟩
  rw [Engine.enterLane]
  cases hl : e.lanes.submit (lane r) r with
  | mk isNew lanes =>
      rw [hl] at put still
      cases isNew with
      | false => exact ⟨put, still⟩
      | true =>
          have gauged := Kept.alike ⟨put, still⟩ (alike_gaugeLanes _)
          exact ⟨gauged.order.wake_worker .background, gauged.still.tasks, gauged.still.world⟩

end Lane
end Kept

section Signals
variable (h : Orderly lane e submitted none)
include h

theorem kept_onCall (made : (e.request? r).isSome) (fresh : r ∉ submitted)
    (uncalled : e.due (.call r) = 0) : Kept lane e (e.onCall r) (submitted ++ [r]) none := by
  have same := alike_modify e r (f := fun q => { q with called := e.now }) fun _ => rfl
  have noted := (Kept.refl h).alike same
  obtain ⟨q₀, hq₀⟩ := Option.isSome_iff_exists.1 made
  obtain ⟨q, hq, _⟩ := same.request hq₀
  have entered := noted.enterLane (by rw [hq]; rfl) fresh ((same.calls r).trans uncalled)
  rw [Engine.onCall]
  simp only [hq, noted.order.routes r q hq]
  split
  · exact entered.tellTimeout
  · split
    · exact entered.alike (alike_schedule _ _ _ trivial)
    · exact entered

theorem kept_onCaller (r : Nat) : Kept lane e (e.onCaller r) submitted none := by
  have kept := Kept.refl h
  rw [Engine.onCaller]
  cases hq : e.request? r with
  | none => exact kept
  | some q =>
      dsimp only
      split
      · exact kept
      · split
        · rename_i o ho
          refine kept.tell fun q' hq' => ?_
          rw [hq, Option.some.injEq] at hq'
          rw [← hq']
          exact (h.fits r q hq).result o ho
        · split
          · exact kept.tellTimeout
          · exact kept

theorem kept_startJob (doing : Doing lane e submitted r) (hs : e.stage? r = some .pending) :
    Kept lane e (e.startJob r) submitted none := by
  have kept := Kept.refl h
  obtain ⟨q, hq⟩ := doing.request h
  rw [Engine.startJob]
  simp only [hq, h.routes r q hq]
  split
  · refine kept.finishJob doing (fun _ _ => .inl ⟨_, rfl⟩) fun q' hq' => .inl (.inl ?_)
    rw [stage?_eq hq'] at hs
    exact Option.some.inj hs
  · exact kept.enterPool doing hs _

theorem kept_onSlot (r : Nat) : Kept lane e (e.onSlot r) submitted none := by
  have kept := Kept.refl h
  rw [Engine.onSlot]
  cases hq : e.request? r with
  | none => exact kept
  | some q =>
      dsimp only
      split
      · rename_i hs
        have awaited : Awaited lane e submitted r :=
          ⟨h.doing hq (by simp [hs]) (by simp [hs]), .inr (.inl ((stage?_eq hq).trans (by rw [hs])))⟩
        split
        · split
          · have same := alike_passSlot e (e.pool.decline r)
            exact (kept.alike same).leavePool (awaited.alike same) fun _ _ => .inl ⟨_, rfl⟩
          · exact kept.leavePool awaited fun _ _ => .inl ⟨_, rfl⟩
        · split
          · have same := alike_pool e (e.pool.take r)
            exact (kept.alike same).startWork (awaited.alike same) hq
          · split
            · have same := alike_pool e (e.pool.leave r)
              exact (kept.alike same).expire (awaited.alike same) q.poolLimit
            · exact kept
      · exact kept

theorem kept_onOutcome (r : Nat) : Kept lane e (e.onOutcome r) submitted none := by
  have kept := Kept.refl h
  rw [Engine.onOutcome]
  cases hq : e.request? r with
  | none => exact kept
  | some q =>
      have replied {o : Ending ρ} (ho : q.MayTell o) (q' : Request ρ)
          (hq' : e.request? r = some q') : q'.MayTell o := by
        rw [hq, Option.some.injEq] at hq'
        rwa [← hq']
      dsimp only
      split
      · rename_i o hs hw
        have doing := h.doing hq (by simp [hs]) (by simp [hs])
        exact kept.leavePool ⟨doing, .inr (.inr ((stage?_eq hq).trans (by rw [hs])))⟩
          (replied (.inr hw))
      · rename_i hs _
        have doing := h.doing hq (by simp [hs]) (by simp [hs])
        have awaited : Awaited lane e submitted r :=
          ⟨doing, .inr (.inr ((stage?_eq hq).trans (by rw [hs])))⟩
        split
        · have same := alike_cancel e r
          exact (kept.alike same).expire (awaited.alike same) q.poolLimit
        · exact kept
      · rename_i o x hs hw
        have doing := h.doing hq (by simp [hs]) (by simp [hs])
        simp only [h.routes r q hq]
        refine kept.finishJob doing (replied (.inl ((h.fits r q hq).overrun o hs)))
          fun q' hq' => .inr ?_
        rw [hq, Option.some.injEq] at hq'
        rw [← hq', Request.hasEnded, hw]
      · exact kept

end Signals

theorem kept_onWorker {a : AggregateId} (h : Orderly lane e submitted (some a)) :
    Kept lane e (e.onWorker a) submitted none := by
  rw [Engine.onWorker]
  obtain ⟨r, lanes, took, order, _, doing, hs⟩ | ⟨lanes, gone, order⟩ := h.takeOrRetire
  · rw [took]
    obtain ⟨order, still⟩ := kept_startJob order doing hs
    exact ⟨order, still.tasks, still.world⟩
  · rw [gone]
    obtain ⟨order, still⟩ := (Kept.refl order).alike (alike_gaugeLanes _)
    exact ⟨order, still.tasks, still.world⟩

end Engine
end EventSourcing
