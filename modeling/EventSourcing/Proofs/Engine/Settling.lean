import EventSourcing.Proofs.Engine.Touches
import EventSourcing.Proofs.Pool.Becomes

/-!
How a caller of a command comes to its answer.
As long as nothing is decided, its deadline stands in the agenda before every look at the pool that
is due as late as that. Its answer is decided by the end of its work, by a refusal, or by its
deadline. From then on it is under way at that very moment, and nothing else makes a difference
to it.
-/
namespace EventSourcing

namespace Request
variable {ρ : Type} {q : Request ρ} {now t deadline l : Nat}

/-- Nothing is decided for the caller of a request: its work, where it has a place to run, has
neither been asked to stop nor ended before the deadline. -/
structure Open (q : Request ρ) (now deadline l : Nat) : Prop where
  limit : q.limit = some l
  ends : q.called + l = deadline
  unreplied : q.answer = none
  unsent : q.result = none
  place : q.isEarly ∨
    q.stage = .running ∧ q.cancelled = false ∧ (q.hasEnded = true → deadline ≤ now)

namespace Open
variable (h : q.Open now deadline l)
include h

theorem overdue_iff : q.overdue t = true ↔ deadline ≤ t := by
  have d : q.deadline? = some deadline := by
    rw [deadline?, h.limit, Option.map_some, h.ends]
  rw [overdue, d]
  exact decide_eq_true_iff

theorem inTime (early : t < deadline) : q.overdue t = false := by
  rw [← Bool.not_eq_true, h.overdue_iff]
  omega

theorem later (passes : now ≤ t) : q.Open t deadline l where
  limit := h.limit
  ends := h.ends
  unreplied := h.unreplied
  unsent := h.unsent
  place := h.place.imp_right fun ⟨running, goes, late⟩ =>
    ⟨running, goes, fun ended => Nat.le_trans (late ended) passes⟩

end Open
end Request

namespace Engine
variable {ρ : Type} {e : Engine ρ} {r : Nat} {q q' : Request ρ} {a : AggregateId} {o : Ending ρ}

/-! What a handler does to the request that it is about. -/

theorem request?_finishJob (hq : e.request? r = some q) :
    (e.finishJob r q' a o).request? r = some (q.close o) :=
  request?_modify_self hq _

theorem dueAt_finishJob (e : Engine ρ) (q : Request ρ) :
    (e.finishJob r q a o).DueAt (.caller r) e.now :=
  dueAt_wake.2 (.inr (dueAt_wake_self ..))

section Pooled
variable (hq : e.request? r = some q) (route : q.route = .laneThenPool a)
include hq route

/-- The pool has answered before the work came to a slot, or after it has stopped. -/
theorem leavePool_eq (stops : q.isEarly ∨ q.stage = .running ∧ q.hasEnded = true) :
    e.leavePool r o = e.finishJob r q a o := by
  rw [leavePool]
  simp only [hq, route]
  obtain (pending | waiting) | ⟨running, ended⟩ := stops
  · simp only [pending]
  · simp only [waiting]
  · simp only [running, ended, if_true]

omit route in
theorem request?_startWork {x : Request ρ} (early : x.overdue e.now = false) :
    (e.startWork r x).request? r =
      some { q with stage := .running, cancelled := e.pool.cancelled } := by
  have placed := request?_modify_self hq
    fun q => { q with stage := .running, cancelled := e.pool.cancelled }
  have inTime : ¬x.overdue e.now = true := by simp [early]
  rw [startWork]
  change (if x.overdue e.now = true then _ else _ : Engine ρ).request? r = _
  rw [if_neg inTime]
  split <;> exact placed

section Entering
variable {p : Pool} {l : Nat}

/-- Whoever is refused by the pool is over at once. -/
theorem enterPool_refused (pending : q.stage = .pending) {why : PoolError}
    (arrives : e.pool.arrive r = (.refused why, p)) :
    (e.enterPool r l).request? r =
        some (Request.close { q with poolLimit := l } (.error (.pool why))) ∧
      (e.enterPool r l).DueAt (.caller r) e.now := by
  let noted : Engine ρ := e.modify r fun q => { q with poolLimit := l }
  have hnoted : noted.request? r = some { q with poolLimit := l } := request?_modify_self hq _
  have leaves : e.enterPool r l =
      noted.finishJob r { q with poolLimit := l } a (.error (.pool why)) := by
    rw [PoolTraffic.enterPool_eq hq, arrives]
    exact leavePool_eq hnoted route (.inl (.inl pending))
  rw [leaves]
  exact ⟨request?_finishJob hnoted, dueAt_finishJob noted _⟩

omit route in
theorem enterPool_admitted (inTime : q.overdue e.now = false)
    (arrives : e.pool.arrive r = (.admitted, p)) : (e.enterPool r l).request? r =
      some { q with poolLimit := l, stage := .running, cancelled := e.pool.cancelled } := by
  rw [PoolTraffic.enterPool_eq hq, arrives, ← (Pool.arrive_keeps arrives).2]
  let noted : Engine ρ := e.modify r fun q => { q with poolLimit := l }
  have hnoted : noted.request? r = some { q with poolLimit := l } := request?_modify_self hq _
  exact request?_startWork (e := { noted with pool := p }) (x := { q with poolLimit := l }) hnoted
    inTime

omit route in
theorem enterPool_inLine (inTime : q.overdue e.now = false)
    (arrives : e.pool.arrive r = (.inLine, p)) : (e.enterPool r l).request? r =
      some { q with poolLimit := l, stage := .waiting } := by
  let noted : Engine ρ := e.modify r fun q => { q with poolLimit := l }
  have hnoted : noted.request? r = some { q with poolLimit := l } := request?_modify_self hq _
  have early : ¬Request.overdue { q with poolLimit := l } noted.now = true := by
    rw [Bool.not_eq_true]
    exact inTime
  have waits := request?_modify_self (e := { noted with pool := p }) hnoted
    fun q => { q with stage := .waiting }
  rw [PoolTraffic.enterPool_eq hq, arrives, PoolTraffic.answered, if_neg early]
  dsimp only
  split <;> exact waits

end Entering

omit route in
theorem endWork_running (route : q'.route = .laneThenPool a) (running : q'.stage = .running)
    (isOpen : e.pool.closing = false) :
    (e.endWork r q' o).request? r = some { q with work := .ended o } ∧
      (e.endWork r q' o).DueAt (.outcome r) e.now := by
  let ended : Engine ρ := e.modify r fun q => { q with work := .ended o }
  let passed : Engine ρ := ended.passSlot (e.pool.release r)
  have now : passed.now = e.now ∧ passed.pool.closing = false := by
    simp only [passed, passSlot, Pool.release, Pool.handOver]
    cases e.pool.line with
    | nil => exact ⟨rfl, isOpen⟩
    | cons c rest =>
        dsimp only
        split <;> exact ⟨rfl, isOpen⟩
  have same : e.endWork r q' o = passed.wake (.notice q'.poolInFront) (.outcome r) := by
    have quiet : passed.noticeEmpty = passed := by
      rw [noticeEmpty, if_neg (by simp [now.2])]
    rw [endWork]
    simp only [route, running]
    change passed.noticeEmpty.wake _ _ = _
    rw [quiet]
  rw [same]
  refine ⟨?_, now.1 ▸ dueAt_wake_self ..⟩
  exact (ended.request?_passSlot _ r).trans (request?_modify_self hq _)

end Pooled

section Working
variable (hq : e.request? r = some q) (route : q'.route = .laneThenPool a)
  (running : q'.stage = .running) (isOpen : e.pool.closing = false)
include hq route running isOpen

/-- Work that is waited for goes on to sleep, or it ends, and then its caller looks at it. -/
theorem runWork_running (x : Activity ρ) :
    ∃ w, (e.runWork r q' x).request? r = some { q with work := w } ∧
      ∀ o, (w = .ended o ↔ (x.advance q'.cancelled e.world).2.end? = some o) ∧
        (w = .ended o → (e.runWork r q' x).DueAt (.outcome r) e.now) := by
  let e₁ : Engine ρ := { e with world := (x.advance q'.cancelled e.world).1 }
  have now : e₁.now = e.now := x.advance_now q'.cancelled e.world
  have ends (o : Ending ρ) (h : e.runWork r q' x = e₁.endWork r q' o)
      (stops : (x.advance q'.cancelled e.world).2.end? = some o) :
      ∃ w, (e.runWork r q' x).request? r = some { q with work := w } ∧
        ∀ o, (w = .ended o ↔ (x.advance q'.cancelled e.world).2.end? = some o) ∧
          (w = .ended o → (e.runWork r q' x).DueAt (.outcome r) e.now) := by
    obtain ⟨here, due⟩ := endWork_running (e := e₁) (o := o) hq route running isOpen
    rw [now] at due
    rw [h]
    refine ⟨.ended o, here, fun o' => ⟨?_, fun _ => due⟩⟩
    rw [stops, Work.ended.injEq, Option.some.injEq]
  cases pause : (x.advance q'.cancelled e.world).2 with
  | finished y =>
      rw [pause] at ends
      refine ends (.ok y) ?_ rfl
      rw [runWork]
      simp only [pause]
      rfl
  | panicked =>
      rw [pause] at ends
      refine ends (.error (.pool .panicked)) ?_ rfl
      rw [runWork]
      simp only [pause, route, breakdown]
      rfl
  | asleep ms wakeable rest =>
      refine ⟨.asleep (e₁.now + ms) wakeable rest, ?_, fun o => ⟨by simp [Activity.Pause.end?], ?_⟩⟩
      · rw [runWork]
        simp only [pause]
        exact request?_modify_self (e := e₁) hq _
      · intro ended
        cases ended

end Working

/-- Work that has something to run does so, unless it has been asked to stop. -/
theorem onWork_of_runs (hq : e.request? r = some q) (route : q.route = .laneThenPool a)
    (goes : q.cancelled = false) {x : Activity ρ} (runs : q.runs? e.now = some x) :
    ∃ (e₁ : Engine ρ) (begun : Option Nat), e.onWork r = e₁.runWork r q x ∧ e₁.world = e.world ∧
      e₁.pool = e.pool ∧ e₁.request? r = some { q with begun } := by
  rw [Request.runs?] at runs
  cases hw : q.work with
  | ended o =>
      rw [hw] at runs
      cases runs
  | fresh y =>
      rw [hw] at runs
      cases runs
      refine ⟨e.modify r fun q => { q with begun := some e.now }, some e.now, ?_, rfl, rfl, ?_⟩
      · rw [onWork]
        simp only [hq, hw, goes, route]
      · rw [← hw]
        exact request?_modify_self hq _
  | asleep wake wakeable rest =>
      simp only [hw, goes, Bool.and_false, Bool.false_eq_true, if_false] at runs
      split at runs
      · rename_i woken
        cases runs
        refine ⟨e, q.begun, ?_, rfl, rfl, by rw [← hw]; exact hq⟩
        rw [onWork]
        simp only [hq, hw, goes, Bool.and_false, Bool.false_eq_true, if_false, if_pos woken]
      · cases runs

/-- Work that is waited for has ended after its turn if it had before, or ends in the turn. -/
theorem onWork_running (hq : e.request? r = some q) (route : q.route = .laneThenPool a)
    (running : q.stage = .running) (goes : q.cancelled = false) (isOpen : e.pool.closing = false) :
    ∃ begun w, (e.onWork r).request? r = some { q with begun, work := w } ∧
      (∀ o, w = .ended o → q.hasEnded = true ∨ Turn.ends? ⟨e, .work r⟩ r = some o) ∧
      ∀ o, Turn.ends? ⟨e, .work r⟩ r = some o →
        w = .ended o ∧ (e.onWork r).DueAt (.outcome r) e.now := by
  have ends := PoolTraffic.ends?_onWork hq
  cases runs : q.runs? e.now with
  | none =>
      rw [runs, Option.bind_none] at ends
      rw [ends, PoolTraffic.onWork_of_idle hq runs]
      refine ⟨q.begun, q.work, hq, fun o ended => .inl ?_, fun o ends => (by cases ends)⟩
      rw [Request.hasEnded, ended]
  | some x =>
      obtain ⟨e₁, begun, same, world, pool, here⟩ := onWork_of_runs hq route goes runs
      rw [← pool] at isOpen
      obtain ⟨w, after, stops⟩ := runWork_running here route running isOpen x
      rw [world] at stops
      rw [runs, Option.bind_some] at ends
      have now : e₁.now = e.now := congrArg World.now world
      rw [ends, same, ← now]
      refine ⟨begun, w, after, fun o ended => .inr ((stops o).1.1 ended), fun o ended => ?_⟩
      exact ⟨(stops o).1.2 ended, (stops o).2 ((stops o).1.2 ended)⟩

/-- The answer for a caller is decided: it looks for it at the very moment, or has been told. Who is
told while its request is not over has waited up to its deadline. -/
inductive Decided (e : Engine ρ) (due : Signal → Nat → Prop) (r deadline τ : Nat) (o : Ending ρ) :
    Prop where
  | ended {q : Request ρ} (hq : e.request? r = some q) (running : q.stage = .running)
      (work : q.work = .ended o) (unreplied : q.answer = none) (unsent : q.result = none)
      (inTime : q.overdue e.now = false) (now : e.now = τ) (looks : due (.outcome r) τ)
  | sent {q : Request ρ} (hq : e.request? r = some q) (isOver : q.stage = .over)
      (result : q.result = some o) (unreplied : q.answer = none) (now : e.now = τ)
      (looks : due (.caller r) τ)
  | replied {q : Request ρ} (hq : e.request? r = some q) (answer : q.answer = some (τ, o))
      (done : q.stage = .over ∨ deadline ≤ e.now)

section Decided
variable {e' : Engine ρ} {due : Signal → Nat → Prop} {deadline τ : Nat}

theorem Decided.passes (h : e.Decided e.DueAt r deadline τ o) (passes : Passes e e' due) :
    e'.Decided due r deadline τ o := by
  cases h with
  | ended hq running work unreplied unsent inTime now looks =>
      subst now
      have now := passes.now_eq looks
      rw [← now] at inTime
      exact .ended (passes.requests r _ hq) running work unreplied unsent inTime now
        (passes.stays _ _ looks)
  | sent hq isOver result unreplied now looks =>
      subst now
      exact .sent (passes.requests r _ hq) isOver result unreplied (passes.now_eq looks)
        (passes.stays _ _ looks)
  | replied hq answer done =>
      refine .replied (passes.requests r _ hq) answer (done.imp_right fun late => ?_)
      exact Nat.le_trans late passes.now

/-- Once the moment is past at which the answer was decided, it has been told. -/
theorem Decided.answer (h : e.Decided e.DueAt r deadline τ o) (past : e.Past τ) :
    e.answer? r = some (τ, o) := by
  cases h with
  | ended _ _ _ _ _ _ _ looks | sent _ _ _ _ _ looks =>
      exact (past.not_due looks (Nat.le_refl _)).elim
  | replied hq answer =>
      rw [answer?, hq, Option.bind_some]
      exact answer

theorem Decided.answer_eq {x : Nat × Ending ρ} (h : e.Decided due r deadline τ o)
    (answer : e.answer? r = some x) : x = (τ, o) := by
  cases h with
  | ended hq _ _ unreplied | sent hq _ _ unreplied =>
      rw [answer?, hq, Option.bind_some, unreplied] at answer
      cases answer
  | replied hq replied =>
      rw [answer?, hq, Option.bind_some, replied] at answer
      exact (Option.some.inj answer).symm

end Decided

/-- Nothing is decided for a caller, which waits for its deadline. -/
structure Undecided (e : Engine ρ) (r deadline l : Nat) : Prop where
  request : ∃ q, e.request? r = some q ∧ q.Open e.now deadline l
  waits : ∃ rank : Rank, rank.place ≤ 2 ∧
    Agenda.Leads (Due.Looks r) ⟨deadline, rank, .caller r⟩ e.agenda

theorem Undecided.unreplied {deadline l : Nat} (h : e.Undecided r deadline l) :
    e.answer? r = none := by
  obtain ⟨q, hq, isOpen⟩ := h.request
  rw [answer?, hq, Option.bind_some]
  exact isOpen.unreplied

theorem Undecided.not_past {deadline l : Nat} (h : e.Undecided r deadline l) :
    ¬e.Past deadline := by
  obtain ⟨rank, _, leads⟩ := h.waits
  intro past
  exact absurd (past.2 _ leads.mem) (Nat.lt_irrefl _)

end Engine

namespace Turn
variable {ρ : Type} {t : Turn ρ} {r : Nat}

/-- What comes of a request in the turn, if anything does: its work ends, or the pool refuses it
when its lane brings it there in time. -/
def outcome? (t : Turn ρ) (r : Nat) : Option (Ending ρ) :=
  match t.signal with
  | .work _ => t.ends? r
  | .worker a =>
    if (t.engine.lanes.takeOrRetire a).1 = some r then
      (t.engine.request? r).bind fun q =>
        if q.overdue t.time then none
        else match (t.engine.pool.arrive r).1 with
          | .refused why => some (.error (.pool why))
          | _ => none
    else none
  | _ => none

theorem about_of_outcome {o : Ending ρ} (h : t.outcome? r = some o) : t.about = some r := by
  rw [outcome?] at h
  rw [about]
  split at h
  · rename_i r' hs
    have same := signal_of_ends (Option.isSome_of_eq_some h)
    rw [same]
  · rename_i a hs
    split at h
    · rename_i takes
      rw [hs]
      exact takes
    · cases h
  · cases h

/-- A caller for whom nothing is decided: its turn has come, or it waits for its deadline and is met
by no look at the pool that is as late. -/
structure Undecided (t : Turn ρ) (r deadline l : Nat) : Prop where
  request : ∃ q, t.engine.request? r = some q ∧ q.Open t.time deadline l
  soon : t.time ≤ deadline
  waits : t.signal = .caller r ∧ t.time = deadline ∨
    (∃ rank : Rank, rank.place ≤ 2 ∧
      Agenda.Leads (Due.Looks r) ⟨deadline, rank, .caller r⟩ t.engine.agenda) ∧
    (t.signal = .slot r ∨ t.signal = .outcome r → t.time < deadline)

theorem Undecided.early_of_look {deadline l : Nat} (h : t.Undecided r deadline l)
    (hs : t.signal = .slot r ∨ t.signal = .outcome r) : t.time < deadline := by
  obtain ⟨caller, _⟩ | ⟨_, early⟩ := h.waits
  · obtain hs | hs := hs <;> cases hs.symm.trans caller
  · exact early hs

/-- What a turn makes of a caller for whom nothing is decided: what comes of the request before its
deadline decides, and so does the deadline. -/
def Proceeds (t : Turn ρ) (r deadline l : Nat) : Prop :=
  (∃ o, t.outcome? r = some o ∧ t.time < deadline ∧
    t.after.Decided t.after.DueAt r deadline t.time o) ∨
  (∀ o, t.outcome? r = some o → deadline ≤ t.time) ∧
    (t.after.Undecided r deadline l ∨
      t.after.Decided t.after.DueAt r deadline deadline (.error (.pool (.timeout l))))

end Turn

namespace CommandEngine
open Engine
variable {S ε : Type} {m : CommandEngine S ε} {calls : Nat → CommandCall} {sent : List Nat}
  {t : Turn (CommandResult S ε)} {r deadline τ l : Nat} {q : Request (CommandResult S ε)}
  {o : Ending (CommandResult S ε)}

/-- The engine is in order when it meets a signal, and nobody shuts the pool down. -/
structure Calm (m : CommandEngine S ε) (calls : Nat → CommandCall) (sent : List Nat)
    (t : Turn (CommandResult S ε)) : Prop extends m.Facing calls sent t where
  undisturbed : t.engine.Undisturbed sent
  mild : Due.IsMild sent ⟨t.time, .background, t.signal⟩

namespace Calm
variable (h : m.Calm calls sent t)
include h

theorem touches : Touches (sent ++ t.signal.submits) t.about t.engine t.after :=
  h.toFacing.touches h.undisturbed h.mild

/-- A request that has left its lane is neither called nor taken from the lane. -/
theorem signal_of_about (hq : t.engine.request? r = some q) (came : q.stage ≠ .pending)
    (about : t.about = some r) :
    t.signal = .caller r ∨ t.signal = .slot r ∨ t.signal = .outcome r ∨ t.signal = .work r := by
  have order := h.order
  have uncalled := h.fit.call
  rw [Turn.about] at about
  cases hs : t.signal with
  | call r' =>
      rw [hs, Option.some.injEq] at about
      subst about
      exact absurd (h.order.unsent r' q hq (uncalled r' hs).1) came
  | worker a =>
      rw [hs] at about order
      obtain ⟨r', lanes, took, _, _, _, pending⟩ | ⟨lanes, gone, _⟩ := order.takeOrRetire
      · simp only [took, Option.some.injEq] at about
        subst about
        rw [stage?_eq hq, Option.some.injEq] at pending
        exact absurd pending came
      · simp only [gone] at about
        cases about
  | caller r' | slot r' | outcome r' | work r' =>
      rw [hs, Option.some.injEq] at about
      simp [about]
  | close d | drained d =>
      rw [hs] at about
      cases about

/-- Work of a request that is over has stopped, if it is due. -/
theorem stopped_of_over (hs : t.signal = .work r) (hq : t.engine.request? r = some q)
    (isOver : q.stage = .over) : q.hasEnded = true := by
  refine ((h.order.fits r q hq).stopped isOver).resolve_left fun fresh => ?_
  obtain running | ⟨o, overran⟩ := h.fit.work r hs q hq fresh
  · simp [isOver] at running
  · simp [isOver] at overran

/-- Nothing more comes of a request whose work has stopped or that is over. -/
theorem outcome?_eq_none (hq : t.engine.request? r = some q) (came : q.stage ≠ .pending)
    (done : q.hasEnded = true ∨ q.stage = .over) : t.outcome? r = none := by
  rw [← Option.not_isSome_iff_eq_none]
  intro comes
  obtain ⟨o, comes⟩ := Option.isSome_iff_exists.1 comes
  obtain hs | hs | hs | hs := h.signal_of_about hq came (Turn.about_of_outcome comes)
  · simp [Turn.outcome?, hs] at comes
  · simp [Turn.outcome?, hs] at comes
  · simp [Turn.outcome?, hs] at comes
  · have stopped := done.elim id (h.stopped_of_over hs hq)
    simp only [Turn.outcome?, hs, Turn.ends?, if_true, hq, Option.bind_some, Request.runs?] at comes
    rw [Request.hasEnded] at stopped
    cases hw : q.work with
    | ended o => simp [hw] at comes
    | fresh | asleep => simp [hw] at stopped

/-- Once its answer is decided, nothing more comes of a request before its deadline. -/
theorem outcome_of_decided (decided : t.engine.Decided t.DueAt r deadline τ o)
    {o' : Ending (CommandResult S ε)} (comes : t.outcome? r = some o') : deadline ≤ t.time := by
  have nothing {q : Request (CommandResult S ε)} (hq : t.engine.request? r = some q)
      (came : q.stage ≠ .pending) (done : q.hasEnded = true ∨ q.stage = .over) :
      deadline ≤ t.time := by
    rw [h.outcome?_eq_none hq came done] at comes
    cases comes
  cases decided with
  | ended hq running work =>
      exact nothing hq (by simp [running]) (.inl (by rw [Request.hasEnded, work]))
  | sent hq isOver => exact nothing hq (by simp [isOver]) (.inr isOver)
  | replied hq _ done =>
      obtain isOver | late := done
      · exact nothing hq (by simp [isOver]) (.inr isOver)
      · exact late

/-- An answer that is decided stays so, and comes to its caller. -/
theorem decided (decided : t.engine.Decided t.DueAt r deadline τ o) :
    t.after.Decided t.after.DueAt r deadline τ o := by
  have touches := h.touches
  cases decided with
  | replied hq answer done =>
      obtain ⟨q', hq', on⟩ := h.goesOn.requests r _ hq
      refine .replied hq' (on.answer _ answer) (done.imp on.isOver fun late => ?_)
      rw [touches.now]
      exact late
  | @ended q hq running work unreplied unsent inTime now looks =>
      have stays (same : t.after.request? r = some q) (other : t.signal ≠ .outcome r) :
          t.after.Decided t.after.DueAt r deadline τ o := by
        refine .ended same running work unreplied unsent ?_ (touches.now.trans now)
          (touches.dueAt (looks.resolve_left fun here => other here.1))
        rw [touches.now]
        exact inTime
      have came : q.stage ≠ .pending := by simp [running]
      by_cases about : t.about = some r
      · obtain hs | hs | hs | hs := h.signal_of_about hq came about
        · refine stays ?_ (by simp [hs])
          rw [Turn.after, hs, handle, onCaller]
          simp only [hq, unreplied, unsent, inTime, Option.isSome_none, Bool.false_eq_true, if_false]
        · refine stays ?_ (by simp [hs])
          rw [Turn.after, hs, handle, onSlot]
          simp only [hq, running]
        · have route := h.order.routes r q hq
          have ended : q.hasEnded = true := by rw [Request.hasEnded, work]
          have leaves : t.after = t.engine.finishJob r q (calls r).aggregate o := by
            rw [Turn.after, hs, handle, onOutcome]
            simp only [hq, running, work]
            exact leavePool_eq hq route (.inr ⟨running, ended⟩)
          rw [leaves]
          refine .sent (request?_finishJob hq) rfl rfl unreplied now ?_
          rw [← now]
          exact dueAt_finishJob t.engine q
        · refine stays ?_ (by simp [hs])
          rw [Turn.after, hs, handle, onWork]
          simp only [hq, work]
      · refine stays ((touches.others r about).trans hq) fun hs => about ?_
        rw [Turn.about, hs]
  | @sent q hq isOver result unreplied now looks =>
      have stays (same : t.after.request? r = some q) (other : t.signal ≠ .caller r) :
          t.after.Decided t.after.DueAt r deadline τ o :=
        .sent same isOver result unreplied (touches.now.trans now)
          (touches.dueAt (looks.resolve_left fun here => other here.1))
      have came : q.stage ≠ .pending := by simp [isOver]
      by_cases about : t.about = some r
      · obtain hs | hs | hs | hs := h.signal_of_about hq came about
        · have tells : t.after = t.engine.tell r o := by
            rw [Turn.after, hs, handle, onCaller]
            simp only [hq, unreplied, result, Option.isSome_none, Bool.false_eq_true, if_false]
          rw [tells]
          refine .replied (request?_modify_self hq _) ?_ (.inl isOver)
          rw [← now]
        · refine stays ?_ (by simp [hs])
          rw [Turn.after, hs, handle, onSlot]
          simp only [hq, isOver]
        · refine stays ?_ (by simp [hs])
          rw [Turn.after, hs, handle, onOutcome]
          simp only [hq, isOver]
        · have stopped := h.stopped_of_over hs hq isOver
          refine stays ?_ (by simp [hs])
          rw [Turn.after, hs, handle, onWork]
          rw [Request.hasEnded] at stopped
          cases hw : q.work with
          | ended o => simp only [hq, hw]
          | fresh | asleep => simp [hw] at stopped
      · refine stays ((touches.others r about).trans hq) fun hs => about ?_
        rw [Turn.about, hs]

end Calm

section Undecided
variable (h : m.Calm calls sent t) (undecided : t.Undecided r deadline l)
include h undecided

theorem Calm.undecided_of_open {q' : Request (CommandResult S ε)}
    (hq' : t.after.request? r = some q') (isOpen : q'.Open t.time deadline l)
    (other : t.time < deadline ∨ t.signal ≠ .caller r) : t.after.Undecided r deadline l := by
  have touches := h.touches
  obtain ⟨hs, late⟩ | ⟨⟨rank, place, leads⟩, _⟩ := undecided.waits
  · obtain early | other := other
    · omega
    · exact absurd hs other
  · refine ⟨⟨q', hq', ?_⟩, rank, place, leads.grown touches.agenda fun d mild looks => ?_⟩
    · rw [touches.now]
      exact isOpen
    · obtain ⟨time, rank', s⟩ := d
      have background : rank' = .background := by
        obtain hs | hs := looks <;> cases hs <;> exact mild.2
      rw [background]
      exact place

/-- A caller that looks for its answer is told that its time is up when it is, and not before. -/
theorem Calm.proceeds_caller (hs : t.signal = .caller r) : t.Proceeds r deadline l := by
  obtain ⟨q, hq, isOpen⟩ := undecided.request
  refine .inr ⟨fun o comes => by simp [Turn.outcome?, hs] at comes, ?_⟩
  by_cases late : deadline ≤ t.time
  · have now : t.time = deadline := Nat.le_antisymm undecided.soon late
    have tells : t.after = t.engine.tell r (.error (.pool (.timeout l))) := by
      have overdue : q.overdue t.engine.now = true := isOpen.overdue_iff.2 late
      rw [Turn.after, hs, handle, onCaller]
      simp only [hq, isOpen.unreplied, isOpen.unsent, overdue, isOpen.limit, Option.isSome_none,
        Bool.false_eq_true, if_false, if_true, Option.getD_some]
    rw [tells]
    refine .inr (.replied (request?_modify_self hq _) ?_ (.inr late))
    rw [← now]
    rfl
  · have early : t.time < deadline := Nat.lt_of_not_le late
    have inTime : q.overdue t.engine.now = false := isOpen.inTime early
    refine .inl (h.undecided_of_open undecided ?_ isOpen (.inl early))
    rw [Turn.after, hs, handle, onCaller]
    simp only [hq, isOpen.unreplied, isOpen.unsent, inTime, Option.isSome_none, Bool.false_eq_true,
      if_false]

/-- Whoever looks for a slot before its deadline takes the one it has been handed, or waits on. -/
theorem Calm.proceeds_slot (hs : t.signal = .slot r) : t.Proceeds r deadline l := by
  obtain ⟨q, hq, isOpen⟩ := undecided.request
  have early := undecided.early_of_look (.inl hs)
  have inTime : q.overdue t.engine.now = false := isOpen.inTime early
  refine .inr ⟨fun o comes => by simp [Turn.outcome?, hs] at comes, .inl ?_⟩
  have stays (same : t.after = t.engine) : t.after.Undecided r deadline l := by
    refine h.undecided_of_open undecided ?_ isOpen (.inl early)
    rw [same]
    exact hq
  obtain (pending | waiting) | ⟨running, _⟩ := isOpen.place
  · refine stays ?_
    rw [Turn.after, hs, handle, onSlot]
    simp only [hq, pending]
  · by_cases handed : r ∈ t.engine.pool.handed
    · have starts : t.after = startWork { t.engine with pool := t.engine.pool.take r } r q := by
        rw [Turn.after, hs, handle, onSlot]
        simp only [hq, waiting, h.undisturbed.isOpen, Bool.false_eq_true, if_false, if_pos handed]
      have fresh := (h.order.fits r q hq).early (.inr waiting)
      have placed := request?_startWork (e := { t.engine with pool := t.engine.pool.take r })
        (x := q) hq inTime
      rw [← starts] at placed
      refine h.undecided_of_open undecided placed ?_ (.inl early)
      refine ⟨isOpen.limit, isOpen.ends, isOpen.unreplied, isOpen.unsent,
        .inr ⟨rfl, h.undisturbed.goes, fun ended => ?_⟩⟩
      cases (q.hasEnded_of_isFresh fresh).symm.trans ended
    · refine stays ?_
      rw [Turn.after, hs, handle, onSlot]
      simp only [hq, waiting, h.undisturbed.isOpen, inTime, Bool.false_eq_true, if_false,
        if_neg handed]
  · refine stays ?_
    rw [Turn.after, hs, handle, onSlot]
    simp only [hq, running]

/-- Whoever looks at its work before its deadline, while that has not ended, waits on. -/
theorem Calm.proceeds_outcome (hs : t.signal = .outcome r) : t.Proceeds r deadline l := by
  obtain ⟨q, hq, isOpen⟩ := undecided.request
  have early := undecided.early_of_look (.inr hs)
  have inTime : q.overdue t.engine.now = false := isOpen.inTime early
  refine .inr ⟨fun o comes => by simp [Turn.outcome?, hs] at comes, .inl ?_⟩
  refine h.undecided_of_open undecided ?_ isOpen (.inl early)
  rw [Turn.after, hs, handle, onOutcome]
  obtain (pending | waiting) | ⟨running, _, late⟩ := isOpen.place
  · simp only [hq, pending]
  · simp only [hq, waiting]
  · cases hw : q.work with
    | ended o =>
        have ended := late (by rw [Request.hasEnded, hw])
        omega
    | fresh | asleep =>
        simp only [hq, running, hw, inTime, Bool.false_eq_true, if_false]

/-- The work of a request goes on or ends. -/
theorem Calm.proceeds_work (hs : t.signal = .work r) : t.Proceeds r deadline l := by
  obtain ⟨q, hq, isOpen⟩ := undecided.request
  have route := h.order.routes r q hq
  obtain ⟨running, goes, soon⟩ : q.stage = .running ∧ q.cancelled = false ∧
      (q.hasEnded = true → deadline ≤ t.time) := by
    refine isOpen.place.resolve_left fun early => ?_
    have fresh := (h.order.fits r q hq).early early
    obtain running | ⟨o, overran⟩ := h.fit.work r hs q hq fresh
    · simp [Request.isEarly, running] at early
    · simp [Request.isEarly, overran] at early
  have ends : t.outcome? r = Turn.ends? ⟨t.engine, .work r⟩ r := by
    simp only [Turn.outcome?, Turn.ends?, hs, if_true]
    rfl
  have after : t.after = t.engine.onWork r := by
    rw [Turn.after, hs, handle]
  obtain ⟨begun, w, here, old, new⟩ :=
    onWork_running hq route running goes h.undisturbed.isOpen
  rw [← after, ← ends] at new
  rw [← after] at here
  rw [← ends] at old
  have goesOn (late : ∀ o, w = .ended o → deadline ≤ t.time) : t.after.Undecided r deadline l := by
    refine h.undecided_of_open undecided here ?_ (.inr (by simp [hs]))
    refine ⟨isOpen.limit, isOpen.ends, isOpen.unreplied, isOpen.unsent,
      .inr ⟨running, goes, fun ended => ?_⟩⟩
    cases w with
    | ended o => exact late o rfl
    | fresh | asleep => cases ended
  by_cases late : deadline ≤ t.time
  · exact .inr ⟨fun _ _ => late, .inl (goesOn fun _ _ => late)⟩
  · have early : t.time < deadline := Nat.lt_of_not_le late
    cases comes : t.outcome? r with
    | none =>
        refine .inr ⟨fun o comes' => (by cases comes.symm.trans comes'), .inl (goesOn ?_)⟩
        intro o ended
        obtain before | now := old o ended
        · exact soon before
        · cases comes.symm.trans now
    | some o =>
        obtain ⟨rfl, looks⟩ := new o comes
        have now : t.after.now = t.time := h.touches.now
        refine .inl ⟨o, comes, early, .ended here running rfl isOpen.unreplied isOpen.unsent ?_ now
          looks⟩
        rw [now]
        exact isOpen.inTime early

section Taken
variable {a : AggregateId} {lanes : Lanes} (hs : t.signal = .worker a)
  (took : t.engine.lanes.takeOrRetire a = (some r, lanes))
include hs took

/-- A request whose time is up when it comes to the head of its lane is not brought to the pool. -/
theorem Calm.proceeds_skipped (late : deadline ≤ t.time) : t.Proceeds r deadline l := by
  obtain ⟨q, hq, isOpen⟩ := undecided.request
  let e : Engine (CommandResult S ε) := { t.engine with lanes }
  have overdue : q.overdue e.now = true := isOpen.overdue_iff.2 late
  have same : t.time = deadline := Nat.le_antisymm undecided.soon late
  have skips : t.after = e.finishJob r q (calls r).aggregate (.error (.pool (.timeout l))) := by
    rw [Turn.after, hs, handle, onWorker, took]
    change e.startJob r = _
    rw [startJob]
    simp only [show e.request? r = some q from hq, h.order.routes r q hq, overdue, if_true,
      isOpen.limit, Option.getD_some]
  refine .inr ⟨fun _ _ => late, .inr ?_⟩
  rw [skips]
  refine .sent (request?_finishJob hq) rfl rfl isOpen.unreplied same ?_
  rw [← same]
  exact dueAt_finishJob e q

/-- A request that comes to the pool in time is refused, gets a slot, or waits for one. -/
theorem Calm.proceeds_arriving (pending : stage? t.engine r = some .pending)
    (early : t.time < deadline) : t.Proceeds r deadline l := by
  obtain ⟨q, hq, isOpen⟩ := undecided.request
  rw [stage?_eq hq, Option.some.injEq] at pending
  have route := h.order.routes r q hq
  let e : Engine (CommandResult S ε) := { t.engine with lanes }
  let left : Nat := q.deadline?.getD 0 - e.now
  have now : t.after.now = t.time := h.touches.now
  have inTime : q.overdue e.now = false := isOpen.inTime early
  have enters : t.after = e.enterPool r left := by
    rw [Turn.after, hs, handle, onWorker, took]
    change e.startJob r = _
    rw [startJob]
    simp only [show e.request? r = some q from hq, route, inTime, Bool.false_eq_true, if_false]
    rfl
  have comes : t.outcome? r = match (t.engine.pool.arrive r).1 with
      | .refused why => some (.error (.pool why))
      | _ => none := by
    have inTime : q.overdue t.time = false := inTime
    simp only [Turn.outcome?, hs, took, if_true, hq, Option.bind_some, inTime,
      Bool.false_eq_true, if_false]
  cases arrives : t.engine.pool.arrive r with
  | mk x p =>
      rw [arrives] at comes
      cases x with
      | refused why =>
          obtain ⟨here, looks⟩ := enterPool_refused (e := e) (l := left) hq route pending arrives
          rw [← enters] at here looks
          exact .inl ⟨_, comes, early, .sent here rfl rfl isOpen.unreplied now looks⟩
      | admitted =>
          have here := enterPool_admitted (e := e) (l := left) hq inTime arrives
          have fresh := q.hasEnded_of_isFresh ((h.order.fits r q hq).early (.inl pending))
          rw [← enters] at here
          refine .inr ⟨fun o ends => (by cases comes.symm.trans ends), .inl ?_⟩
          refine h.undecided_of_open undecided here ?_ (.inl early)
          refine ⟨isOpen.limit, isOpen.ends, isOpen.unreplied, isOpen.unsent,
            .inr ⟨rfl, h.undisturbed.goes, fun ended => ?_⟩⟩
          cases fresh.symm.trans ended
      | inLine =>
          have here := enterPool_inLine (e := e) (l := left) hq inTime arrives
          rw [← enters] at here
          refine .inr ⟨fun o ends => (by cases comes.symm.trans ends), .inl ?_⟩
          refine h.undecided_of_open undecided here ?_ (.inl early)
          exact ⟨isOpen.limit, isOpen.ends, isOpen.unreplied, isOpen.unsent, .inl (.inr rfl)⟩

end Taken

/-- A request that comes to the head of its lane goes to the pool, unless its time is up by then. -/
theorem Calm.proceeds_worker {a : AggregateId} (hs : t.signal = .worker a)
    (takes : (t.engine.lanes.takeOrRetire a).1 = some r) : t.Proceeds r deadline l := by
  have order := h.order
  rw [hs] at order
  obtain ⟨r', lanes, took, _, _, _, pending⟩ | ⟨lanes, gone, _⟩ := order.takeOrRetire
  · rw [took, Option.some.injEq] at takes
    subst takes
    by_cases late : deadline ≤ t.time
    · exact h.proceeds_skipped undecided hs took late
    · exact h.proceeds_arriving undecided hs took pending (Nat.lt_of_not_le late)
  · rw [gone] at takes
    cases takes

/-- The turns of an engine that nobody disturbs leave a caller undecided, or decide. -/
theorem Calm.proceeds (called : r ∈ sent) : t.Proceeds r deadline l := by
  obtain ⟨q, hq, isOpen⟩ := undecided.request
  by_cases about : t.about = some r
  · have about' := about
    rw [Turn.about] at about'
    cases hs : t.signal with
    | call r' =>
        rw [hs, Option.some.injEq] at about'
        subst about'
        exact absurd called (h.fit.call r' hs).1
    | caller r' =>
        rw [hs, Option.some.injEq] at about'
        subst about'
        exact h.proceeds_caller undecided hs
    | slot r' =>
        rw [hs, Option.some.injEq] at about'
        subst about'
        exact h.proceeds_slot undecided hs
    | outcome r' =>
        rw [hs, Option.some.injEq] at about'
        subst about'
        exact h.proceeds_outcome undecided hs
    | work r' =>
        rw [hs, Option.some.injEq] at about'
        subst about'
        exact h.proceeds_work undecided hs
    | worker a =>
        rw [hs] at about'
        exact h.proceeds_worker undecided hs about'
    | close | drained =>
        rw [hs] at about'
        cases about'
  · refine .inr ⟨fun o comes => absurd (Turn.about_of_outcome comes) about, .inl ?_⟩
    refine h.undecided_of_open undecided ((h.touches.others r about).trans hq) isOpen (.inr ?_)
    rintro hs
    exact about (by rw [Turn.about, hs])

end Undecided
end CommandEngine
end EventSourcing
