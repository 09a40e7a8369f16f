import EventSourcing.Proofs.Pool.Around

/-!
What becomes of the callers of a pool in one turn.
A caller is refused, stands in line, comes to a slot or gives up; its work goes on or ends; and it
is told the end of its work, or that its time is up, or that the pool closes. Each of this happens
only where there is a reason for it.
-/
namespace EventSourcing

namespace Request
variable {ρ : Type}

/-- What the work of a request has to run when it is due. -/
def runs? (q : Request ρ) (now : Nat) : Option (Activity ρ) :=
  match q.work with
  | .ended _ => none
  | .fresh x => some x
  | .asleep wake wakeable rest =>
    if wakeable && q.cancelled then some (rest true)
    else if wake ≤ now then some (rest false)
    else none

/-- The request once it has been called. -/
def noted (q : Request ρ) (now : Nat) : Request ρ :=
  { q with called := now, poolLimit := q.limit.getD 0 }

end Request

/-- How work has ended that has run as far as it can. -/
def Activity.Pause.end? {ρ : Type} : Activity.Pause ρ → Option (Ending ρ)
  | .finished x => some (.ok x)
  | .panicked => some (.error (.pool .panicked))
  | .asleep .. => none

namespace Turn
variable {ρ : Type}

/-- How the work of a request ends in the turn, if it does: with a result, or by breaking down. -/
def ends? (t : Turn ρ) (r : Nat) : Option (Ending ρ) :=
  if t.signal = .work r then
    (t.engine.request? r).bind fun q => (q.runs? t.time).bind fun x =>
      (x.advance q.cancelled t.engine.world).2.end?
  else none

theorem signal_of_ends {t : Turn ρ} {r : Nat} (ends : (t.ends? r).isSome) :
    t.signal = .work r := by
  by_contra other
  rw [ends?, if_neg other] at ends
  cases ends

end Turn

namespace PoolTraffic
open Engine
variable {ρ : Type} {e : Engine ρ} {t : Turn ρ} {r : Nat} {q q' : Request ρ} {o : Ending ρ}

/-- A caller looks for a slot: it comes to the pool, or goes on waiting there. -/
inductive Seeks (t : Turn ρ) (r : Nat) (q : Request ρ) : Request ρ → Prop where
  | comes (hs : t.signal = .call r) (pending : q.stage = .pending) : Seeks t r q (q.noted t.time)
  | waits (hs : t.signal = .slot r) (waiting : q.stage = .waiting) : Seeks t r q q

/-- What becomes of a caller of the pool in a turn. -/
inductive Becomes (t : Turn ρ) (r : Nat) (q : Request ρ) : Request ρ → Prop where
  | left (uncalled : t.signal ≠ .call r) (goes : t.ends? r = none)
      (slot : t.signal = .slot r → q.stage = .waiting →
        t.engine.pool.closing = false ∧ r ∉ t.engine.pool.handed ∧ q.overdue t.time = false)
      (outcome : t.signal = .outcome r → q.stage = .running →
        q.hasEnded = false ∧ q.overdue t.time = false) : Becomes t r q q
  | asked (closing : (∃ d, t.signal = .close d) ∨ ∃ d, t.signal = .drained d) (holds : q.HoldsSlot)
      (all : t.after.pool.cancelled = true) : Becomes t r q { q with cancelled := true }
  | worked (hs : t.signal = .work r) (holds : q.HoldsSlot) (begun : Option Nat) (w : Work ρ)
      (ends : ∀ o, w = .ended o ↔ t.ends? r = some o)
      (due : q.stage = .running → ∀ o, w = .ended o → t.after.DueAt (.outcome r) t.time) :
      Becomes t r q { q with begun, work := w }
  | answered (hs : t.signal = .outcome r) (running : q.stage = .running) {o : Ending ρ}
      (done : q.work = .ended o) : Becomes t r q (q.replied t.time o)
  | overran (hs : t.signal = .outcome r) (running : q.stage = .running) (goes : q.hasEnded = false)
      (late : q.overdue t.time = true) :
      Becomes t r q ({ q with cancelled := true }.replied t.time
        (.error (.pool (.timeout q.poolLimit))))
  | refused (hs : t.signal = .call r) (pending : q.stage = .pending) {why : PoolError}
      (arrives : (t.engine.pool.arrive r).1 = .refused why) :
      Becomes t r q ((q.noted t.time).replied t.time (.error (.pool why)))
  | queued (hs : t.signal = .call r) (pending : q.stage = .pending)
      (isOpen : t.engine.pool.closing = false) (early : (q.noted t.time).overdue t.time = false)
      (due : ∀ l, q.limit = some l → t.after.DueAt (.slot r) (t.time + l)) :
      Becomes t r q { q.noted t.time with stage := .waiting }
  | seated {q₁ : Request ρ} (seeks : Seeks t r q q₁) (isOpen : t.engine.pool.closing = false)
      (early : q₁.overdue t.time = false)
      (due : ∀ τ, q₁.deadline? = some τ → t.after.DueAt (.outcome r) τ) :
      Becomes t r q { q₁ with stage := .running, cancelled := t.engine.pool.cancelled }
  | seatedLate {q₁ : Request ρ} (seeks : Seeks t r q q₁) (isOpen : t.engine.pool.closing = false)
      (late : q₁.overdue t.time = true) :
      Becomes t r q ({ q₁ with stage := .running, cancelled := true }.replied t.time
        (.error (.pool (.timeout q₁.poolLimit))))
  | expired {q₁ : Request ρ} (seeks : Seeks t r q q₁) (isOpen : t.engine.pool.closing = false)
      (late : q₁.overdue t.time = true) :
      Becomes t r q (q₁.replied t.time (.error (.pool (.timeout q₁.poolLimit))))
  | dismissed (hs : t.signal = .slot r) (waiting : q.stage = .waiting)
      (closing : t.engine.pool.closing = true) :
      Becomes t r q (q.replied t.time (.error (.pool .shuttingDown)))

theorem arrive_admitted_isOpen {p p' : Pool} (h : p.arrive r = (.admitted, p')) :
    p.closing = false := by
  rw [Pool.arrive] at h
  split at h
  · cases h
  · rename_i isOpen
    simpa using isOpen

/-- A call is noted before the pool is asked. -/
theorem onCall_noted (hq : e.request? r = some q) (route : q.route = .pool) :
    ∃ e₁ : Engine ρ, Around r e e₁ ∧ e₁.request? r = some (q.noted e.now) ∧ e₁.pool = e.pool ∧
      e.onCall r = answered e₁ r (q.noted e.now) (e.pool.arrive r) := by
  let e' : Engine ρ := e.modify r fun q => { q with called := e.now }
  have hq' : e'.request? r = some { q with called := e.now } := request?_modify_self hq _
  refine ⟨e'.modify r fun q' => { q' with poolLimit := q.limit.getD 0 }, ?_, ?_, rfl, ?_⟩
  · exact (around_modify e r _).trans (around_modify e' r _)
  · exact request?_modify_self hq' _
  · rw [onCall]
    simp only [hq', e', route]
    exact enterPool_eq hq' _

section Noted
variable {e₁ : Engine ρ} {p : Pool} (noted : Around r e e₁)
  (hq₁ : e₁.request? r = some (q.noted e.now)) (pool : e₁.pool = e.pool)
  (route : q.route = .pool) (pending : q.stage = .pending)
include noted hq₁ pool route pending

theorem becomes_admitted (h : e.pool.arrive r = (.admitted, p))
    (after : Turn.after ⟨e, .call r⟩ = { e₁ with pool := p }.startWork r (q.noted e.now)) :
    Around r e (Turn.after ⟨e, .call r⟩) ∧
      ∃ q', (Turn.after ⟨e, .call r⟩).request? r = some q' ∧ Becomes ⟨e, .call r⟩ r q q' := by
  have seeks : Seeks ⟨e, .call r⟩ r q (q.noted e.now) := .comes rfl pending
  have isOpen := arrive_admitted_isOpen h
  obtain ⟨_, rfl⟩ := Pool.arrive_admitted h
  obtain ⟨around, late, early⟩ := startWork_spec hq₁ route
    { e.pool with free := e.pool.free - 1, running := e.pool.running ++ [r] }
  rw [noted.now] at late early
  rw [after]
  refine ⟨noted.trans (.trans (around_pool e₁ r ?_ ?_ ?_ ?_) around), ?_⟩
  · rw [pool]
  · rw [pool]
  · rw [pool, isOpen]
    simp
  · rw [pool]
    exact fun c hc => .inl hc
  · cases overdue : (q.noted e.now).overdue e.now with
    | true => exact ⟨_, late overdue, .seatedLate seeks isOpen overdue⟩
    | false =>
        obtain ⟨hq', due⟩ := early overdue
        refine ⟨_, hq', .seated seeks isOpen overdue ?_⟩
        rw [after]
        exact due

theorem becomes_inLine (h : e.pool.arrive r = (.inLine, p))
    (after : Turn.after ⟨e, .call r⟩ = answered e₁ r (q.noted e.now) (.inLine, p)) :
    Around r e (Turn.after ⟨e, .call r⟩) ∧
      ∃ q', (Turn.after ⟨e, .call r⟩).request? r = some q' ∧ Becomes ⟨e, .call r⟩ r q q' := by
  obtain ⟨isOpen, rfl⟩ := Pool.arrive_inLine h
  have now := noted.now
  rw [answered] at after
  cases overdue : (q.noted e.now).overdue e.now with
  | true =>
      rw [now, if_pos overdue] at after
      rw [after]
      refine ⟨noted.trans (around_expire hq₁ route _), _, request?_expire hq₁ route _, ?_⟩
      rw [now]
      exact .expired (.comes rfl pending) isOpen overdue
  | false =>
      rw [now, if_neg (by simp [overdue])] at after
      let p : Pool := { e.pool with line := e.pool.line ++ [r] }
      let queued : Engine ρ :=
        { e₁ with pool := p }.modify r fun q => { q with stage := .waiting }
      have hqueued : queued.request? r = some { q.noted e.now with stage := .waiting } :=
        request?_modify_self (e := { e₁ with pool := _ }) hq₁ _
      have joins : Around r e queued := by
        refine noted.trans (.trans (around_pool e₁ r ?_ ?_ ?_ ?_) (around_modify _ r _))
        · rw [pool]
        · rw [pool]
        · rw [pool]
          exact fun _ => Nat.le_refl _
        · rw [pool]
          exact fun c hc => .inl hc
      cases deadline : (q.noted e.now).deadline? with
      | none =>
          simp only [deadline] at after
          rw [after]
          refine ⟨joins, _, hqueued, .queued rfl pending isOpen overdue fun l hl => ?_⟩
          rw [Request.deadline?, Request.noted, hl] at deadline
          cases deadline
      | some τ =>
          simp only [deadline] at after
          have later : queued.now ≤ τ := by
            rw [joins.now]
            exact Request.le_of_not_overdue overdue deadline
          rw [after]
          have replied := around_schedule queued r later (.deadline (q.noted e.now).poolInFront)
            (s := .slot r) (by simp) (by simp)
          refine ⟨joins.trans replied, _, hqueued, ?_⟩
          refine .queued rfl pending isOpen overdue fun l hl => ?_
          rw [Request.deadline?, Request.noted, hl, Option.map_some, Option.some.injEq] at deadline
          rw [after]
          exact dueAt_schedule.2 (.inl ⟨rfl, deadline.symm⟩)

end Noted

theorem becomes_onCall (hq : e.request? r = some q) (route : q.route = .pool)
    (pending : q.stage = .pending) :
    Around r e (e.onCall r) ∧
      ∃ q', (e.onCall r).request? r = some q' ∧ Becomes ⟨e, .call r⟩ r q q' := by
  obtain ⟨e₁, noted, hq₁, pool, calls⟩ := onCall_noted hq route
  cases h : e.pool.arrive r with
  | mk admission p =>
      rw [h] at calls
      cases admission with
      | refused why =>
          rw [calls]
          refine ⟨noted.trans (around_leavePool hq₁ route _), _, request?_leavePool hq₁ route, ?_⟩
          rw [noted.now]
          exact .refused rfl pending (by rw [h])
      | admitted => exact becomes_admitted noted hq₁ pool route pending h calls
      | inLine => exact becomes_inLine noted hq₁ pool route pending h calls

section Handlers
variable (hq : e.request? r = some q) (route : q.route = .pool)
include hq route

/-- Who waits for a slot is turned away once the pool closes, and gives back a slot that came too
late. -/
theorem becomes_dismissed (waiting : q.stage = .waiting) (closing : e.pool.closing = true) :
    Around r e (e.onSlot r) ∧
      ∃ q', (e.onSlot r).request? r = some q' ∧ Becomes ⟨e, .slot r⟩ r q q' := by
  have leaves (e' : Engine ρ) (around : Around r e e') (same : e'.request? r = some q) :
      Around r e (e'.leavePool r (.error (.pool .shuttingDown))) ∧
        ∃ q', (e'.leavePool r (.error (.pool .shuttingDown))).request? r = some q' ∧
          Becomes ⟨e, .slot r⟩ r q q' := by
    refine ⟨around.trans (around_leavePool same route _), _, request?_leavePool same route, ?_⟩
    rw [around.now]
    exact .dismissed rfl waiting closing
  rw [onSlot]
  simp only [hq, waiting, closing, if_true]
  split
  · refine leaves _ (around_passSlot e r rfl rfl (Nat.le_refl _) List.erase_subset) ?_
    exact (e.request?_passSlot _ r).trans hq
  · exact leaves e (.refl r e) hq

theorem becomes_onSlot :
    Around r e (e.onSlot r) ∧
      ∃ q', (e.onSlot r).request? r = some q' ∧ Becomes ⟨e, .slot r⟩ r q q' := by
  by_cases waiting : q.stage = .waiting
  · cases closing : e.pool.closing with
    | true => exact becomes_dismissed hq route waiting closing
    | false =>
        have seeks : Seeks ⟨e, .slot r⟩ r q q := .waits rfl waiting
        have after : Turn.after ⟨e, .slot r⟩ = e.onSlot r := rfl
        rw [onSlot] at after ⊢
        simp only [hq, waiting, closing, Bool.false_eq_true, if_false] at after ⊢
        split
        · rename_i has
          rw [if_pos has] at after
          obtain ⟨around, late, early⟩ := startWork_spec hq route (e.pool.take r)
          have taken : Around r e { e with pool := e.pool.take r } :=
            around_pool e r rfl rfl (by simp [closing]) fun c hc => .inl (List.erase_subset hc)
          refine ⟨taken.trans around, ?_⟩
          · cases overdue : q.overdue e.now with
            | true => exact ⟨_, late overdue, .seatedLate seeks closing overdue⟩
            | false =>
                obtain ⟨hq', due⟩ := early overdue
                refine ⟨_, hq', .seated seeks closing overdue ?_⟩
                rw [after]
                exact due
        · rename_i slotless
          split
          · rename_i late
            have left : Around r e { e with pool := e.pool.leave r } :=
              around_pool e r rfl rfl (by simp [closing]) fun c hc => .inl hc
            have replied :=
              around_expire (e := { e with pool := e.pool.leave r }) hq route q.poolLimit
            refine ⟨left.trans replied, _,
              request?_expire (e := { e with pool := e.pool.leave r }) hq route _, ?_⟩
            exact .expired seeks closing late
          · rename_i early
            rw [Bool.not_eq_true] at early
            exact ⟨.refl r e, q, hq, .left (by simp) rfl (fun _ _ => ⟨closing, slotless, early⟩)
              (by simp)⟩
  · have idle : e.onSlot r = e := by
      rw [onSlot]
      simp only [hq]
    rw [idle]
    exact ⟨.refl r e, q, hq, .left (by simp) rfl (fun _ waits => absurd waits waiting) (by simp)⟩

theorem becomes_onOutcome (settled : ∀ o, q.stage ≠ .overrun o) :
    Around r e (e.onOutcome r) ∧
      ∃ q', (e.onOutcome r).request? r = some q' ∧ Becomes ⟨e, .outcome r⟩ r q q' := by
  cases stage : q.stage with
  | running =>
      have goesOn (goes : q.hasEnded = false) (waits : e.onOutcome r =
          if q.overdue e.now then (e.cancel r).expire r q.poolLimit else e) :
          Around r e (e.onOutcome r) ∧
            ∃ q', (e.onOutcome r).request? r = some q' ∧ Becomes ⟨e, .outcome r⟩ r q q' := by
        rw [waits]
        split
        · rename_i late
          refine ⟨around_overrun hq route _, _, request?_expire (request?_cancel hq) route _, ?_⟩
          rw [(around_cancel e r).now]
          exact .overran rfl stage goes late
        · rename_i early
          rw [Bool.not_eq_true] at early
          exact ⟨.refl r e, q, hq, .left (by simp) rfl (by simp) fun _ _ => ⟨goes, early⟩⟩
      cases work : q.work with
      | ended o =>
          have replied : e.onOutcome r = e.leavePool r o := by
            rw [onOutcome]
            simp only [hq, stage, work]
          rw [replied]
          exact ⟨around_leavePool hq route _, _, request?_leavePool hq route,
            .answered rfl stage work⟩
      | fresh | asleep =>
          refine goesOn (by simp only [Request.hasEnded, work]) ?_
          rw [onOutcome]
          simp only [hq, stage, work]
  | overrun o => exact absurd stage (settled o)
  | _ =>
      have idle : e.onOutcome r = e := by
        rw [onOutcome]
        simp only [hq, stage]
      rw [idle]
      refine ⟨.refl r e, q, hq, .left (by simp) rfl (by simp) fun _ running => ?_⟩
      rw [stage] at running
      cases running

end Handlers

section Working
variable (hq : e.request? r = some q) (route : q'.route = .pool)
  (settled : ∀ o, q'.stage ≠ .overrun o)
include hq route settled

/-- A pool that runs empty while it closes is noticed by all who wait for that. -/
def Notices (e e' : Engine ρ) : Prop :=
  e'.pool.closing = true → e'.pool.inFlight = 0 →
    e.pool.inFlight = 0 ∨ ∀ d < e.drains.length, e'.DueAt (.drained d) e.now

/-- Work that ends gives its slot on; a pool that has run empty is noticed, and then its caller
hears of the end. -/
theorem endWork_spec (o : Ending ρ) :
    let done := e.endWork r q' o
    Around r e done ∧ done.request? r = some { q with work := .ended o } ∧
      (q'.stage = .running → done.DueAt (.outcome r) e.now) ∧ Notices e done := by
  intro done
  let e₁ : Engine ρ := e.modify r fun q => { q with work := .ended o }
  let e₂ : Engine ρ := e₁.passSlot (e₁.pool.release r)
  have ended : Around r e e₁ := around_modify e r _
  have passed : Around r e₁ e₂ := by
    refine around_passSlot (p := { e₁.pool with running := e₁.pool.running.erase r }) e₁ r rfl rfl
      ?_ (List.Subset.refl _)
    exact List.erase_sublist.length_le
  obtain ⟨noticed, pool, empty⟩ := noticeEmpty_spec e₂ r
  have around : Around r e e₂.noticeEmpty := (ended.trans passed).trans noticed
  have same : e₂.noticeEmpty.request? r = some { q with work := .ended o } := by
    rw [(noticeEmpty_spec e₂ (r + 1)).1.others r (by omega)]
    exact (e₁.request?_passSlot _ r).trans (request?_modify_self hq _)
  have hears : Notices e e₂.noticeEmpty := by
    intro closing idle
    rw [pool] at closing idle
    refine .inr fun d hd => ?_
    rw [← (ended.trans passed).now]
    exact empty closing idle d (by rw [(ended.trans passed).drains]; exact hd)
  cases stage : q'.stage with
  | overrun o => exact absurd stage (settled o)
  | running =>
      have done_eq : done = e₂.noticeEmpty.wake (.notice q'.poolInFront) (.outcome r) := by
        simp only [done, endWork, route, stage]
        rfl
      rw [done_eq]
      have replied := around_wake e₂.noticeEmpty r (.notice q'.poolInFront) (s := .outcome r)
        (by simp) (by simp)
      refine ⟨around.trans replied, same, fun _ => ?_, fun closing idle => ?_⟩
      · rw [← around.now]
        exact dueAt_wake_self ..
      · exact (hears closing idle).imp_right fun due d hd => replied.stays _ _ (due d hd)
  | _ =>
      have done_eq : done = e₂.noticeEmpty := by
        simp only [done, endWork, route, stage]
        rfl
      rw [done_eq]
      exact ⟨around, same, (by simp), hears⟩

omit hq settled in
/-- Work that stops for good when it runs has ended. -/
theorem runWork_of_end {x : Activity ρ}
    (stops : (x.advance q'.cancelled e.world).2.end? = some o) :
    e.runWork r q' x =
      { e with world := (x.advance q'.cancelled e.world).1 }.endWork r q' o := by
  rw [runWork]
  dsimp only
  split
  · rename_i y pause
    rw [pause] at stops
    cases stops
    rfl
  · rename_i pause
    rw [pause] at stops
    cases stops
    simp only [route, breakdown]
  · rename_i pause
    rw [pause] at stops
    cases stops

theorem runWork_spec (x : Activity ρ) :
    let ran := e.runWork r q' x
    Around r e ran ∧ Notices e ran ∧ ∃ w, ran.request? r = some { q with work := w } ∧
      (∀ o, w = .ended o ↔ (x.advance q'.cancelled e.world).2.end? = some o) ∧
      (q'.stage = .running → ∀ o, w = .ended o → ran.DueAt (.outcome r) e.now) := by
  intro ran
  let e₁ : Engine ρ := { e with world := (x.advance q'.cancelled e.world).1 }
  have around : Around r e e₁ := around_world e r _ (x.advance_now q'.cancelled e.world)
  cases stops : (x.advance q'.cancelled e.world).2.end? with
  | some o =>
      obtain ⟨ended, same, due, notices⟩ := endWork_spec (e := e₁) hq route settled o
      have done : ran = e₁.endWork r q' o := runWork_of_end route stops
      rw [Notices, around.now] at notices
      rw [around.now] at due
      rw [done]
      refine ⟨around.trans ended, notices, _, same, fun o' => ?_, fun running _ _ => due running⟩
      rw [Work.ended.injEq, Option.some.injEq]
  | none =>
      have sleeps : ∃ ms wakeable rest,
          (x.advance q'.cancelled e.world).2 = .asleep ms wakeable rest := by
        cases pause : (x.advance q'.cancelled e.world).2 with
        | asleep ms wakeable rest => exact ⟨ms, wakeable, rest, rfl⟩
        | _ => simp [pause, Activity.Pause.end?] at stops
      obtain ⟨ms, wakeable, rest, pause⟩ := sleeps
      let e₂ : Engine ρ :=
        e₁.modify r fun q => { q with work := .asleep (e₁.now + ms) wakeable rest }
      have ran_eq : ran = e₂.schedule (e₁.now + ms) .background (.work r) := by
        simp only [ran, runWork, pause, e₁, e₂]
        rfl
      have slept : Around r e e₂ := around.trans (around_modify e₁ r _)
      have later : e₂.now ≤ e₁.now + ms := Nat.le_add_right ..
      rw [ran_eq]
      refine ⟨slept.trans (around_schedule e₂ r later _ (by simp) (by simp)),
        fun _ idle => .inl idle, .asleep (e₁.now + ms) wakeable rest,
        request?_modify_self (e := e₁) hq _, by simp, ?_⟩
      intro _ o ended
      cases ended

end Working

section OnWork
variable (hq : e.request? r = some q)
include hq

theorem ends?_onWork : Turn.ends? ⟨e, .work r⟩ r =
    (q.runs? e.now).bind fun x => (x.advance q.cancelled e.world).2.end? := by
  rw [Turn.ends?, if_pos rfl]
  simp only [hq]
  rfl

/-- Work that has nothing to run stays as it is. -/
theorem onWork_of_idle (nothing : q.runs? e.now = none) : e.onWork r = e := by
  rw [Request.runs?] at nothing
  cases hw : q.work with
  | ended o =>
      rw [onWork]
      simp only [hq, hw]
  | fresh x =>
      rw [hw] at nothing
      cases nothing
  | asleep wake wakeable rest =>
      simp only [hw] at nothing
      split at nothing
      · cases nothing
      · rename_i unasked
        split at nothing
        · cases nothing
        · rename_i early
          rw [onWork]
          simp only [hq, hw, if_neg unasked, if_neg early]

/-- Work that has something to run does so; when it begins that is noted. -/
theorem onWork_of_runs {x : Activity ρ} (route : q.route = .pool) (runs : q.runs? e.now = some x) :
    ∃ (e₁ : Engine ρ) (begun : Option Nat), e.onWork r = e₁.runWork r q x ∧ Around r e e₁ ∧
      e₁.world = e.world ∧ e₁.pool = e.pool ∧ e₁.request? r = some { q with begun } := by
  rw [Request.runs?] at runs
  cases hw : q.work with
  | ended o =>
      rw [hw] at runs
      cases runs
  | fresh y =>
      rw [hw] at runs
      cases runs
      let begins : Engine ρ := e.modify r fun q => { q with begun := some e.now }
      refine ⟨begins, some e.now, ?_, around_modify e r _, rfl, rfl, ?_⟩
      · rw [onWork]
        simp only [hq, hw, route]
        rfl
      · rw [← hw]
        exact request?_modify_self hq _
  | asleep wake wakeable rest =>
      simp only [hw] at runs
      refine ⟨e, q.begun, ?_, .refl r e, rfl, rfl, by rw [← hw]; exact hq⟩
      rw [onWork]
      simp only [hq, hw]
      split at runs
      · rename_i asked
        cases runs
        rw [if_pos asked]
      · rename_i unasked
        split at runs
        · rename_i late
          cases runs
          rw [if_neg unasked, if_pos late]
        · cases runs

theorem becomes_onWork (route : q.route = .pool) (settled : ∀ o, q.stage ≠ .overrun o)
    (ready : (q.runs? e.now).isSome → q.HoldsSlot) :
    Around r e (e.onWork r) ∧ Notices e (e.onWork r) ∧
      ∃ q', (e.onWork r).request? r = some q' ∧ Becomes ⟨e, .work r⟩ r q q' := by
  have ends := ends?_onWork hq
  cases runs : q.runs? e.now with
  | none =>
      rw [runs] at ends
      rw [onWork_of_idle hq runs]
      exact ⟨.refl r e, fun _ => .inl, q, hq, .left (by simp) ends (by simp) (by simp)⟩
  | some x =>
      obtain ⟨e₁, begun, work, around, world, pool, hq₁⟩ := onWork_of_runs hq route runs
      have after : Turn.after ⟨e, .work r⟩ = e₁.runWork r q x := work
      obtain ⟨ran, notices, w, same, stops, due⟩ := runWork_spec hq₁ route settled x
      rw [runs, Option.bind_some] at ends
      rw [world, ← ends] at stops
      rw [Notices, around.now, around.drains, pool] at notices
      rw [around.now] at due
      rw [work]
      refine ⟨around.trans ran, notices, _, same,
        .worked rfl (ready (by rw [runs]; rfl)) _ w stops ?_⟩
      rw [after]
      exact due

end OnWork
end PoolTraffic
end EventSourcing
