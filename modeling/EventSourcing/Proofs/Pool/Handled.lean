import EventSourcing.Proofs.Pool.Becomes
import EventSourcing.Proofs.Pool.Capacity

/-!
What a turn does to callers, pool and drains.
Each turn is summed up once: what becomes of every caller and of everyone who waits for the pool to
run empty, what becomes due, and when the pool begins to close and gives up.
-/
namespace EventSourcing

/-- The caller of the pool whom a signal is about. -/
def Signal.concerns : Signal → Option Nat
  | .call r | .slot r | .outcome r | .work r => some r
  | _ => none

/-- When the time is over that a pool gives to the work in flight, if it begins to close in the
turn. -/
def Turn.bound {ρ : Type} (t : Turn ρ) : Nat := t.time + t.engine.pool.config.shutdownTimeout

namespace PoolTraffic
open Engine
variable {ρ : Type} {sent : List Nat} {e : Engine ρ} {t : Turn ρ} {r d : Nat} {q q' : Request ρ}
  {dr dr' : Drain} {w w' : Nat → Prop}

/-- What becomes in a turn of one who waits for the pool to run empty. -/
inductive DrainBecomes (t : Turn ρ) (d : Nat) (dr : Drain) : Drain → Prop where
  | left (unasked : t.signal ≠ .close d)
      (waits : t.signal = .drained d → dr.answer = none →
        t.engine.pool.inFlight ≠ 0 ∧ t.time < dr.deadline) : DrainBecomes t d dr dr
  | idle (hs : t.signal = .close d) (idle : t.engine.pool.inFlight = 0) :
      DrainBecomes t d dr
        { dr with running := 0, deadline := t.bound, answer := some (t.time, ⟨0, 0⟩) }
  | hurried (hs : t.signal = .close d) (busy : t.engine.pool.inFlight ≠ 0)
      (now : t.bound = t.time) (all : t.after.pool.cancelled = true) :
      DrainBecomes t d dr { dr with
        running := t.engine.pool.inFlight, deadline := t.bound
        answer := some (t.time, ⟨0, t.engine.pool.inFlight⟩) }
  | waits (hs : t.signal = .close d) (busy : t.engine.pool.inFlight ≠ 0)
      (due : t.after.DueAt (.drained d) (t.bound)) :
      DrainBecomes t d dr
        { dr with running := t.engine.pool.inFlight, deadline := t.bound }
  | drained (hs : t.signal = .drained d) (waits : dr.answer = none)
      (idle : t.engine.pool.inFlight = 0) :
      DrainBecomes t d dr { dr with answer := some (t.time, ⟨dr.running, 0⟩) }
  | gaveUp (hs : t.signal = .drained d) (waits : dr.answer = none)
      (busy : t.engine.pool.inFlight ≠ 0) (late : dr.deadline ≤ t.time)
      (all : t.after.pool.cancelled = true) : DrainBecomes t d dr { dr with
        answer := some (t.time,
          ⟨dr.running - t.engine.pool.inFlight, t.engine.pool.inFlight⟩) }

/-- The pool is asked to close, and all that stand in its line hear of it. -/
def Shuts (t : Turn ρ) : Prop :=
  (∃ d, t.signal = .close d) ∧ ∀ c ∈ t.engine.pool.line,
    t.after.DueAt (.slot c) t.time ∨ t.engine.request? c = none

/-- The time that the pool gives to the work in flight is over. -/
def GivesUp (t : Turn ρ) : Prop :=
  (∃ d, t.signal = .close d) ∧ t.bound = t.time ∨ ∃ d dr, t.signal = .drained d ∧
    t.engine.drains[d]? = some dr ∧ dr.deadline ≤ t.time ∧ t.engine.pool.inFlight ≠ 0

/-- What a turn does. -/
structure Handled (t : Turn ρ) : Prop where
  now : t.after.now = t.time
  made : ∀ r, t.after.request? r = none ↔ t.engine.request? r = none
  stays : ∀ s τ, t.engine.DueAt s τ → t.after.DueAt s τ
  later : ∀ s τ, t.after.DueAt s τ → t.engine.DueAt s τ ∨ t.time ≤ τ
  handed : ∀ c ∈ t.after.pool.handed,
    c ∈ t.engine.pool.handed ∨ t.after.DueAt (.slot c) t.time ∨ t.engine.request? c = none
  closes : ∀ d, t.after.due (.close d) = t.engine.due (.close d)
  becomes : ∀ r q, t.engine.request? r = some q →
    ∃ q', t.after.request? r = some q' ∧ Becomes t r q q'
  closing : t.engine.pool.closing = true → t.after.pool.closing = true
  shut : ∀ d, t.signal = .close d → t.after.pool.closing = true
  shuts : t.after.pool.closing = true → t.engine.pool.closing = true ∨ Shuts t
  cancelled : t.engine.pool.cancelled = true → t.after.pool.cancelled = true
  givesUp : t.after.pool.cancelled = true → t.engine.pool.cancelled = true ∨ GivesUp t ∧
    ∀ r ∈ t.engine.pool.running, ∃ q, t.after.request? r = some q ∧ q.cancelled = true
  drains : ∀ d dr, t.engine.drains[d]? = some dr →
    ∃ dr', t.after.drains[d]? = some dr' ∧ DrainBecomes t d dr dr'
  undrained : t.after.drains.length = t.engine.drains.length
  notices : Notices t.engine t.after
  drained : ∀ d τ, t.after.DueAt (.drained d) τ → t.engine.DueAt (.drained d) τ ∨
    t.after.pool.closing = true ∧ t.after.pool.inFlight = 0 ∨
    t.signal = .close d ∧ τ = t.bound
  fewer : t.engine.pool.closing = true → t.after.pool.inFlight ≤ t.engine.pool.inFlight

/-- Who is there after a turn was there before it. -/
theorem Handled.was (handled : Handled t) (hq' : t.after.request? r = some q') :
    ∃ q, t.engine.request? r = some q ∧ Becomes t r q q' := by
  cases hq : t.engine.request? r with
  | none => cases ((handled.made r).2 hq).symm.trans hq'
  | some q =>
      obtain ⟨q₁, hq₁, becomes⟩ := handled.becomes r q hq
      cases hq₁.symm.trans hq'
      exact ⟨q, rfl, becomes⟩

theorem becomes_left (other : t.signal.concerns ≠ some r) : Becomes t r q q := by
  refine .left ?_ ?_ ?_ ?_
  · intro hs
    rw [hs] at other
    exact other rfl
  · rw [Turn.ends?, if_neg]
    intro hs
    rw [hs] at other
    exact other rfl
  · intro hs
    rw [hs] at other
    exact absurd rfl other
  · intro hs
    rw [hs] at other
    exact absurd rfl other

/-- Work keeps its slot until it ends. -/
theorem Becomes.holds (h : Becomes t r q q') (holds : q.HoldsSlot) :
    q'.HoldsSlot ∨ (t.ends? r).isSome := by
  cases h with
  | left => exact .inl holds
  | asked => exact .inl ⟨holds.1, holds.2.imp_right fun isOver => ⟨isOver.1, rfl⟩⟩
  | worked hs _ begun w ends =>
      cases w with
      | ended o =>
          rw [(ends o).1 rfl]
          exact .inr rfl
      | _ => exact .inl ⟨rfl, holds.2⟩
  | answered hs running done =>
      have goes := holds.1
      rw [Request.hasEnded, done] at goes
      cases goes
  | overran => exact .inl ⟨holds.1, .inr ⟨rfl, rfl⟩⟩
  | refused _ pending | queued _ pending => exact absurd pending holds.not_pending
  | seated seeks | seatedLate seeks | expired seeks =>
      cases seeks with
      | comes _ pending => exact absurd pending holds.not_pending
      | waits _ waiting => exact absurd waiting holds.not_waiting
  | dismissed _ waiting => exact absurd waiting holds.not_waiting

/-- A pool runs empty only where work ends. -/
theorem notices_of_idle (served : t.engine.pool.Serves w t.engine.Holds 0)
    (served' : t.after.pool.Serves w' t.after.Holds 0)
    (becomes : ∀ r q, t.engine.request? r = some q →
      ∃ q', t.after.request? r = some q' ∧ Becomes t r q q')
    (idle : ∀ r, t.signal ≠ .work r) : Notices t.engine t.after := by
  intro _ empty
  refine .inl (List.length_eq_zero_iff.2 (List.eq_nil_iff_forall_not_mem.2 fun r hr => ?_))
  obtain ⟨q, hq, holds⟩ := (served.runs r).1 hr
  obtain ⟨q', hq', becomes⟩ := becomes r q hq
  obtain holds' | ends := becomes.holds holds
  · have still := (served'.runs r).2 ⟨q', hq', holds'⟩
    rw [List.length_eq_zero_iff.1 empty] at still
    cases still
  · exact absurd (Turn.signal_of_ends ends) (idle r)

/-- A turn about one caller. -/
theorem handled_of_around (concerns : t.signal.concerns = some r)
    (around : Around r t.engine t.after)
    (becomes : ∀ r q, t.engine.request? r = some q →
      ∃ q', t.after.request? r = some q' ∧ Becomes t r q q')
    (notices : Notices t.engine t.after) : Handled t where
  now := around.now
  made := around.made
  stays := around.stays
  later := around.later
  handed := around.handed
  closes := around.closes
  becomes := becomes
  closing closing := around.closing.trans closing
  shut d hs := by
    rw [hs] at concerns
    cases concerns
  shuts closing := .inl (around.closing.symm.trans closing)
  cancelled cancelled := around.cancelled.trans cancelled
  givesUp cancelled := .inl (around.cancelled.symm.trans cancelled)
  drains d dr hdr := by
    refine ⟨dr, by rw [around.drains]; exact hdr, .left ?_ ?_⟩
    · intro hs
      rw [hs] at concerns
      cases concerns
    · intro hs
      rw [hs] at concerns
      cases concerns
  undrained := by rw [around.drains]
  notices := notices
  drained d τ due := (around.drained d τ due).imp_right .inl
  fewer := around.fewer

section Asked
variable {e' e'' : Engine ρ}

/-- What holds of a request whose work has been asked to stop. -/
def stopped (q? : Option (Request ρ)) : Option (Request ρ) :=
  q?.map fun q => { q with cancelled := true }

theorem stopped_stopped (q? : Option (Request ρ)) : stopped (stopped q?) = stopped q? := by
  rw [stopped, stopped, Option.map_map]
  rfl

/-- Work that holds a slot may be asked to stop, and nothing else happens to the callers. -/
structure Asked (e e' : Engine ρ) : Prop where
  now : e'.now = e.now
  stays : ∀ s τ, e.DueAt s τ → e'.DueAt s τ
  later : ∀ s τ, e'.DueAt s τ → e.DueAt s τ ∨ e.now ≤ τ
  closes : ∀ d, e'.due (.close d) = e.due (.close d)
  handed : e'.pool.handed = e.pool.handed
  running : e'.pool.running = e.pool.running
  closing : e.pool.closing = true → e'.pool.closing = true
  cancelled : e.pool.cancelled = true → e'.pool.cancelled = true
  requests : ∀ r, e'.request? r = e.request? r ∨
    r ∈ e.pool.running ∧ e'.pool.cancelled = true ∧ e'.request? r = stopped (e.request? r)
  all : e'.pool.cancelled = true → e.pool.cancelled = true ∨
    ∀ r ∈ e.pool.running, e'.request? r = stopped (e.request? r)

theorem Asked.trans (h : Asked e e') (h' : Asked e' e'') : Asked e e'' where
  now := h'.now.trans h.now
  stays s τ due := h'.stays s τ (h.stays s τ due)
  later s τ due := by
    obtain due | late := h'.later s τ due
    · exact h.later s τ due
    · rw [h.now] at late
      exact .inr late
  closes d := (h'.closes d).trans (h.closes d)
  handed := h'.handed.trans h.handed
  running := h'.running.trans h.running
  closing closing := h'.closing (h.closing closing)
  cancelled cancelled := h'.cancelled (h.cancelled cancelled)
  requests r := by
    have first := h.requests r
    obtain same | ⟨holds, cancelled, asked⟩ := h'.requests r
    · rw [same]
      exact first.imp_right fun ⟨holds, cancelled, asked⟩ => ⟨holds, h'.cancelled cancelled, asked⟩
    · rw [h.running] at holds
      refine .inr ⟨holds, cancelled, asked.trans ?_⟩
      obtain same | ⟨_, _, asked⟩ := first
      · rw [same]
      · rw [asked, stopped_stopped]
  all cancelled := by
    by_cases before : e'.pool.cancelled = true
    · refine (h.all before).imp_right fun all r hr => ?_
      obtain same | ⟨_, _, asked⟩ := h'.requests r
      · rw [same, all r hr]
      · rw [asked, all r hr, stopped_stopped]
    · refine .inr fun r hr => ?_
      have asked := (h'.all cancelled).resolve_left before r (by rw [h.running]; exact hr)
      obtain same | ⟨_, cancelled, _⟩ := h.requests r
      · rw [asked, same]
      · exact absurd cancelled before

/-- Callers and pool stay as they are, except that the pool may begin to close. -/
theorem asked_of_same (now : e'.now = e.now) (stays : ∀ s τ, e.DueAt s τ → e'.DueAt s τ)
    (later : ∀ s τ, e'.DueAt s τ → e.DueAt s τ ∨ e.now ≤ τ)
    (closes : ∀ d, e'.due (.close d) = e.due (.close d)) (requests : e'.requests = e.requests)
    (pool : e'.pool = e.pool ∨ e'.pool = e.pool.close) : Asked e e' where
  now := now
  stays := stays
  later := later
  closes := closes
  handed := by obtain pool | pool := pool <;> rw [pool]; rfl
  running := by obtain pool | pool := pool <;> rw [pool]; rfl
  closing closing := by
    obtain pool | pool := pool <;> rw [pool]
    · exact closing
    · rfl
  cancelled cancelled := by obtain pool | pool := pool <;> rw [pool] <;> exact cancelled
  requests r := .inl (congrArg (·[r]?) requests)
  all cancelled := by obtain pool | pool := pool <;> rw [pool] at cancelled <;> exact .inl cancelled

theorem asked_modifyDrain (e : Engine ρ) (d : Nat) (f : Drain → Drain) :
    Asked e (e.modifyDrain d f) :=
  asked_of_same rfl (fun _ _ => id) (fun _ _ => .inl) (fun _ => rfl) rfl (.inl rfl)

theorem asked_schedule {τ : Nat} (later : e.now ≤ τ) (rank : Rank) {s : Signal}
    (asks : ∀ d, s ≠ .close d) : Asked e (e.schedule τ rank s) := by
  refine asked_of_same rfl (fun _ _ due => dueAt_schedule.2 (.inr due)) (fun _ _ due => ?_)
    (fun d => ?_) rfl (.inl rfl)
  · obtain ⟨_, rfl⟩ | old := dueAt_schedule.1 due
    · exact .inr later
    · exact .inl old
  · rw [due_schedule, if_neg (asks d), Nat.add_zero]

theorem asked_abandon (e : Engine ρ) (d running : Nat) : Asked e (e.abandon d running) := by
  obtain ⟨asked, calm, pool, left, stopped, abandoned⟩ := abandon_spec e d running
  rw [abandoned]
  refine .trans ?_ (asked_modifyDrain asked d _)
  refine ⟨calm.now, calm.stays, calm.later, calm.closes, by rw [pool], by rw [pool], ?_, ?_, ?_, ?_⟩
  · rw [pool]
    exact id
  · rw [pool]
    exact fun _ => rfl
  · intro r
    by_cases holds : r ∈ e.pool.running
    · exact .inr ⟨holds, by rw [pool], stopped r holds⟩
    · exact .inl (left r holds)
  · exact fun _ => .inr stopped

/-- A turn that is about no caller asks work to stop that holds a slot, or leaves all as it was. -/
theorem Asked.becomes (h : Asked t.engine t.after)
    (served : t.engine.pool.Serves w t.engine.Holds 0)
    (closing : (∃ d, t.signal = .close d) ∨ ∃ d, t.signal = .drained d)
    (hq : t.engine.request? r = some q) :
    ∃ q', t.after.request? r = some q' ∧ Becomes t r q q' := by
  obtain same | ⟨holds, cancelled, asked⟩ := h.requests r
  · refine ⟨q, same.trans hq, becomes_left ?_⟩
    obtain ⟨d, hs⟩ | ⟨d, hs⟩ := closing <;> simp [hs, Signal.concerns]
  · rw [hq] at asked
    exact ⟨_, asked, .asked closing ((holds_iff hq).1 ((served.runs r).1 holds)) cancelled⟩

theorem Asked.made (h : Asked e e') (r : Nat) : e'.request? r = none ↔ e.request? r = none := by
  obtain same | ⟨_, _, asked⟩ := h.requests r
  · rw [same]
  · rw [asked, stopped, Option.map_eq_none_iff]

/-- What is noted of one who asks the pool to close. -/
def note (e : Engine ρ) (dr : Drain) : Drain :=
  { dr with running := e.pool.inFlight, deadline := e.now + e.pool.config.shutdownTimeout }

/-- The pool begins to close: those in its line hear of it, and it is noted what who asked waits
for. -/
def noted (e : Engine ρ) (d : Nat) : Engine ρ :=
  (e.pool.line.foldl nudge { e with pool := e.pool.close }).modifyDrain d (note e)

/-- What the beginning of the end changes. -/
structure Noted (e e' : Engine ρ) (d : Nat) : Prop extends Asked e e' where
  pool : e'.pool = e.pool.close
  drains : e'.drains = e.drains.modify d (note e)
  nudged : ∀ c ∈ e.pool.line, e'.DueAt (.slot c) e.now ∨ e.request? c = none
  drained : ∀ d τ, e'.DueAt (.drained d) τ →
    e.DueAt (.drained d) τ ∨ e'.pool.closing = true ∧ e'.pool.inFlight = 0

theorem noted_spec (e : Engine ρ) (d : Nat) : Noted e (noted e d) d := by
  obtain ⟨calm, requests, pool, due⟩ := nudgeEach_spec e.pool.line { e with pool := e.pool.close }
  let nudged := e.pool.line.foldl nudge { e with pool := e.pool.close }
  have asked : Asked e nudged :=
    asked_of_same calm.now calm.stays calm.later calm.closes requests (.inr pool)
  exact
    { asked.trans (asked_modifyDrain _ d (note e)) with
      pool
      drains := congrArg (·.modify d (note e)) calm.drains
      nudged := due
      drained := calm.drained }

/-- The pool closes; it reports at once if nothing runs or if it gives no time, else when the time
that it gives is over. -/
theorem onClose_eq (e : Engine ρ) (d : Nat) :
    e.onClose d =
      if e.pool.inFlight = 0 then
        (noted e d).modifyDrain d fun dr => { dr with answer := some (e.now, ⟨0, 0⟩) }
      else if e.pool.config.shutdownTimeout = 0 then (noted e d).abandon d e.pool.inFlight
      else match (noted e d).drains[d]? with
        | some dr => (noted e d).schedule dr.deadline (.deadline dr.foreground) (.drained d)
        | none => noted e d := by
  obtain ⟨calm, _, pool, _⟩ := nudgeEach_spec e.pool.line { e with pool := e.pool.close }
  let nudged := e.pool.line.foldl nudge { e with pool := e.pool.close }
  have pool : nudged.pool = e.pool.close := pool
  have inFlight : nudged.pool.inFlight = e.pool.inFlight :=
    (congrArg Pool.inFlight pool).trans rfl
  have limit : nudged.pool.config = e.pool.config :=
    (congrArg Pool.config pool).trans rfl
  have now : nudged.now = e.now := calm.now
  have same : e.onClose d =
      let noted := nudged.modifyDrain d fun dr => { dr with
        running := nudged.pool.inFlight
        deadline := nudged.now + nudged.pool.config.shutdownTimeout }
      if nudged.pool.inFlight = 0 then
        noted.modifyDrain d fun dr => { dr with answer := some (nudged.now, ⟨0, 0⟩) }
      else if nudged.pool.config.shutdownTimeout = 0 then noted.abandon d nudged.pool.inFlight
      else match noted.drains[d]? with
        | some dr => noted.schedule dr.deadline (.deadline dr.foreground) (.drained d)
        | none => noted := rfl
  rw [same, inFlight, limit, now]
  rfl

/-- A turn that is about no caller. -/
theorem handled_of_asked (asked : Asked t.engine t.after)
    (served : t.engine.pool.Serves w t.engine.Holds 0)
    (closing : (∃ d, t.signal = .close d) ∨ ∃ d, t.signal = .drained d)
    (shut : ∀ d, t.signal = .close d → t.after.pool.closing = true)
    (shuts : t.after.pool.closing = true → t.engine.pool.closing = true ∨ Shuts t)
    (givesUp : t.after.pool.cancelled = true → t.engine.pool.cancelled = true ∨ GivesUp t)
    (drains : ∀ d dr, t.engine.drains[d]? = some dr →
      ∃ dr', t.after.drains[d]? = some dr' ∧ DrainBecomes t d dr dr')
    (undrained : t.after.drains.length = t.engine.drains.length)
    (drained : ∀ d τ, t.after.DueAt (.drained d) τ → t.engine.DueAt (.drained d) τ ∨
      t.after.pool.closing = true ∧ t.after.pool.inFlight = 0 ∨
      t.signal = .close d ∧ τ = t.bound) : Handled t where
  now := asked.now
  made := asked.made
  stays := asked.stays
  later := asked.later
  handed c hc := by
    rw [asked.handed] at hc
    exact .inl hc
  closes := asked.closes
  becomes _ _ hq := asked.becomes served closing hq
  closing := asked.closing
  shut := shut
  shuts := shuts
  cancelled := asked.cancelled
  givesUp cancelled := by
    by_cases before : t.engine.pool.cancelled = true
    · exact .inl before
    · refine .inr ⟨(givesUp cancelled).resolve_left before, fun r hr => ?_⟩
      obtain ⟨q, hq, _⟩ := (served.runs r).1 hr
      refine ⟨{ q with cancelled := true }, ?_, rfl⟩
      rw [(asked.all cancelled).resolve_left before r hr, hq]
      rfl
  drains := drains
  undrained := undrained
  notices _ idle := by
    rw [Pool.inFlight, asked.running] at idle
    exact .inl idle
  drained := drained
  fewer _ := Nat.le_of_eq (by rw [Pool.inFlight, Pool.inFlight, asked.running])

theorem drains_abandon (e : Engine ρ) (d running : Nat) :
    (e.abandon d running).drains = e.drains.modify d fun dr =>
      { dr with answer := some (e.now, ⟨running - e.pool.inFlight, e.pool.inFlight⟩) } := by
  obtain ⟨asked, calm, _, _, _, abandoned⟩ := abandon_spec e d running
  rw [abandoned, modifyDrain, calm.drains]

theorem closing_abandon (e : Engine ρ) (d running : Nat) :
    (e.abandon d running).pool.closing = e.pool.closing := by
  obtain ⟨asked, _, pool, _, _, abandoned⟩ := abandon_spec e d running
  rw [abandoned]
  change asked.pool.closing = _
  rw [pool]

theorem cancelled_abandon (e : Engine ρ) (d running : Nat) :
    (e.abandon d running).pool.cancelled = true := by
  obtain ⟨asked, _, pool, _, _, abandoned⟩ := abandon_spec e d running
  rw [abandoned]
  change asked.pool.cancelled = true
  rw [pool]

theorem drained_abandon {running τ : Nat} (due : (e.abandon d running).DueAt (.drained r) τ) :
    e.DueAt (.drained r) τ ∨ (e.abandon d running).pool.closing = true ∧
      (e.abandon d running).pool.inFlight = 0 := by
  obtain ⟨asked, calm, _, _, _, abandoned⟩ := abandon_spec e d running
  rw [abandoned] at due ⊢
  exact calm.drained r τ due

/-- A turn that is about one who waits for the pool to run empty leaves the others waiting. -/
theorem drainBecomes_of_modify {f : Drain → Drain}
    (signal : t.signal = .close d ∨ t.signal = .drained d)
    (drains : t.after.drains = t.engine.drains.modify d f)
    (mine : ∀ dr, t.engine.drains[d]? = some dr → DrainBecomes t d dr (f dr)) :
    (∀ d dr, t.engine.drains[d]? = some dr →
      ∃ dr', t.after.drains[d]? = some dr' ∧ DrainBecomes t d dr dr') ∧
      t.after.drains.length = t.engine.drains.length := by
  refine ⟨fun d' dr hdr => ?_, by rw [drains, List.length_modify]⟩
  have changed : t.after.drains[d']? = if d = d' then some (f dr) else some dr := by
    rw [drains, List.getElem?_modify, hdr]
    split <;> rfl
  rw [changed]
  split
  · rename_i same
    subst same
    exact ⟨_, rfl, mine dr hdr⟩
  · rename_i other
    refine ⟨dr, rfl, .left (fun hs => other ?_) fun hs => absurd ?_ other⟩
    · obtain hs' | hs' := signal
      · exact Signal.close.inj (hs'.symm.trans hs)
      · cases hs'.symm.trans hs
    · obtain hs' | hs' := signal
      · cases hs'.symm.trans hs
      · exact Signal.drained.inj (hs'.symm.trans hs)

section Closing
variable {t : Turn ρ} (hs : t.signal = .close d) (served : t.engine.pool.Serves w t.engine.Holds 0)
include hs served

/-- A turn in which the pool is asked to close, whatever else it does. -/
theorem handled_of_noted (tail : Asked (noted t.engine d) t.after) (f : Drain → Drain)
    (drains : t.after.drains = (noted t.engine d).drains.modify d f)
    (mine : ∀ dr, DrainBecomes t d dr (f (note t.engine dr)))
    (givesUp : t.after.pool.cancelled = true →
      (noted t.engine d).pool.cancelled = true ∨ t.bound = t.time)
    (drained : ∀ d' τ, t.after.DueAt (.drained d') τ → (noted t.engine d).DueAt (.drained d') τ ∨
      t.after.pool.closing = true ∧ t.after.pool.inFlight = 0 ∨ d = d' ∧ τ = t.bound) :
    Handled t := by
  have head := noted_spec t.engine d
  have closes : t.after.pool.closing = true := tail.closing (by rw [head.pool]; rfl)
  rw [head.drains, List.modify_modify_eq] at drains
  obtain ⟨becomes, undrained⟩ := drainBecomes_of_modify (.inl hs) drains fun dr _ => mine dr
  refine handled_of_asked (head.toAsked.trans tail) served (.inl ⟨d, hs⟩) (fun _ _ => closes)
    (fun _ => .inr ⟨⟨d, hs⟩, fun c hc => (head.nudged c hc).imp_left (tail.stays _ _)⟩)
    (fun gaveUp => (givesUp gaveUp).imp (fun before => ?_) fun bound => .inl ⟨⟨d, hs⟩, bound⟩)
    becomes undrained fun d' τ due => ?_
  · rw [head.pool] at before
    exact before
  · obtain noted | idle | ⟨rfl, bound⟩ := drained d' τ due
    · obtain old | ⟨_, idle⟩ := head.drained d' τ noted
      · exact .inl old
      · rw [Pool.inFlight, ← tail.running] at idle
        exact .inr (.inl ⟨closes, idle⟩)
    · exact .inr (.inl idle)
    · exact .inr (.inr ⟨hs, bound⟩)

theorem handled_idle (idle : t.engine.pool.inFlight = 0) : Handled t := by
  let report (dr : Drain) : Drain := { dr with answer := some (t.time, ⟨0, 0⟩) }
  have after : t.after = (noted t.engine d).modifyDrain d report := by
    rw [Turn.after, hs]
    exact (onClose_eq t.engine d).trans (if_pos idle)
  refine handled_of_noted hs served ?_ report ?_ (fun dr => ?_) ?_ ?_
  · rw [after]
    exact asked_modifyDrain _ d report
  · rw [after]
    rfl
  · simp only [report, note, idle]
    exact .idle hs idle
  · rw [after]
    exact .inl
  · rw [after]
    exact fun _ _ => .inl

theorem handled_hurried (busy : t.engine.pool.inFlight ≠ 0)
    (hurry : t.engine.pool.config.shutdownTimeout = 0) : Handled t := by
  have head := noted_spec t.engine d
  have inFlight : (noted t.engine d).pool.inFlight = t.engine.pool.inFlight :=
    congrArg List.length head.running
  have bound : t.bound = t.time := by rw [Turn.bound, hurry, Nat.add_zero]
  have after : t.after = (noted t.engine d).abandon d t.engine.pool.inFlight := by
    rw [Turn.after, hs]
    exact (onClose_eq t.engine d).trans ((if_neg busy).trans (if_pos hurry))
  have all : t.after.pool.cancelled = true := by
    rw [after]
    exact cancelled_abandon _ d _
  refine handled_of_noted hs served ?_
    (fun dr => { dr with answer := some (t.time, ⟨0, t.engine.pool.inFlight⟩) }) ?_
    (fun _ => .hurried hs busy bound all) (fun _ => .inr bound) ?_
  · rw [after]
    exact asked_abandon _ d _
  · rw [after, drains_abandon, inFlight, Nat.sub_self, head.now]
    rfl
  · rw [after]
    exact fun _ _ due => (drained_abandon due).imp_right .inl

theorem handled_waits (made : d < t.engine.drains.length) (busy : t.engine.pool.inFlight ≠ 0)
    (time : t.engine.pool.config.shutdownTimeout ≠ 0) : Handled t := by
  have head := noted_spec t.engine d
  obtain ⟨dr, hdr⟩ : ∃ dr, t.engine.drains[d]? = some dr := ⟨_, List.getElem?_eq_getElem made⟩
  have mine : (noted t.engine d).drains[d]? = some (note t.engine dr) := by
    rw [head.drains, List.getElem?_modify_eq, hdr]
    rfl
  have after : t.after =
      (noted t.engine d).schedule t.bound (.deadline dr.foreground) (.drained d) := by
    have closes := (onClose_eq t.engine d).trans ((if_neg busy).trans (if_neg time))
    rw [mine] at closes
    rw [Turn.after, hs]
    exact closes
  have later : (noted t.engine d).now ≤ t.bound := by
    rw [head.now]
    exact Nat.le_add_right ..
  refine handled_of_noted hs served ?_ id ?_ (fun dr => .waits hs busy ?_) ?_ ?_
  · rw [after]
    exact asked_schedule later _ (by simp)
  · rw [after, List.modify_id]
    rfl
  · rw [after]
    exact dueAt_schedule.2 (.inl ⟨rfl, rfl⟩)
  · rw [after]
    exact .inl
  · rw [after]
    intro d' τ due
    obtain ⟨same, rfl⟩ | old := dueAt_schedule.1 due
    · exact .inr (.inr ⟨Signal.drained.inj same, rfl⟩)
    · exact .inl old

theorem handled_close (made : d < t.engine.drains.length) : Handled t := by
  by_cases idle : t.engine.pool.inFlight = 0
  · exact handled_idle hs served idle
  · by_cases hurry : t.engine.pool.config.shutdownTimeout = 0
    · exact handled_hurried hs served idle hurry
    · exact handled_waits hs served made idle hurry

end Closing

/-- Who waits for the pool to run empty goes on waiting, or is told that it has run empty, or that
the time is over. -/
theorem onDrained_cases (e : Engine ρ) (d : Nat) :
    (e.onDrained d = e ∧ ∀ dr, e.drains[d]? = some dr → dr.answer = none →
      e.pool.inFlight ≠ 0 ∧ e.now < dr.deadline) ∨
    ∃ dr, e.drains[d]? = some dr ∧ dr.answer = none ∧ (e.pool.inFlight = 0 ∧ e.onDrained d =
        (e.modifyDrain d fun dr => { dr with answer := some (e.now, ⟨dr.running, 0⟩) }) ∨
      e.pool.inFlight ≠ 0 ∧ dr.deadline ≤ e.now ∧ e.onDrained d = e.abandon d dr.running) := by
  rw [onDrained]
  cases hd : e.drains[d]? with
  | none => exact .inl ⟨rfl, fun dr hdr => by cases hdr⟩
  | some dr =>
      dsimp only
      split
      · rename_i replied
        refine .inl ⟨rfl, fun dr' hdr waits => ?_⟩
        cases hdr
        rw [waits] at replied
        cases replied
      · rename_i unreplied
        rw [Option.isSome_iff_ne_none, ne_eq, not_not] at unreplied
        split
        · rename_i idle
          exact .inr ⟨dr, rfl, unreplied, .inl ⟨idle, rfl⟩⟩
        · rename_i busy
          split
          · rename_i late
            exact .inr ⟨dr, rfl, unreplied, .inr ⟨busy, late, rfl⟩⟩
          · rename_i early
            refine .inl ⟨rfl, fun dr' hdr _ => ⟨busy, ?_⟩⟩
            cases hdr
            exact Nat.lt_of_not_le early

section Drained
variable (hs : t.signal = .drained d) (served : t.engine.pool.Serves w t.engine.Holds 0)
include hs served

/-- A turn in which one looks who waits for the pool to run empty. -/
theorem handled_of_drained (asked : Asked t.engine t.after)
    (closed : t.after.pool.closing = t.engine.pool.closing) (f : Drain → Drain)
    (drains : t.after.drains = t.engine.drains.modify d f)
    (mine : ∀ dr, t.engine.drains[d]? = some dr → DrainBecomes t d dr (f dr))
    (givesUp : t.after.pool.cancelled = true → t.engine.pool.cancelled = true ∨ GivesUp t)
    (drained : ∀ d τ, t.after.DueAt (.drained d) τ → t.engine.DueAt (.drained d) τ ∨
      t.after.pool.closing = true ∧ t.after.pool.inFlight = 0) : Handled t := by
  obtain ⟨becomes, undrained⟩ := drainBecomes_of_modify (.inr hs) drains mine
  exact handled_of_asked asked served (.inr ⟨d, hs⟩) (by simp [hs])
    (fun closing => .inl (closed.symm.trans closing)) givesUp becomes undrained
    fun d' τ due => (drained d' τ due).imp_right .inl

theorem handled_drained : Handled t := by
  have after : t.after = t.engine.onDrained d := by
    rw [Turn.after, hs]
    rfl
  obtain ⟨same, mine⟩ | ⟨dr, hdr, waits, ⟨idle, replied⟩ | ⟨busy, late, gaveUp⟩⟩ :=
    onDrained_cases t.engine d
  · rw [same] at after
    refine handled_of_drained hs served ?_ ?_ id ?_
      (fun dr hdr => .left (by simp [hs]) fun _ => mine dr hdr) ?_ ?_
    · rw [after]
      exact asked_of_same rfl (fun _ _ => id) (fun _ _ => .inl) (fun _ => rfl) rfl (.inl rfl)
    · rw [after]
    · rw [after, List.modify_id]
    · rw [after]
      exact .inl
    · rw [after]
      exact fun _ _ => .inl
  · let report (dr : Drain) : Drain := { dr with answer := some (t.time, ⟨dr.running, 0⟩) }
    rw [replied] at after
    refine handled_of_drained hs served ?_ ?_ report ?_ (fun dr' hdr' => ?_) ?_ ?_
    · rw [after]
      exact asked_modifyDrain _ d _
    · rw [after]
      rfl
    · rw [after]
      rfl
    · cases hdr.symm.trans hdr'
      exact .drained hs waits idle
    · rw [after]
      exact .inl
    · rw [after]
      exact fun _ _ => .inl
  · let report (dr' : Drain) : Drain := { dr' with answer := some (t.time,
      ⟨dr.running - t.engine.pool.inFlight, t.engine.pool.inFlight⟩) }
    rw [gaveUp] at after
    refine handled_of_drained hs served ?_ ?_ report ?_ (fun dr' hdr' => ?_) ?_ ?_
    · rw [after]
      exact asked_abandon _ d _
    · rw [after, closing_abandon]
    · rw [after, drains_abandon]
      rfl
    · cases hdr.symm.trans hdr'
      refine .gaveUp hs waits busy late ?_
      rw [after]
      exact cancelled_abandon _ d _
    · exact fun _ => .inr (.inr ⟨d, dr, hs, hdr, late, busy⟩)
    · rw [after]
      exact fun _ _ => drained_abandon

end Drained

end Asked

/-- What happens to the caller whom a signal is about, if there is one. -/
structure Meant (t : Turn ρ) (r : Nat) : Prop where
  around : Around r t.engine t.after
  becomes : ∀ q, t.engine.request? r = some q →
    ∃ q', t.after.request? r = some q' ∧ Becomes t r q q'
  notices : (∀ r, t.signal ≠ .work r) ∨ Notices t.engine t.after

/-- A signal about nobody changes nothing. -/
theorem meant_of_unmade {s : Signal} (meets : Meets e sent s) (concerns : s.concerns = some r)
    (unmade : e.request? r = none) : Meant ⟨e, s⟩ r := by
  have same : e.handle s = e := by
    cases s with
    | call r' =>
        cases concerns
        have made := (meets.calls r rfl).2.1
        rw [unmade] at made
        cases made
    | slot r' =>
        cases concerns
        rw [Engine.handle, onSlot]
        simp only [unmade]
    | outcome r' =>
        cases concerns
        rw [Engine.handle, onOutcome]
        simp only [unmade]
    | work r' =>
        cases concerns
        rw [Engine.handle, onWork]
        simp only [unmade]
    | _ => cases concerns
  refine ⟨?_, fun q hq => ?_, .inr ?_⟩
  · rw [Turn.after, same]
    exact .refl r e
  · cases unmade.symm.trans hq
  · rw [Turn.after, same]
    exact fun _ => .inl

/-- Work that has something to run has its slot. -/
theorem Steady.placed (h : Steady e sent) (meets : Meets e sent (.work r))
    (hq : e.request? r = some q) (runs : (q.runs? e.now).isSome) : q.HoldsSlot := by
  cases hw : q.work with
  | fresh x => exact meets.ready r rfl q hq (by rw [Request.isFresh, hw])
  | asleep wake wakeable rest =>
      exact (h.order.fits r q hq).placed (by rw [Request.isFresh, hw])
        (by rw [Request.hasEnded, hw])
  | ended o =>
      rw [Request.runs?, hw] at runs
      cases runs

theorem Steady.meant (h : Steady e sent) {s : Signal} (meets : Meets e sent s)
    (concerns : s.concerns = some r) : Meant ⟨e, s⟩ r := by
  cases hq : e.request? r with
  | none => exact meant_of_unmade meets concerns hq
  | some q =>
      have fits := h.order.fits r q hq
      have only (q₁ : Request ρ) (hq₁ : e.request? r = some q₁) : q₁ = q :=
        Option.some.inj (hq₁.symm.trans hq)
      cases s with
      | call r' =>
          cases concerns
          obtain ⟨unsent, _⟩ := meets.calls r rfl
          obtain ⟨around, becomes⟩ :=
            becomes_onCall hq fits.route (h.order.unsent r q hq unsent).1
          exact ⟨around, fun q₁ hq₁ => only q₁ hq₁ ▸ becomes, .inl (by simp)⟩
      | slot r' =>
          cases concerns
          obtain ⟨around, becomes⟩ := becomes_onSlot hq fits.route
          exact ⟨around, fun q₁ hq₁ => only q₁ hq₁ ▸ becomes, .inl (by simp)⟩
      | outcome r' =>
          cases concerns
          obtain ⟨around, becomes⟩ := becomes_onOutcome hq fits.route fits.settled
          exact ⟨around, fun q₁ hq₁ => only q₁ hq₁ ▸ becomes, .inl (by simp)⟩
      | work r' =>
          cases concerns
          obtain ⟨around, notices, becomes⟩ :=
            becomes_onWork hq fits.route fits.settled (h.placed meets hq)
          exact ⟨around, fun q₁ hq₁ => only q₁ hq₁ ▸ becomes, .inr notices⟩
      | _ => cases concerns

theorem Meant.handled (h : Meant t r) (concerns : t.signal.concerns = some r)
    (served : t.engine.pool.Serves w t.engine.Holds 0)
    (served' : t.after.pool.Serves w' t.after.Holds 0) : Handled t := by
  have becomes (r' : Nat) (q : Request ρ) (hq : t.engine.request? r' = some q) :
      ∃ q', t.after.request? r' = some q' ∧ Becomes t r' q q' := by
    by_cases hr : r = r'
    · subst hr
      exact h.becomes q hq
    · refine ⟨q, (h.around.others r' hr).trans hq, becomes_left fun here => hr ?_⟩
      rw [concerns, Option.some.injEq] at here
      exact here
  refine handled_of_around concerns h.around becomes ?_
  obtain idle | notices := h.notices
  · exact notices_of_idle served served' becomes idle
  · exact notices

/-- Every turn is handled. -/
theorem Steady.handled (h : Steady e sent) {s : Signal} (meets : Meets e sent s)
    (made : ∀ d, s = .close d → d < e.drains.length) : Handled ⟨e, s⟩ := by
  have served := h.order.serves
  have served' := (h.handle meets).order.serves
  cases s with
  | caller | worker => cases meets.pooling
  | close d => exact handled_close rfl served (made d rfl)
  | drained d => exact handled_drained rfl served
  | call r | slot r | outcome r | work r => exact (h.meant meets rfl).handled rfl served served'

end PoolTraffic
end EventSourcing
