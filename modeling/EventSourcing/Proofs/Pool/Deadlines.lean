import EventSourcing.Proofs.Pool.Drain

/-!
What the callers of a pool get, and when.
One deadline spans the wait for a slot and the wait for the work. It is the caller's own: what others
are told, and when their work ends, makes no difference to it, nor to whether work is asked to stop.
-/
namespace EventSourcing

/-- A request is called in the turn, with a limit, and the pool does not refuse it. -/
structure Turn.Accepts {ρ : Type} (t : Turn ρ) (r limit : Nat) : Prop where
  call : t.signal = .call r
  limit : ∃ q, t.engine.request? r = some q ∧ q.limit = some limit
  accepted : ∀ why, (t.engine.pool.arrive r).1 ≠ .refused why

theorem Pool.Admission.not_refused_iff {a : Pool.Admission} :
    (∀ why, a ≠ .refused why) ↔ a = .admitted ∨ a = .inLine := by
  cases a <;> simp

instance {ρ : Type} (t : Turn ρ) (r limit : Nat) : Decidable (t.Accepts r limit) :=
  decidable_of_iff (t.signal = .call r ∧ (t.engine.request? r).bind Request.limit = some limit ∧
      ((t.engine.pool.arrive r).1 = .admitted ∨ (t.engine.pool.arrive r).1 = .inLine)) <| by
    rw [Option.bind_eq_some_iff, ← Pool.Admission.not_refused_iff]
    exact ⟨fun ⟨call, limit, accepted⟩ => ⟨call, limit, accepted⟩,
      fun ⟨call, limit, accepted⟩ => ⟨call, limit, accepted⟩⟩

namespace PoolTraffic
open Engine
variable {ρ : Type} {e : Engine ρ} {t call : Turn ρ} {ts : List (Turn ρ)} {r d l τ : Nat}
  {q q' : Request ρ} {o : Ending ρ} {w : World} {c : PoolConfig}

section Calls

/-- A call is noted. -/
theorem Becomes.of_call (h : Becomes t r q q') (hs : t.signal = .call r) :
    q'.stage ≠ .pending ∧ q'.called = t.time ∧ q'.limit = q.limit ∧
      q'.poolLimit = q.limit.getD 0 := by
  cases h with
  | left uncalled => exact absurd hs uncalled
  | asked closes => obtain ⟨d, hs'⟩ | ⟨d, hs'⟩ := closes <;> cases hs.symm.trans hs'
  | worked hs' | answered hs' | overran hs' | dismissed hs' => cases hs.symm.trans hs'
  | refused | queued => exact ⟨by simp [Request.replied], rfl, rfl, rfl⟩
  | seated seeks | seatedLate seeks | expired seeks =>
      cases seeks with
      | comes => exact ⟨by simp [Request.replied], rfl, rfl, rfl⟩
      | waits hs' => cases hs.symm.trans hs'

/-- Work that ends had its slot until then. -/
theorem Becomes.of_end (h : Becomes t r q q') (ends : t.ends? r = some o) :
    q.HoldsSlot ∧ q'.stage = q.stage ∧ q'.work = .ended o := by
  have hs : t.signal = .work r := Turn.signal_of_ends (Option.isSome_of_eq_some ends)
  cases h with
  | left _ goes => cases goes.symm.trans ends
  | asked closes => obtain ⟨d, hs'⟩ | ⟨d, hs'⟩ := closes <;> cases hs.symm.trans hs'
  | answered hs' | overran hs' | refused hs' | queued hs' | dismissed hs' =>
      cases hs.symm.trans hs'
  | seated seeks | seatedLate seeks | expired seeks =>
      cases seeks with
      | comes hs' | waits hs' => cases hs.symm.trans hs'
  | worked _ holds begun work stops => exact ⟨holds, rfl, (stops o).2 ends⟩

/-- Each request is called in one turn only. -/
theorem call_unique (once : (Turn.submitted ts).Nodup) {t t' : Turn ρ} (ht : t ∈ ts) (ht' : t' ∈ ts)
    (hs : t.signal = .call r) (hs' : t'.signal = .call r) : t = t' := by
  have apart {first : Turn ρ} {rest : List (Turn ρ)} (once : (Turn.submitted (first :: rest)).Nodup)
      (here : first.signal = .call r) {t : Turn ρ} (there : t ∈ rest) (hs : t.signal = .call r) :
      False := by
    have here' : r ∈ first.signal.submits := by
      rw [here]
      exact List.mem_singleton_self r
    have twice : (first.signal.submits ++ Turn.submitted rest).Nodup := once
    exact (List.nodup_append.1 twice).2.2 r here' r (Turn.mem_submitted.2 ⟨t, there, hs⟩) rfl
  induction ts with
  | nil => cases ht
  | cons first rest ih =>
      obtain rfl | later := List.mem_cons.1 ht <;> obtain rfl | later' := List.mem_cons.1 ht'
      · rfl
      · exact (apart once hs later' hs').elim
      · exact (apart once hs' later hs).elim
      · have twice : (first.signal.submits ++ Turn.submitted rest).Nodup := once
        exact ih (List.nodup_append.1 twice).2.1 later later'

variable (course : Course Pooling OnTime (.ofWorld w c) ts e)
include course

/-- What is known of a request that was accepted. -/
theorem accepted_course (hc : call ∈ ts) (accepts : call.Accepts r l) :
    ∃ q, e.request? r = some q ∧ q.stage ≠ .pending ∧ q.called = call.time ∧ q.limit = some l ∧
      q.poolLimit = l := by
  obtain ⟨hs, ⟨q, hq, hl⟩, _⟩ := accepts
  obtain ⟨q', hq', becomes⟩ := (facing_course course hc).handled.becomes r q hq
  obtain ⟨came, called, limit, poolLimit⟩ := becomes.of_call hs
  obtain ⟨before, after, rfl⟩ := List.append_of_mem hc
  obtain ⟨q'', hq'', later⟩ := later_course course hq' came
  refine ⟨q'', hq'', later.came, later.called.trans called, ?_, ?_⟩
  · rw [later.limit, limit, hl]
  · rw [later.poolLimit, poolLimit, hl]
    rfl

section Accepted
variable (hc : call ∈ ts) (accepts : call.Accepts r l)
include hc accepts

theorem answer_by_deadline (answer : e.answer? r = some (τ, o)) : τ ≤ call.time + l := by
  obtain ⟨q, hq, came, called, limit, _⟩ := accepted_course course hc accepts
  have treated := ((going_ofWorld w c).course course).prompt.treated r q hq
  rw [answer?, hq, Option.bind_some] at answer
  have isOver : q.stage = .over := by
    by_contra goes
    cases (treated.unreplied goes).symm.trans answer
  obtain ⟨τ', o', replied, soon⟩ := treated.replied isOver
  cases replied.symm.trans answer
  refine soon _ ?_
  rw [Request.deadline?, limit, called]
  rfl

theorem answer_isSome (past : e.Past (call.time + l)) : (e.answer? r).isSome := by
  obtain ⟨q, hq, came, called, limit, _⟩ := accepted_course course hc accepts
  obtain ⟨steady, prompt, _⟩ := (going_ofWorld w c).course course
  have deadline : q.deadline? = some (call.time + l) := by
    rw [Request.deadline?, limit, called]
    rfl
  cases stage : q.stage with
  | pending => exact absurd stage came
  | waiting => exact (past.not_due (prompt.waits r q hq stage _ deadline) (Nat.le_refl _)).elim
  | running => exact (past.not_due (prompt.runs r q hq stage _ deadline) (Nat.le_refl _)).elim
  | overrun o => exact absurd stage ((steady.order.fits r q hq).settled o)
  | «over» =>
      obtain ⟨τ, o, replied, _⟩ := (prompt.treated r q hq).replied stage
      rw [answer?_eq hq replied]
      rfl

/-- Nobody has been told of a timeout before the deadline. -/
theorem deadline_of_timedOut (ht : t ∈ ts) (hq : t.engine.request? r = some q) (late : q.TimedOut) :
    call.time + l ≤ t.time := by
  have facing := facing_course course ht
  have treated := facing.prompt.treated r q hq
  have came : q.stage ≠ .pending := by
    intro pending
    cases (treated.unreplied (by simp [pending])).symm.trans late
  obtain ⟨q', hq', becomes⟩ := facing.handled.becomes r q hq
  have since := becomes.later came treated.unreplied
  obtain ⟨q₁, hq₁, _, called, _, limit⟩ := accepted_course course hc accepts
  obtain ⟨before, after, rfl⟩ := List.append_of_mem ht
  obtain ⟨q₂, hq₂, later⟩ := later_course course hq' since.came
  cases hq₂.symm.trans hq₁
  rw [← called, ← limit, (since.trans later).called, (since.trans later).poolLimit]
  exact facing.prompt.past r q _ _ hq late

/-- Whoever is still there when its work ends waits for it. -/
theorem running_at_end (ht : t ∈ ts) (ends : t.ends? r = some o) (early : t.time < call.time + l) :
    ∃ q, t.after.request? r = some q ∧ q.stage = .running ∧ q.work = .ended o := by
  have facing := facing_course course ht
  obtain ⟨q, hq, _⟩ : ∃ q, t.engine.request? r = some q ∧ _ := by
    rw [Turn.ends?, if_pos (Turn.signal_of_ends (Option.isSome_of_eq_some ends))] at ends
    exact Option.bind_eq_some_iff.1 ends
  obtain ⟨q', hq', becomes⟩ := facing.handled.becomes r q hq
  obtain ⟨⟨goes, waits⟩, stage, ended⟩ := becomes.of_end ends
  refine ⟨q', hq', ?_, ended⟩
  rw [stage]
  obtain running | ⟨isOver, asked⟩ := waits
  · exact running
  · obtain ended | late := (facing.prompt.treated r q hq).owed isOver asked
    · cases ended.symm.trans goes
    · have replied := deadline_of_timedOut course hc accepts ht hq late
      omega

theorem answer_of_end (ht : t ∈ ts) (ends : t.ends? r = some o) (early : t.time < call.time + l)
    (past : e.Past t.time) : e.answer? r = some (t.time, o) := by
  obtain ⟨q, hq, running, ended⟩ := running_at_end course hc accepts ht ends early
  obtain ⟨before, after, rfl⟩ := List.append_of_mem ht
  obtain ⟨_, _, _, _, _, notified⟩ | ⟨q', hq', _, replied⟩ :=
    delivered_course course hq running ended
  · exact (past.not_due notified (Nat.le_refl _)).elim
  · exact answer?_eq hq' replied

/-- A caller is told that its time is up unless its work ends before that, or the pool is asked to
close while it still waits for a slot. -/
theorem answer_otherwise (goes : ∀ t ∈ ts, (t.ends? r).isSome → call.time + l < t.time)
    (isOpen : ∀ t ∈ ts, (∃ d, t.signal = .close d) → ¬t.engine.Waits r)
    (past : e.Past (call.time + l)) :
    e.answer? r = some (call.time + l, .error (.pool (.timeout l))) := by
  obtain ⟨⟨τ, o⟩, answer⟩ := Option.isSome_iff_exists.1 (answer_isSome course hc accepts past)
  have soon := answer_by_deadline course hc accepts answer
  obtain ⟨q, hq, _, called, _, limit⟩ := accepted_course course hc accepts
  have replied : q.answer = some (τ, o) := by
    rw [answer?, hq, Option.bind_some] at answer
    exact answer
  cases (story_course course).answers r q τ o hq replied with
  | own ht early ends =>
      have late := goes _ ht (by rw [ends]; rfl)
      omega
  | dismissed ht _ hs waits => exact absurd waits (isOpen _ ht hs)
  | refused ht hs arrives =>
      have once := ((going_ofWorld w c).course course).steady.order.booked.once
      cases call_unique once hc ht accepts.call hs
      exact absurd arrives (accepts.accepted _)
  | timedOut late =>
      rw [answer?_eq hq late, called, limit]

end Accepted
end Calls

section Tokens

/-- A caller that is told something before it has a slot leaves for good. -/
theorem Becomes.leaves (h : Becomes t r q q') (facing : Facing t)
    (hq : t.engine.request? r = some q) (seeks : t.signal = .call r ∨ q.stage = .waiting)
    (replied : q'.answer ≠ none) (slotless : ¬q'.HoldsSlot) : Away q' := by
  obtain ⟨⟨sent, steady, meets⟩, prompt, _⟩ := facing
  have early : q.stage = .pending ∨ q.stage = .waiting := by
    refine seeks.imp_left fun hs => ?_
    obtain ⟨unsent, _⟩ := meets.calls r hs
    exact (steady.order.unsent r q hq unsent).1
  obtain ⟨fresh, unasked, idle⟩ := (steady.order.fits r q hq).early early
  have unreplied : q.answer = none := by
    refine (prompt.treated r q hq).unreplied ?_
    obtain stage | stage := early <;> simp [stage]
  have holds (holds : q.HoldsSlot) : False := early.elim holds.not_pending holds.not_waiting
  have runs (running : q.stage = .running) : False := by
    obtain stage | stage := early <;> cases stage.symm.trans running
  cases h with
  | left | queued => exact absurd unreplied replied
  | asked _ has | worked _ has => exact (holds has).elim
  | answered _ running | overran _ running => exact (runs running).elim
  | refused | dismissed => exact ⟨rfl, unasked, fresh, idle⟩
  | seated seeks => cases seeks <;> exact absurd unreplied replied
  | seatedLate seeks =>
      refine absurd ⟨?_, .inr ⟨rfl, rfl⟩⟩ slotless
      cases seeks <;> exact Request.hasEnded_of_isFresh fresh
  | expired seeks => cases seeks <;> exact ⟨rfl, unasked, fresh, idle⟩

variable (course : Course Pooling OnTime (.ofWorld w c) ts e)
include course

/-- Whoever is told something before it has a slot: its work never begins. -/
theorem never_begins (ht : t ∈ ts) (seeks : t.signal = .call r ∨ t.engine.Waits r)
    (replied : (t.after.answer? r).isSome) (slotless : r ∉ t.after.unitsWithSlot)
    (hq : e.request? r = some q) : q.begun = none := by
  have facing := facing_course course ht
  obtain ⟨a, replied⟩ := Option.isSome_iff_exists.1 replied
  obtain ⟨q', hq', replied⟩ := Option.bind_eq_some_iff.1 replied
  obtain ⟨q₀, hq₀, becomes⟩ := facing.handled.was hq'
  have away : Away q' := by
    refine becomes.leaves facing hq₀ (seeks.imp_right (waits_iff hq₀).1) (by simp [replied]) ?_
    exact fun holds => slotless (mem_unitsWithSlot.2 ⟨q', hq', holds⟩)
  obtain ⟨before, after, rfl⟩ := List.append_of_mem ht
  cases (away_course course hq' away).symm.trans hq
  exact away.idle

/-- Work that goes on when its caller has been told of a timeout has been asked to stop. -/
theorem cancelled_of_timeout (hq : e.request? r = some q) (works : q.isAtWork = true)
    (replied : (e.answer? r).isSome) : q.cancelled = true := by
  obtain ⟨steady, prompt, _⟩ := (going_ofWorld w c).course course
  rw [answer?, hq, Option.bind_some] at replied
  rw [Request.isAtWork, Bool.and_eq_true, Bool.not_eq_true', Option.isSome_iff_ne_none] at works
  obtain ⟨_, running | ⟨_, asked⟩⟩ := (steady.order.fits r q hq).begun works.1 works.2
  · have unreplied := (prompt.treated r q hq).unreplied (by simp [running])
    rw [unreplied] at replied
    cases replied
  · exact asked

end Tokens

/-- Callers that are accepted are answered by their deadline: with the end of their own work if it
ends before that, with a notice that the pool closes if it does so while they wait for a slot, and
else with a timeout, at the deadline. Who is told of a timeout before it has a slot never begins its
work. Work is asked to stop once its own caller has been told of a timeout, or the time is over that
the pool gives since it was asked to close, and not else. -/
theorem calls_are_answered_in_time (w : World) (c : PoolConfig)
    (course : Course Pooling OnTime (.ofWorld w c) ts e) :
    (∀ call ∈ ts, ∀ r l, call.Accepts r l →
      let deadline := call.time + l
      (∀ τ o, e.answer? r = some (τ, o) → τ ≤ deadline) ∧
      (e.Past deadline → (e.answer? r).isSome) ∧
      (∀ t ∈ ts, ∀ o, t.ends? r = some o → t.time < deadline → e.Past t.time →
        e.answer? r = some (t.time, o)) ∧
      (∀ t ∈ ts, (∃ d, t.signal = .close d) → t.engine.Waits r → e.Past t.time →
        e.answer? r = some (t.time, .error (.pool .shuttingDown))) ∧
      ((∀ t ∈ ts, (t.ends? r).isSome → deadline < t.time) →
        (∀ t ∈ ts, (∃ d, t.signal = .close d) → ¬t.engine.Waits r) → e.Past deadline →
        e.answer? r = some (deadline, .error (.pool (.timeout l))))) ∧
    (∀ t ∈ ts, ∀ r, t.signal = .call r ∨ t.engine.Waits r →
      (∃ τ l, t.after.answer? r = some (τ, .error (.pool (.timeout l)))) →
      r ∉ t.after.unitsWithSlot → ∀ q, e.request? r = some q → q.begun = none) ∧
    (∀ r q, e.request? r = some q →
      (q.cancelled = true → (∃ τ l, e.answer? r = some (τ, .error (.pool (.timeout l)))) ∨
        ∃ t ∈ ts, (∃ d, t.signal = .close d) ∧ t.time + c.shutdownTimeout ≤ e.now) ∧
      (q.isAtWork = true → (∃ τ l, e.answer? r = some (τ, .error (.pool (.timeout l)))) →
        q.cancelled = true) ∧
      (q.hasSlot = true → ∀ t ∈ ts, ∀ d, t.signal = .close d → t.engine.report? d = none →
        e.Past (t.time + c.shutdownTimeout) → q.cancelled = true)) := by
  have bound {t : Turn ρ} (ht : t ∈ ts) : t.bound = t.time + c.shutdownTimeout := by
    rw [Turn.bound, config_course course ht]
  refine ⟨fun call hc r l accepts => ?_, fun t ht r seeks replied slotless q hq => ?_,
    fun r q hq => ⟨fun asked => ?_, fun works replied => ?_,
      fun has t ht d hs unreported past => ?_⟩⟩
  · refine ⟨fun τ o => answer_by_deadline course hc accepts, answer_isSome course hc accepts,
      fun t ht o => answer_of_end course hc accepts ht, ?_, answer_otherwise course hc accepts⟩
    rintro t ht ⟨d, hs⟩ waits
    obtain ⟨before, after, rfl⟩ := List.append_of_mem ht
    exact (waiting_turned_away course hs waits).1
  · obtain ⟨τ, l, replied⟩ := replied
    exact never_begins course ht seeks (by rw [replied]; rfl) slotless hq
  · refine (cancelled_course course hq asked).imp (fun late => ⟨_, _, answer?_eq hq late⟩) ?_
    rintro ⟨t, ht, hs, late⟩
    rw [bound ht] at late
    exact ⟨t, ht, hs, late⟩
  · obtain ⟨τ, l, replied⟩ := replied
    exact cancelled_of_timeout course hq works (by rw [replied]; rfl)
  · rw [← bound ht] at past
    obtain ⟨before, after, rfl⟩ := List.append_of_mem ht
    exact cancelled_of_bound course hs unreported past hq (Request.hasSlot_iff.1 has)

/-- Four callers of a pool with one slot. The first is told of a timeout while its work goes on, and
the second gets the result of its own work, which nobody has asked to stop; the third is told of a
timeout while it waits for the slot, and the last that the pool closes. -/
theorem one_slot_for_four :
    let c : PoolConfig := { maxConcurrency := 1, maxPending := 3, shutdownTimeout := 20 }
    let w : World := { readings := fun n => ⟨n, 0⟩, shares := fun _ => 0 }
    ∃ (ts : List (Turn Unit)) (e : Engine Unit), Course Pooling OnTime (.ofWorld w c) ts e ∧
      (∀ x ∈ [(0, 10), (1, 100), (2, 20), (3, 100)],
        ∃ call ∈ ts, call.time = 0 ∧ call.Accepts x.1 x.2) ∧
      e.answer? 0 = some (10, .error (.pool (.timeout 10))) ∧ e.answer? 1 = some (40, .ok ()) ∧
      e.answer? 2 = some (20, .error (.pool (.timeout 20))) ∧
      e.answer? 3 = some (35, .error (.pool .shuttingDown)) ∧
      (∀ q, e.request? 2 = some q → q.begun = none) ∧
      ∀ q, e.request? 1 = some q → q.cancelled = false := by
  intro c w
  let q (limit ms : Nat) : Request Unit :=
    { route := .pool, limit := some limit, foreground := true
      work := .fresh (.sleep ms (.done ())) }
  have new (limit ms : Nat) : (q limit ms).IsNew := ⟨_, _, _, _, rfl⟩
  let e₀ : Engine Unit := .ofWorld w c
  have spawns {e : Engine Unit} (h : Course Pooling OnTime e₀ [] e) (limit ms : Nat) :
      Course Pooling OnTime e₀ [] (e.spawn (q limit ms)).2 :=
    h.between (.spawn (q limit ms) (new limit ms) rfl)
  let e₁ := ((((e₀.spawn (q 10 30)).2.spawn (q 100 10)).2.spawn (q 20 10)).2.spawn (q 100 10)).2
  have spawned : Course Pooling OnTime e₀ [] e₁ :=
    spawns (spawns (spawns (spawns .start 10 30) 100 10) 20 10) 100 10
  let before := [] ++ e₁.turns (quietBefore 35) 40
  let e₂ : Engine Unit := { e₁.runFor (quietBefore 35) 40 with world.now := 35 }
  let close : Turn Unit := ⟨(e₂.addDrain { foreground := false }).2, .close e₂.drains.length⟩
  have closed : Course Pooling OnTime e₀ (before ++ [close]) close.after :=
    (course_upTo spawned 35 40 (by decide +kernel)).turn (.close { foreground := false })
  let ts := before ++ [close] ++ close.after.turns (quietBefore 50) 40
  let e := close.after.runFor (quietBefore 50) 40
  have course : Course Pooling OnTime e₀ ts e := course_runFor closed (quietBefore 50) 40
  have accepted : ∀ x ∈ [(0, 10), (1, 100), (2, 20), (3, 100)],
      ∃ call ∈ ts, call.time = 0 ∧ call.Accepts x.1 x.2 := by
    decide +kernel
  have now : e.now = 40 := by decide +kernel
  have past : e.Past 40 := by decide +kernel
  have late : ∀ x ∈ [(0, 10), (2, 20)], x.2 < e.now ∧
      ∀ t ∈ ts, ((t.ends? x.1).isSome → x.2 < t.time) ∧
        (x.1 ∈ t.engine.waitingCallers → t.signal.concerns ≠ none) := by
    decide +kernel
  have ends : ∃ t ∈ ts, t.time = 40 ∧ t.ends? 1 = some (.ok ()) := by decide +kernel
  have closes : close.signal = .close 0 ∧ close.time = 35 ∧ 3 ∈ close.engine.waitingCallers := by
    decide +kernel
  have once : ∀ t ∈ ts, t.signal.concerns = none → 35 ≤ t.time := by decide +kernel
  have expires : ∃ t ∈ ts, 2 ∈ t.engine.waitingCallers ∧
      t.after.answer? 2 = some (20, .error (.pool (.timeout 20))) ∧ 2 ∉ t.after.unitsWithSlot := by
    decide +kernel
  have hc : close ∈ ts := by simp [ts]
  clear_value ts e close
  obtain ⟨answers, begins, tokens⟩ := calls_are_answered_in_time w c course
  have timedOut (x : Nat × Nat) (hx : x ∈ [(0, 10), (2, 20)])
      (called : x ∈ [(0, 10), (1, 100), (2, 20), (3, 100)]) :
      e.answer? x.1 = some (x.2, .error (.pool (.timeout x.2))) := by
    obtain ⟨past, late⟩ := late x hx
    obtain ⟨call, hcall, time, accepts⟩ := accepted x called
    obtain ⟨_, _, _, _, otherwise⟩ := answers call hcall _ _ accepts
    rw [time, Nat.zero_add] at otherwise
    refine otherwise (fun t ht => (late t ht).1) ?_ (past_course course past)
    rintro t ht ⟨d, hs⟩ waits
    exact (late t ht).2 (mem_waitingCallers.2 waits) (by rw [hs]; rfl)
  have own : e.answer? 1 = some (40, .ok ()) := by
    obtain ⟨t, ht, time, ends⟩ := ends
    obtain ⟨call, hcall, called, accepts⟩ := accepted (1, 100) (by simp)
    obtain ⟨_, _, answer, _⟩ := answers call hcall _ _ accepts
    rw [← time] at past ⊢
    exact answer t ht _ ends (by simp [time, called]) past
  have dismissed : e.answer? 3 = some (35, .error (.pool .shuttingDown)) := by
    obtain ⟨hs, time, waits⟩ := closes
    obtain ⟨call, hcall, called, accepts⟩ := accepted (3, 100) (by simp)
    obtain ⟨_, _, _, answer, _⟩ := answers call hcall _ _ accepts
    rw [← time]
    exact answer close hc ⟨0, hs⟩ (mem_waitingCallers.1 waits) (past_course course (by omega))
  refine ⟨ts, e, course, accepted, timedOut (0, 10) (by simp) (by simp), own,
    timedOut (2, 20) (by simp) (by simp), dismissed, ?_, fun q hq => ?_⟩
  · obtain ⟨t, ht, waits, replied, slotless⟩ := expires
    exact begins t ht 2 (.inr (mem_waitingCallers.1 waits)) ⟨20, 20, replied⟩ slotless
  · by_contra asked
    rw [Bool.not_eq_false] at asked
    obtain ⟨τ, l, replied⟩ | ⟨t, ht, ⟨d, hs⟩, late⟩ := (tokens 1 q hq).1 asked
    · cases own.symm.trans replied
    · have later := once t ht (by rw [hs]; rfl)
      have bound : t.time + 20 ≤ e.now := late
      omega

end PoolTraffic
end EventSourcing
