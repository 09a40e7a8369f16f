import EventSourcing.Proofs.Pool.Story

/-!
Pools that close.
From the turn in which a pool is asked to close for the first time, units only leave: nobody is
given a slot any more. Who asked waits until the last of them has left or the time is over that the
pool gives, and is told how many have ended and how many have not. Only then is the work that goes
on asked to stop.
-/
namespace EventSourcing.PoolTraffic
open Engine
variable {ρ : Type} {sent : List Nat} {e e' e₀ : Engine ρ} {t u : Turn ρ}
  {ts ts' before after : List (Turn ρ)} {r d τ : Nat} {q q' : Request ρ} {dr dr' : Drain}
  {rep : DrainReport} {due : Signal → Nat → Prop} {w : World} {c : PoolConfig}

theorem mem_unitsWithSlot : r ∈ e.unitsWithSlot ↔ e.Holds r := by
  rw [Engine.unitsWithSlot, mem_requestsWith, Holds]
  exact exists_congr fun q => and_congr_right fun _ => Request.hasSlot_iff

theorem mem_waitingCallers : r ∈ e.waitingCallers ↔ e.Waits r := by
  rw [Engine.waitingCallers, mem_requestsWith, Waits, stage?, Option.map_eq_some_iff]
  exact exists_congr fun q => and_congr_right fun _ => Request.isWaiting_iff

/-- Who holds a slot after a turn held it before, or came to it in the turn. -/
theorem Becomes.held (h : Becomes t r q q') (facing : Facing t)
    (hq : t.engine.request? r = some q) (holds : q'.HoldsSlot) :
    q.HoldsSlot ∨ t.engine.pool.closing = false ∧ t.signal.concerns = some r := by
  obtain ⟨⟨sent, steady, _⟩, prompt, _⟩ := facing
  have unasked {q₁ : Request ρ} {o : Ending ρ} (asked : q₁.cancelled = false)
      (holds : (q₁.replied t.time o).HoldsSlot) : False := by
    obtain running | ⟨_, cancelled⟩ := holds.2
    · cases running
    · cases asked.symm.trans cancelled
  have concerns {q₁ : Request ρ} (seeks : Seeks t r q q₁) : t.signal.concerns = some r := by
    cases seeks with
    | comes hs | waits hs =>
        rw [hs]
        rfl
  cases h with
  | left => exact .inl holds
  | asked _ before | worked _ before => exact .inl before
  | answered hs running done =>
      have goes := holds.1
      rw [Request.hasEnded, Request.replied, done] at goes
      cases goes
  | overran hs running goes late => exact .inl ⟨goes, .inl running⟩
  | refused hs pending arrives =>
      have looks := (Seeks.comes hs pending).looks steady.order prompt hq
      exact absurd holds (unasked looks.unasked)
  | queued => exact absurd rfl holds.not_waiting
  | seated seeks isOpen | seatedLate seeks isOpen | expired seeks isOpen =>
      exact .inr ⟨isOpen, concerns seeks⟩
  | dismissed hs waiting closing =>
      have looks := (Seeks.waits hs waiting).looks steady.order prompt hq
      exact absurd holds (unasked looks.unasked)

theorem Facing.held (facing : Facing t) (holds : t.after.Holds r) :
    t.engine.Holds r ∨ t.engine.pool.closing = false ∧ t.signal.concerns = some r := by
  obtain ⟨q', hq', holds⟩ := holds
  obtain ⟨q, hq, becomes⟩ := facing.handled.was hq'
  exact (becomes.held facing hq holds).imp_left fun holds => ⟨q, hq, holds⟩

/-- Whoever holds a slot keeps it until its work ends. -/
theorem Facing.holds (facing : Facing t) (holds : t.engine.Holds r) :
    t.after.Holds r ∨ (t.ends? r).isSome := by
  obtain ⟨q, hq, holds⟩ := holds
  obtain ⟨q', hq', becomes⟩ := facing.handled.becomes r q hq
  exact (becomes.holds holds).imp_left fun holds => ⟨q', hq', holds⟩

theorem Steady.inFlight_eq_zero (h : Steady e sent) : e.pool.inFlight = 0 ↔ ∀ r, ¬e.Holds r := by
  rw [Pool.inFlight, List.length_eq_zero_iff, List.eq_nil_iff_forall_not_mem]
  exact forall_congr' fun r => not_congr (h.order.serves.runs r)

/-- A pool runs empty where work ends. -/
theorem Facing.emptied (facing : Facing t) (busy : t.engine.pool.inFlight ≠ 0)
    (idle : t.after.pool.inFlight = 0) : ∃ r, t.engine.Holds r ∧ (t.ends? r).isSome := by
  obtain ⟨sent, steady, meets⟩ := facing.steady
  have empty := (steady.handle meets).inFlight_eq_zero.1 idle
  rw [Ne, steady.inFlight_eq_zero, not_forall] at busy
  obtain ⟨r, holds⟩ := busy
  rw [not_not] at holds
  exact ⟨r, holds, (facing.holds holds).resolve_left (empty r)⟩

/-- The pool gives up only when the time is over that it has given since it was asked to close. -/
structure Draining (ts : List (Turn ρ)) (e : Engine ρ) (due : Signal → Nat → Prop) : Prop where
  gaveUp : e.pool.cancelled = true → ∃ t ∈ ts, (∃ d, t.signal = .close d) ∧ t.bound ≤ e.now
  drained : ∀ d τ, due (.drained d) τ → (e.pool.closing = true ∧ e.pool.inFlight = 0) ∨
    ∃ dr, e.drains[d]? = some dr ∧ ∃ t ∈ ts, (∃ d, t.signal = .close d) ∧ t.bound ≤ dr.deadline

theorem Draining.passes (h : Draining ts e e.DueAt) (passes : Passes e e' due) :
    Draining ts e' due where
  gaveUp cancelled := by
    rw [passes.pool] at cancelled
    obtain ⟨t, ht, hs, bound⟩ := h.gaveUp cancelled
    exact ⟨t, ht, hs, Nat.le_trans bound passes.now⟩
  drained d τ due := by
    rw [passes.pool]
    refine (h.drained d τ (passes.drained d τ due)).imp_right ?_
    rintro ⟨dr, hdr, asked⟩
    exact ⟨dr, passes.drains d dr hdr, asked⟩

theorem DrainBecomes.deadline (h : DrainBecomes t d dr dr') :
    t.signal ≠ .close d ∧ dr'.deadline = dr.deadline ∨
      t.signal = .close d ∧ dr'.deadline = t.bound := by
  cases h with
  | left unasked => exact .inl ⟨unasked, rfl⟩
  | drained hs | gaveUp hs => exact .inl ⟨by simp [hs], rfl⟩
  | idle hs | hurried hs | waits hs => exact .inr ⟨hs, rfl⟩

theorem Draining.turn (h : Draining ts t.engine t.DueAt) (facing : Facing t) :
    Draining (ts ++ [t]) t.after t.after.DueAt where
  gaveUp cancelled := by
    rw [facing.handled.now]
    obtain before | ⟨⟨hs, bound⟩ | ⟨d, dr, hs, hdr, late, busy⟩, _⟩ :=
      facing.handled.givesUp cancelled
    · obtain ⟨t', ht', hs, bound⟩ := h.gaveUp before
      exact ⟨t', List.mem_append_left _ ht', hs, bound⟩
    · exact ⟨t, by simp, hs, Nat.le_of_eq bound⟩
    · obtain ⟨_, idle⟩ | ⟨dr', hdr', t', ht', hs', bound⟩ := h.drained d t.time (.inl ⟨hs, rfl⟩)
      · exact absurd idle busy
      · cases hdr.symm.trans hdr'
        exact ⟨t', List.mem_append_left _ ht', hs', Nat.le_trans bound late⟩
  drained d τ due := by
    have old (due : t.DueAt (.drained d) τ) : (t.after.pool.closing = true ∧
        t.after.pool.inFlight = 0) ∨ ∃ dr, t.after.drains[d]? = some dr ∧
          ∃ t' ∈ ts ++ [t], (∃ d, t'.signal = .close d) ∧ t'.bound ≤ dr.deadline := by
      obtain ⟨closing, idle⟩ | ⟨dr, hdr, t', ht', hs', bound⟩ := h.drained d τ due
      · have fewer := facing.handled.fewer closing
        exact .inl ⟨facing.handled.closing closing, by omega⟩
      · obtain ⟨dr', hdr', becomes⟩ := facing.handled.drains d dr hdr
        refine .inr ⟨dr', hdr', ?_⟩
        obtain ⟨_, same⟩ | ⟨hs, new⟩ := becomes.deadline
        · rw [same]
          exact ⟨t', List.mem_append_left _ ht', hs', bound⟩
        · rw [new]
          exact ⟨t, by simp, ⟨d, hs⟩, Nat.le_refl _⟩
    obtain before | idle | ⟨hs, rfl⟩ := facing.handled.drained d τ due
    · exact old (.inr before)
    · exact .inl idle
    · obtain ⟨_, made⟩ := facing.asks d hs
      obtain ⟨dr', hdr', becomes⟩ := facing.handled.drains d _ (List.getElem?_eq_getElem made)
      refine .inr ⟨dr', hdr', t, by simp, ⟨d, hs⟩, ?_⟩
      obtain ⟨unasked, _⟩ | ⟨_, new⟩ := becomes.deadline
      · exact absurd hs unasked
      · exact Nat.le_of_eq new.symm

theorem draining_ofWorld (w : World) (c : PoolConfig) :
    Draining [] (ofWorld (ρ := ρ) w c) (ofWorld (ρ := ρ) w c).DueAt where
  gaveUp cancelled := by cases cancelled
  drained d τ due := by
    obtain ⟨_, hd, _⟩ := due
    cases hd

theorem draining_course (course : Course Pooling OnTime (.ofWorld w c) ts e) :
    Draining ts e e.DueAt :=
  (going_ofWorld w c).always (P := Draining) (fun _ _ _ _ => Draining.passes)
    (fun _ _ facing draining => draining.turn facing) (draining_ofWorld w c) course

/-- What is reported of the work in flight that was there when the pool was asked to close: all of
it has ended, the last of it at the time of the report, or the time that the pool gives is over. -/
inductive Report (u : Turn ρ) (ts : List (Turn ρ)) : Nat → DrainReport → Prop where
  | idle (idle : u.engine.pool.inFlight = 0) : Report u ts u.time ⟨0, 0⟩
  | emptied {t : Turn ρ} (ht : t ∈ ts) (soon : t.time ≤ u.bound)
      (last : ∃ r, u.engine.Holds r ∧ (t.ends? r).isSome)
      (all : ∀ r, u.engine.Holds r → ∃ t' ∈ ts, (t'.ends? r).isSome ∧ t'.time ≤ t.time) :
      Report u ts t.time ⟨u.engine.pool.inFlight, 0⟩
  | gaveUp {t : Turn ρ} (ht : t ∈ u :: ts) (time : t.time = u.bound)
      (busy : t.engine.pool.inFlight ≠ 0) (units : ∀ r, t.engine.Holds r → u.engine.Holds r) :
      Report u ts t.time
        ⟨u.engine.pool.inFlight - t.engine.pool.inFlight, t.engine.pool.inFlight⟩

theorem Report.more (h : Report u ts τ rep) (more : ts ⊆ ts') : Report u ts' τ rep := by
  cases h with
  | idle idle => exact .idle idle
  | emptied ht soon last all =>
      refine .emptied (more ht) soon last fun r holds => ?_
      obtain ⟨t', ht', ends⟩ := all r holds
      exact ⟨t', more ht', ends⟩
  | gaveUp ht time busy units => exact .gaveUp (List.cons_subset_cons u more ht) time busy units

/-- What has become of the work in flight since the pool was asked to close. -/
structure Leaves (u : Turn ρ) (ts : List (Turn ρ)) (e : Engine ρ) : Prop where
  closing : e.pool.closing = true
  units : ∀ r, e.Holds r → u.engine.Holds r
  gone : ∀ r, u.engine.Holds r → e.Holds r ∨ ∃ t ∈ ts, (t.ends? r).isSome ∧ t.time ≤ e.now

/-- Who asked the pool to close waits for the work in flight, until the time is over that the pool
gives, or has had the report. -/
inductive Knows (u : Turn ρ) (d : Nat) (ts : List (Turn ρ)) (e : Engine ρ)
    (due : Signal → Nat → Prop) (dr : Drain) : Prop where
  | waits (unreplied : dr.answer = none) (running : dr.running = u.engine.pool.inFlight)
      (deadline : dr.deadline = u.bound) (bound : due (.drained d) u.bound)
      (empty : e.pool.inFlight = 0 → due (.drained d) e.now ∧
        ∃ t ∈ ts, t.time = e.now ∧ ∃ r, u.engine.Holds r ∧ (t.ends? r).isSome)
      (still : ∀ t ∈ u :: ts, t.after.pool.inFlight = 0 → e.pool.inFlight = 0 ∧ e.now ≤ t.time)
  | replied {τ : Nat} {rep : DrainReport} (replied : dr.answer = some (τ, rep))
      (report : Report u ts τ rep) (stops : e.pool.inFlight = 0 ∨ e.pool.cancelled = true)

/-- What holds since the pool was asked to close. -/
structure Awaits (u : Turn ρ) (d : Nat) (ts : List (Turn ρ)) (e : Engine ρ)
    (due : Signal → Nat → Prop) : Prop extends Leaves u ts e where
  alone : ∀ τ, ¬due (.close d) τ
  knows : ∃ dr, e.drains[d]? = some dr ∧ Knows u d ts e due dr

theorem holds_passes (passes : Passes e e' due) : e'.Holds r ↔ e.Holds r := by
  constructor
  · rintro ⟨q, hq, holds⟩
    obtain old | ⟨_, _, _, _, rfl⟩ := passes.new r q hq
    · exact ⟨q, old, holds⟩
    · exact absurd rfl holds.not_pending
  · rintro ⟨q, hq, holds⟩
    exact ⟨q, passes.requests r q hq, holds⟩

theorem Leaves.passes (h : Leaves u ts e) (passes : Passes e e' due) : Leaves u ts e' where
  closing := by
    rw [passes.pool]
    exact h.closing
  units r holds := h.units r ((holds_passes passes).1 holds)
  gone r holds := by
    refine (h.gone r holds).imp (holds_passes passes).2 ?_
    rintro ⟨t, ht, ends, early⟩
    exact ⟨t, ht, ends, Nat.le_trans early passes.now⟩

theorem Knows.passes (h : Knows u d ts e e.DueAt dr) (passes : Passes e e' due) :
    Knows u d ts e' due dr := by
  cases h with
  | waits unreplied running deadline bound empty still =>
      refine .waits unreplied running deadline (passes.stays _ _ bound) (fun idle => ?_)
        fun t ht idle => ?_
      · rw [passes.pool] at idle
        obtain ⟨notified, last⟩ := empty idle
        rw [passes.now_eq notified]
        exact ⟨passes.stays _ _ notified, last⟩
      · obtain ⟨idle, early⟩ := still t ht idle
        rw [passes.pool, passes.now_eq (empty idle).1]
        exact ⟨idle, early⟩
  | replied replied report stops =>
      refine .replied replied report ?_
      rw [passes.pool]
      exact stops

theorem Awaits.passes (h : Awaits u d ts e e.DueAt) (passes : Passes e e' due) :
    Awaits u d ts e' due where
  toLeaves := h.toLeaves.passes passes
  alone τ asks := by
    obtain ⟨dr, hdr, _⟩ := h.knows
    have made := (List.getElem?_eq_some_iff.1 hdr).1
    obtain old | new := passes.closes d τ asks
    · exact h.alone τ old
    · omega
  knows := by
    obtain ⟨dr, hdr, knows⟩ := h.knows
    exact ⟨dr, passes.drains d dr hdr, knows.passes passes⟩

section Turns
variable (facing : Facing t)
include facing

theorem Leaves.turn (h : Leaves u ts t.engine) : Leaves u (ts ++ [t]) t.after where
  closing := facing.handled.closing h.closing
  units r holds := by
    obtain before | ⟨isOpen, _⟩ := facing.held holds
    · exact h.units r before
    · cases isOpen.symm.trans h.closing
  gone r holds := by
    rw [facing.handled.now]
    obtain before | ⟨t', ht', ends⟩ := h.gone r holds
    · refine (facing.holds before).imp_right fun ends => ⟨t, by simp, ends, Nat.le_refl _⟩
    · exact .inr ⟨t', List.mem_append_left _ ht', ends⟩

theorem Leaves.stays_empty (h : Leaves u ts t.engine) (idle : t.engine.pool.inFlight = 0) :
    t.after.pool.inFlight = 0 := by
  have fewer := facing.handled.fewer h.closing
  omega

/-- Who waits for the pool to run empty goes on waiting while the turn is not about that. -/
theorem Knows.wait (h : Leaves u ts t.engine) (unreplied : dr.answer = none)
    (running : dr.running = u.engine.pool.inFlight) (deadline : dr.deadline = u.bound)
    (bound : t.DueAt (.drained d) u.bound)
    (empty : t.engine.pool.inFlight = 0 → t.DueAt (.drained d) t.time ∧
      ∃ t' ∈ ts, t'.time = t.time ∧ ∃ r, u.engine.Holds r ∧ (t'.ends? r).isSome)
    (still : ∀ t' ∈ u :: ts, t'.after.pool.inFlight = 0 →
      t.engine.pool.inFlight = 0 ∧ t.time ≤ t'.time)
    (made : d < t.engine.drains.length)
    (busy : t.signal = .drained d → t.engine.pool.inFlight ≠ 0 ∧ t.time < dr.deadline) :
    Knows u d (ts ++ [t]) t.after t.after.DueAt dr := by
  refine .waits unreplied running deadline ?_ (fun idle => ?_) fun t' ht' idle => ?_
  · obtain ⟨hs, time⟩ | due := bound
    · have early := (busy hs).2
      omega
    · exact facing.handled.stays _ _ due
  · rw [facing.handled.now]
    by_cases before : t.engine.pool.inFlight = 0
    · obtain ⟨notified, t', ht', last⟩ := empty before
      refine ⟨?_, t', List.mem_append_left _ ht', last⟩
      obtain ⟨hs, _⟩ | due := notified
      · exact absurd before (busy hs).1
      · exact facing.handled.stays _ _ due
    · obtain ⟨r, holds, ends⟩ := facing.emptied before idle
      have closing := facing.handled.closing h.closing
      have noticed := (facing.handled.notices closing idle).resolve_left before
      exact ⟨noticed d made, t, by simp, rfl, r, h.units r holds, ends⟩
  · rw [facing.handled.now]
    rw [← List.cons_append, List.mem_append, List.mem_singleton] at ht'
    obtain before | rfl := ht'
    · obtain ⟨idle, early⟩ := still t' before idle
      exact ⟨h.stays_empty facing idle, early⟩
    · exact ⟨idle, Nat.le_refl _⟩

theorem Knows.turn (knows : Knows u d ts t.engine t.DueAt dr) (h : Leaves u ts t.engine)
    (made : d < t.engine.drains.length) (becomes : DrainBecomes t d dr dr')
    (other : t.signal ≠ .close d) : Knows u d (ts ++ [t]) t.after t.after.DueAt dr' := by
  cases knows with
  | waits unreplied running deadline bound empty still =>
      have early : t.time ≤ u.bound := facing.prompt.ahead _ _ bound
      cases becomes with
      | left _ waits =>
          exact Knows.wait facing h unreplied running deadline bound empty still made
            fun hs => waits hs unreplied
      | idle hs | hurried hs | waits hs => exact absurd hs other
      | drained hs _ idle =>
          obtain ⟨_, t', ht', time, last⟩ := empty idle
          have time : t'.time = t.time := time
          suffices report : Report u (ts ++ [t]) t.time ⟨dr.running, 0⟩ from
            .replied rfl report (.inl (h.stays_empty facing idle))
          rw [running, ← time]
          refine .emptied (List.mem_append_left _ ht') (by omega) last fun r holds => ?_
          obtain ⟨sent, steady, _⟩ := facing.steady
          obtain ⟨t'', ht'', ends, before⟩ :=
            (h.gone r holds).resolve_left (steady.inFlight_eq_zero.1 idle r)
          refine ⟨t'', List.mem_append_left _ ht'', ends, ?_⟩
          rw [time]
          exact before
      | gaveUp hs _ busy late all =>
          refine .replied rfl ?_ (.inr all)
          rw [running]
          exact .gaveUp (by simp) (by omega) busy h.units
  | replied replied report stops =>
      have more := report.more (List.subset_append_left ts [t])
      have stops' : t.after.pool.inFlight = 0 ∨ t.after.pool.cancelled = true :=
        stops.imp (h.stays_empty facing) facing.handled.cancelled
      cases becomes with
      | left => exact .replied replied more stops'
      | idle hs | hurried hs | waits hs => exact absurd hs other
      | drained _ unreplied | gaveUp _ unreplied => cases unreplied.symm.trans replied

theorem Awaits.turn (h : Awaits u d ts t.engine t.DueAt) :
    Awaits u d (ts ++ [t]) t.after t.after.DueAt where
  toLeaves := h.toLeaves.turn facing
  alone τ asks := by
    have some := due_pos.2 ⟨τ, asks⟩
    rw [facing.handled.closes] at some
    obtain ⟨τ', asked⟩ := due_pos.1 some
    exact h.alone τ' (.inr asked)
  knows := by
    obtain ⟨dr, hdr, knows⟩ := h.knows
    obtain ⟨dr', hdr', becomes⟩ := facing.handled.drains d dr hdr
    refine ⟨dr', hdr', knows.turn facing h.toLeaves (List.getElem?_eq_some_iff.1 hdr).1 becomes ?_⟩
    exact fun hs => h.alone t.time (.inl ⟨hs, rfl⟩)

theorem leaves_of_close (hs : t.signal = .close d) : Leaves t [] t.after where
  closing := facing.handled.shut d hs
  units r holds := by
    refine (facing.held holds).resolve_right fun ⟨_, concerns⟩ => ?_
    rw [hs] at concerns
    cases concerns
  gone r holds := by
    refine .inl ((facing.holds holds).resolve_right fun ends => ?_)
    cases hs.symm.trans (Turn.signal_of_ends ends)

theorem awaits_of_close (hs : t.signal = .close d) (unreported : t.engine.report? d = none) :
    Awaits t d [] t.after t.after.DueAt where
  toLeaves := leaves_of_close facing hs
  alone τ asks := by
    have some := due_pos.2 ⟨τ, asks⟩
    rw [facing.handled.closes, (facing.asks d hs).1] at some
    exact Nat.lt_irrefl _ some
  knows := by
    have made := (facing.asks d hs).2
    have hdr := List.getElem?_eq_getElem made
    obtain ⟨dr', hdr', becomes⟩ := facing.handled.drains d _ hdr
    refine ⟨dr', hdr', ?_⟩
    have unreplied : t.engine.drains[d].answer = none := by
      rw [report?, hdr] at unreported
      exact unreported
    have still (busy : t.engine.pool.inFlight ≠ 0) : t.after.pool.inFlight ≠ 0 := by
      intro idle
      obtain ⟨r, _, ends⟩ := facing.emptied busy idle
      cases hs.symm.trans (Turn.signal_of_ends ends)
    cases becomes with
    | left unasked => exact absurd hs unasked
    | drained hs' | gaveUp hs' => cases hs.symm.trans hs'
    | idle _ idle =>
        obtain ⟨sent, steady, meets⟩ := facing.steady
        refine .replied rfl (.idle idle) (.inl ((steady.handle meets).inFlight_eq_zero.2 ?_))
        intro r holds
        exact steady.inFlight_eq_zero.1 idle r ((leaves_of_close facing hs).units r holds)
    | hurried _ busy bound all =>
        refine .replied rfl ?_ (.inr all)
        have report : Report t [] t.time ⟨t.engine.pool.inFlight - t.engine.pool.inFlight,
          t.engine.pool.inFlight⟩ := .gaveUp (by simp) bound.symm busy fun _ => id
        rw [Nat.sub_self] at report
        exact report
    | waits _ busy due =>
        refine .waits unreplied rfl rfl due (fun idle => absurd idle (still busy)) ?_
        intro t' ht' idle
        rw [List.mem_singleton.1 ht'] at idle
        exact absurd idle (still busy)

end Turns

theorem awaits_course (course : Course Pooling OnTime (.ofWorld w c) (before ++ u :: after) e)
    (hs : u.signal = .close d) (unreported : u.engine.report? d = none) :
    Awaits u d after e e.DueAt :=
  (going_ofWorld w c).since (P := Awaits u d) (fun _ _ _ _ => Awaits.passes)
    (fun _ _ facing awaits => awaits.turn facing)
    (fun facing => awaits_of_close facing hs unreported) course

/-- Once the pool has been asked to close, it closes at all later times. -/
theorem closing_course (course : Course Pooling OnTime (.ofWorld w c) (before ++ u :: after) e)
    (hs : u.signal = .close d) :
    u.time ≤ e.now ∧ ∀ t ∈ after, u.time ≤ t.time ∧ t.engine.pool.closing = true := by
  refine ((going_ofWorld w c).since (P := fun ts e _ => e.pool.closing = true ∧ u.time ≤ e.now ∧
    ∀ t ∈ ts, u.time ≤ t.time ∧ t.engine.pool.closing = true) ?_ ?_ ?_ course).2
  · rintro ts e e' due ⟨closing, later, turns⟩ passes
    rw [passes.pool]
    exact ⟨closing, Nat.le_trans later passes.now, turns⟩
  · rintro ts t facing ⟨closing, later, turns⟩
    rw [facing.handled.now]
    refine ⟨facing.handled.closing closing, later, fun t' ht' => ?_⟩
    obtain old | new := List.mem_append.1 ht'
    · exact turns t' old
    · rw [List.mem_singleton.1 new]
      exact ⟨later, closing⟩
  · intro facing
    exact ⟨facing.handled.shut d hs, Nat.le_of_eq facing.handled.now.symm, fun t ht => by cases ht⟩

/-- Whoever is called while the pool closes is turned away at once. -/
theorem Facing.refuses (facing : Facing t) (hs : t.signal = .call r)
    (closing : t.engine.pool.closing = true) : ∃ q, t.after.request? r = some q ∧ Away q ∧
      q.answer = some (t.time, .error (.pool .shuttingDown)) := by
  obtain ⟨sent, steady, meets⟩ := facing.steady
  obtain ⟨q, hq⟩ := Option.isSome_iff_exists.1 (meets.calls r hs).2.1
  obtain ⟨q', hq', becomes⟩ := facing.handled.becomes r q hq
  refine ⟨q', hq', ?_⟩
  cases becomes with
  | left uncalled => exact absurd hs uncalled
  | asked closes => obtain ⟨d, hs'⟩ | ⟨d, hs'⟩ := closes <;> cases hs.symm.trans hs'
  | worked hs' | answered hs' | overran hs' | dismissed hs' => cases hs.symm.trans hs'
  | queued _ _ isOpen | seated _ isOpen | seatedLate _ isOpen | expired _ isOpen =>
      cases isOpen.symm.trans closing
  | refused _ pending arrives =>
      rw [Pool.arrive, if_pos closing] at arrives
      cases arrives
      obtain ⟨fresh, unasked, idle⟩ := (steady.order.fits r q hq).early (.inl pending)
      exact ⟨⟨rfl, unasked, fresh, idle⟩, rfl⟩

theorem answer?_eq {a : Nat × Ending ρ} (hq : e.request? r = some q) (replied : q.answer = some a) :
    e.answer? r = some a := by
  rw [answer?, hq]
  exact replied

section Drained
variable {close : Turn ρ}
  (course : Course Pooling OnTime (.ofWorld w c) (before ++ close :: after) e)
include course

theorem facing_of_split (ht : t ∈ close :: after) : Facing t :=
  facing_course course (List.mem_append_right _ ht)

theorem length_units (ht : t ∈ close :: after) :
    t.engine.unitsWithSlot.length = t.engine.pool.inFlight := by
  obtain ⟨sent, steady, _⟩ := (facing_of_split course ht).steady
  exact steady.unitsWithSlot

/-- Before the pool was asked to close for the first time, nobody had asked. -/
theorem first_to_close (first : close.engine.pool.closing = false) (ht : t ∈ before) :
    t.signal ≠ .close d := by
  intro hs
  obtain ⟨before', after', rfl⟩ := List.append_of_mem ht
  rw [List.append_assoc, List.cons_append] at course
  have closing := ((closing_course course hs).2 close (by simp)).2
  cases first.symm.trans closing

variable (hs : close.signal = .close d)
include hs

theorem waiting_turned_away (waits : close.engine.Waits r) :
    (e.Past close.time → e.answer? r = some (close.time, .error (.pool .shuttingDown))) ∧
      ∀ q, e.request? r = some q → q.begun = none := by
  obtain ⟨_, waits, _, notified⟩ | ⟨q, hq, away, replied⟩ := dismissed_course course hs waits
  · refine ⟨fun past => (past.not_due notified (Nat.le_refl _)).elim, fun q hq => ?_⟩
    have fits := ((going_ofWorld w c).course course).steady.order.fits r q hq
    exact (fits.early (.inr ((waits_iff hq).1 waits))).2.2
  · refine ⟨fun _ => answer?_eq hq replied, fun q' hq' => ?_⟩
    cases hq.symm.trans hq'
    exact away.idle

theorem later_turned_away (ht : t ∈ after) (ht' : t.signal = .call r) :
    e.answer? r = some (t.time, .error (.pool .shuttingDown)) ∧
      ∀ q, e.request? r = some q → q.begun = none := by
  have facing := facing_of_split course (List.mem_cons_of_mem _ ht)
  obtain ⟨q, hq, away, replied⟩ := facing.refuses ht' ((closing_course course hs).2 t ht).2
  obtain ⟨between, rest, rfl⟩ := List.append_of_mem ht
  rw [← List.cons_append, ← List.append_assoc] at course
  have same := away_course course hq away
  refine ⟨answer?_eq same replied, fun q' hq' => ?_⟩
  cases same.symm.trans hq'
  exact away.idle

variable (unreported : close.engine.report? d = none)
include unreported

/-- The report comes when the time is over, or when the last unit has ended. -/
theorem report_isSome (h : e.Past close.bound ∨
    ∃ t ∈ close :: after, t.after.unitsWithSlot = [] ∧ e.Past t.time) : (e.report? d).isSome := by
  obtain ⟨dr, hdr, knows⟩ := (awaits_course course hs unreported).knows
  rw [report?, hdr]
  cases knows with
  | replied replied => exact Option.isSome_of_eq_some replied
  | waits unreplied running deadline bound empty still =>
      obtain past | ⟨t, ht, idle, past⟩ := h
      · exact (past.not_due bound (Nat.le_refl _)).elim
      · obtain ⟨sent, steady, meets⟩ := (facing_of_split course ht).steady
        have none : t.after.pool.inFlight = 0 := by
          have length := (steady.handle meets).unitsWithSlot
          rw [Turn.after] at idle ⊢
          rw [idle] at length
          exact length.symm
        obtain ⟨idle, early⟩ := still t ht none
        exact (past.not_due (empty idle).1 early).elim

theorem report_course (report : e.report? d = some (τ, rep)) : Report close after τ rep := by
  obtain ⟨dr, hdr, knows⟩ := (awaits_course course hs unreported).knows
  rw [report?, hdr, Option.bind_some] at report
  cases knows with
  | waits unreplied => cases unreplied.symm.trans report
  | replied replied made =>
      cases replied.symm.trans report
      exact made

/-- The report is about the units in flight, and comes when the last of them ends, or else when the
time is over. -/
theorem report_spec {completed abandoned : Nat}
    (report : e.report? d = some (τ, ⟨completed, abandoned⟩)) :
    completed + abandoned = close.engine.unitsWithSlot.length ∧
      (abandoned = 0 → τ ≤ close.bound ∧
        (∀ r ∈ close.engine.unitsWithSlot, ∃ t ∈ after, (t.ends? r).isSome ∧ t.time ≤ τ) ∧
        (close.engine.unitsWithSlot = [] ∧ τ = close.time ∨
          ∃ r ∈ close.engine.unitsWithSlot, ∃ t ∈ after, (t.ends? r).isSome ∧ t.time = τ)) ∧
      (abandoned ≠ 0 → τ = close.bound ∧ ∃ t ∈ close :: after, t.time = close.bound ∧
        t.engine.unitsWithSlot ⊆ close.engine.unitsWithSlot ∧
        t.engine.unitsWithSlot.length = abandoned) := by
  have length := length_units course (t := close) (by simp)
  generalize hrep : DrainReport.mk completed abandoned = rep at report
  cases report_course course hs unreported report with
  | idle idle =>
      cases hrep
      rw [idle, List.length_eq_zero_iff] at length
      rw [length]
      exact ⟨rfl, fun _ => ⟨Nat.le_add_right .., fun r hr => (by cases hr), .inl ⟨rfl, rfl⟩⟩,
        fun some => absurd rfl some⟩
  | @emptied t ht soon last all =>
      cases hrep
      refine ⟨length.symm, fun _ => ⟨soon, fun r hr => all r (mem_unitsWithSlot.1 hr), .inr ?_⟩,
        fun some => absurd rfl some⟩
      obtain ⟨r, holds, ends⟩ := last
      exact ⟨r, mem_unitsWithSlot.2 holds, t, ht, ends, rfl⟩
  | @gaveUp t ht time busy units =>
      cases hrep
      have length' := length_units course ht
      have sub : t.engine.unitsWithSlot ⊆ close.engine.unitsWithSlot := fun r hr =>
        mem_unitsWithSlot.2 (units r (mem_unitsWithSlot.1 hr))
      have fewer := (List.subperm_of_subset (t.engine.nodup_requestsWith _) sub).length_le
      rw [← length, ← length']
      rw [← length'] at busy
      exact ⟨Nat.sub_add_cancel fewer, fun none => absurd none busy,
        fun _ => ⟨time, t, ht, time, sub, rfl⟩⟩

/-- Once the time is over, all work that still has a slot has been asked to stop. -/
theorem cancelled_of_bound (past : e.Past close.bound) (hq : e.request? r = some q)
    (holds : q.HoldsSlot) : q.cancelled = true := by
  have going := (going_ofWorld w c).course course
  obtain ⟨dr, _, knows⟩ := (awaits_course course hs unreported).knows
  cases knows with
  | waits _ _ _ bound => exact (past.not_due bound (Nat.le_refl _)).elim
  | replied _ _ stops =>
      obtain idle | cancelled := stops
      · exact absurd ⟨q, hq, holds⟩ (going.steady.inFlight_eq_zero.1 idle r)
      · exact (going.prompt.treated r q hq).all cancelled holds

end Drained

/-- Work is asked to stop for its own caller, whose time is up, or when the time is over that the
pool gives since it was asked to close. -/
theorem cancelled_course (course : Course Pooling OnTime (.ofWorld w c) ts e)
    (hq : e.request? r = some q) (asked : q.cancelled = true) :
    q.TimedOut ∨ ∃ t ∈ ts, (∃ d, t.signal = .close d) ∧ t.bound ≤ e.now := by
  have going := (going_ofWorld w c).course course
  obtain all | late := (going.prompt.treated r q hq).asked asked
  · exact .inr ((draining_course course).gaveUp all)
  · exact .inl late

/-- A pool that is asked to close turns away all who wait for a slot and all who come later; their
work never begins. It reports how many of the units in flight have ended and how many it has given
up: it does so when the last of them ends, or else when the time is over that it gives, and only
then it asks what still runs to stop. -/
theorem shutdown_drains_exactly (w : World) (c : PoolConfig) {close : Turn ρ}
    (course : Course Pooling OnTime (.ofWorld w c) (before ++ close :: after) e)
    (hs : close.signal = .close d) (first : close.engine.pool.closing = false)
    (unreported : close.engine.report? d = none) :
    let units := close.engine.unitsWithSlot
    let bound := close.time + c.shutdownTimeout
    (∀ r ∈ close.engine.waitingCallers,
      (e.Past close.time →
        e.answer? r = some (close.time, .error (.pool .shuttingDown))) ∧
      ∀ q, e.request? r = some q → q.begun = none) ∧
    (∀ t ∈ after, ∀ r, t.signal = .call r →
      e.answer? r = some (t.time, .error (.pool .shuttingDown)) ∧
      ∀ q, e.request? r = some q → q.begun = none) ∧
    (e.Past bound ∨ (∃ t ∈ close :: after, t.after.unitsWithSlot = [] ∧ e.Past t.time) →
      (e.report? d).isSome) ∧
    (∀ τ completed abandoned, e.report? d = some (τ, ⟨completed, abandoned⟩) →
      completed + abandoned = units.length ∧
      (abandoned = 0 → τ ≤ bound ∧ (∀ r ∈ units, ∃ t ∈ after, (t.ends? r).isSome ∧ t.time ≤ τ) ∧
        (units = [] ∧ τ = close.time ∨ ∃ r ∈ units, ∃ t ∈ after, (t.ends? r).isSome ∧ t.time = τ)) ∧
      (abandoned ≠ 0 → τ = bound ∧ ∃ t ∈ close :: after, t.time = bound ∧
        t.engine.unitsWithSlot ⊆ units ∧ t.engine.unitsWithSlot.length = abandoned)) ∧
    (∀ r q, e.request? r = some q → q.cancelled = true →
      (∃ τ l, e.answer? r = some (τ, .error (.pool (.timeout l)))) ∨ bound ≤ e.now) ∧
    (e.Past bound → ∀ r ∈ e.unitsWithSlot, ∀ q, e.request? r = some q → q.cancelled = true) := by
  intro units bound
  have config : close.engine.pool.config = c := config_course course (by simp)
  have same : close.bound = bound := by rw [Turn.bound, config]
  have length : units.length = close.engine.pool.inFlight := length_units course (by simp)
  refine ⟨fun r hr => ?_, fun t ht r ht' => ?_, fun h => ?_, fun τ completed abandoned report => ?_,
    fun r q hq asked => ?_, fun past r hr q hq => ?_⟩
  · exact waiting_turned_away course hs (mem_waitingCallers.1 hr)
  · exact later_turned_away course hs ht ht'
  · refine report_isSome course hs unreported ?_
    rw [same]
    exact h
  · rw [← same]
    exact report_spec course hs unreported report
  · obtain late | ⟨t, ht, ⟨d', hs'⟩, past⟩ := cancelled_course course hq asked
    · exact .inl ⟨_, _, answer?_eq hq late⟩
    · right
      have config' : t.engine.pool.config = c := config_course course ht
      have later : close.time ≤ t.time := by
        obtain early | rest := List.mem_append.1 ht
        · exact absurd hs' (first_to_close course first early)
        · obtain rfl | rest := List.mem_cons.1 rest
          · exact Nat.le_refl _
          · exact ((closing_course course hs).2 t rest).1
      rw [Turn.bound, config'] at past
      omega
  · obtain ⟨q', hq', holds⟩ := mem_unitsWithSlot.1 hr
    cases hq'.symm.trans hq
    rw [← same] at past
    exact cancelled_of_bound course hs unreported past hq holds

/-- A pool with two slots is asked to close. One unit ends in time and one does not; who waits for a
slot and who comes later is turned away, and the unit that goes on is asked to stop at the end. -/
theorem one_ends_and_one_is_abandoned :
    let c : PoolConfig := { maxConcurrency := 2, maxPending := 1, shutdownTimeout := 20 }
    let w : World := { readings := fun n => ⟨n, 0⟩, shares := fun _ => 0 }
    ∃ (before after : List (Turn Unit)) (close : Turn Unit) (e : Engine Unit),
      Course Pooling OnTime (.ofWorld w c) (before ++ close :: after) e ∧
        close.signal = .close 0 ∧ close.engine.pool.closing = false ∧
        close.engine.report? 0 = none ∧ close.time = 5 ∧ close.engine.unitsWithSlot = [0, 1] ∧
        close.engine.waitingCallers = [2] ∧ e.report? 0 = some (25, ⟨1, 1⟩) ∧
        e.answer? 2 = some (5, .error (.pool .shuttingDown)) ∧
        e.answer? 3 = some (12, .error (.pool .shuttingDown)) ∧
        (∃ t ∈ close :: after, t.time = 25 ∧ t.engine.unitsWithSlot.length = 1) ∧
        ∃ q, e.request? 1 = some q ∧ q.hasEnded = false ∧ q.cancelled = true := by
  intro c w
  let q (ms : Nat) : Request Unit :=
    { route := .pool, limit := some 100, foreground := true, work := .fresh (.sleep ms (.done ())) }
  have new (ms : Nat) : (q ms).IsNew := ⟨_, _, _, _, rfl⟩
  let e₀ : Engine Unit := .ofWorld w c
  have spawns {e : Engine Unit} (h : Course Pooling OnTime e₀ [] e) (ms : Nat) :
      Course Pooling OnTime e₀ [] (e.spawn (q ms)).2 := h.between (.spawn (q ms) (new ms) rfl)
  let e₁ := ((e₀.spawn (q 10)).2.spawn (q 50)).2.spawn (q 10)
  have spawned : Course Pooling OnTime e₀ [] e₁.2 := spawns (spawns (spawns .start 10) 50) 10
  let before := [] ++ e₁.2.turns (quietBefore 5) 40
  let e₂ : Engine Unit := { e₁.2.runFor (quietBefore 5) 40 with world.now := 5 }
  let close : Turn Unit := ⟨(e₂.addDrain { foreground := false }).2, .close e₂.drains.length⟩
  have closed : Course Pooling OnTime e₀ (before ++ [close]) close.after :=
    (course_upTo spawned 5 40 (by decide +kernel)).turn (.close { foreground := false })
  let between := close.after.turns (quietBefore 12) 40
  let e₃ : Engine Unit := { close.after.runFor (quietBefore 12) 40 with world.now := 12 }
  let call : Turn Unit := ⟨(e₃.add (q 10)).2, .call e₃.requests.length⟩
  have called : Course Pooling OnTime e₀ (before ++ [close] ++ between ++ [call]) call.after :=
    (course_upTo closed 12 40 (by decide +kernel)).turn (.call (q 10) (new 10) rfl)
  let rest := call.after.turns (quietBefore 30) 40
  let e := call.after.runFor (quietBefore 30) 40
  have course : Course Pooling OnTime e₀ (before ++ close :: (between ++ [call] ++ rest)) e := by
    have course := course_runFor called (quietBefore 30) 40
    simp only [List.append_assoc, List.singleton_append] at course ⊢
    exact course
  have hs : close.signal = .close 0 := by decide +kernel
  have isOpen : close.engine.pool.closing = false := by decide +kernel
  have unreported : close.engine.report? 0 = none := by decide +kernel
  have time : close.time = 5 := by decide +kernel
  have units : close.engine.unitsWithSlot = [0, 1] := by decide +kernel
  have waits : close.engine.waitingCallers = [2] := by decide +kernel
  have calls : call.signal = .call 3 ∧ call.time = 12 := by decide +kernel
  have past : e.Past 5 ∧ e.Past 25 := by decide +kernel
  have report : e.report? 0 = some (25, ⟨1, 1⟩) := by decide +kernel
  have goes : e.unitsWithSlot = [1] := by decide +kernel
  clear_value before close between call rest e
  obtain ⟨waiting, later, _, reports, _, stops⟩ :=
    shutdown_drains_exactly w c course hs isOpen unreported
  rw [waits, time] at waiting
  rw [time] at reports stops
  have dismissed := (waiting 2 (by simp)).1 past.1
  obtain ⟨refused, _⟩ := later call (by simp) 3 calls.1
  rw [calls.2] at refused
  obtain ⟨_, _, abandoned⟩ := reports 25 1 1 report
  obtain ⟨_, t, ht, bound, _, one⟩ := abandoned (by simp)
  obtain ⟨q, hq, holds⟩ := mem_requestsWith.1 (show 1 ∈ e.unitsWithSlot by simp [goes])
  exact ⟨before, between ++ [call] ++ rest, close, e, course, hs, isOpen, unreported, time, units,
    waits, report, dismissed, refused, ⟨t, ht, bound, one⟩, q, hq, (Request.hasSlot_iff.1 holds).1,
    stops past.2 1 (by simp [goes]) q hq⟩

end EventSourcing.PoolTraffic
