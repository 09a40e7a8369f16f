import EventSourcing.Proofs.Pool.Prompt

/-!
Why callers of a pool are told what they are told.
Whatever has become of a caller by the end of a run became so in one of its turns: its work ended
there, or the pool was asked to close while it still waited, or it was refused. Otherwise it is told
a timeout, at its deadline.
-/
namespace EventSourcing.PoolTraffic
open Engine
variable {ρ : Type} {sent : List Nat} {e e' e₀ : Engine ρ} {t : Turn ρ}
  {ts ts' before after : List (Turn ρ)} {r d τ : Nat} {q q' : Request ρ} {o : Ending ρ}
  {due : Signal → Nat → Prop} {w : World} {c : PoolConfig}

/-- Who asks the pool to close asks once. -/
def AsksOnce (e : Engine ρ) : Prop :=
  ∀ d, e.due (.close d) ≤ 1 ∧ (0 < e.due (.close d) → d < e.drains.length)

theorem AsksOnce.next {clock : Engine ρ → Nat → Prop} (h : AsksOnce e)
    (next : Next Pooling clock e t) : AsksOnce t.engine ∧
      ∀ d, t.signal = .close d → t.engine.due (.close d) = 0 ∧ d < t.engine.drains.length := by
  cases next with
  | call q new fit => exact ⟨h, fun d hs => by cases hs⟩
  | @due before d after time ha later hdue allowed =>
      refine ⟨fun d' => ?_, fun d' hs => ?_⟩
      · obtain ⟨once, made⟩ := h d'
        have taken := due_taken ha time (.close d')
        dsimp only
        exact ⟨by omega, fun some => made (by omega)⟩
      · obtain ⟨once, made⟩ := h d'
        have taken := due_taken ha time (.close d')
        rw [if_pos hs] at taken
        dsimp only
        exact ⟨by omega, made (by omega)⟩
  | close drain =>
      refine ⟨fun d => ⟨(h d).1, fun some => ?_⟩, fun d hs => ?_⟩
      · have made := (h d).2 some
        simp only [addDrain, List.length_append, List.length_singleton]
        omega
      · cases hs
        refine ⟨Nat.eq_zero_of_not_pos fun some => ?_, by simp [addDrain]⟩
        exact Nat.lt_irrefl _ ((h _).2 some)

theorem AsksOnce.between {clock : Engine ρ → Nat → Prop} (h : AsksOnce e)
    (between : Between Pooling clock e e') : AsksOnce e' := by
  cases between with
  | spawn q new fit =>
      intro d
      have due : (e.spawn q).2.due (.close d) = e.due (.close d) := by
        rw [spawn, due_wake, if_neg (by simp)]
        rfl
      rw [due]
      exact h d
  | spawnShutDown =>
      intro d
      have due : e.spawnShutDown.2.due (.close d) =
          e.due (.close d) + if Signal.close e.drains.length = .close d then 1 else 0 := by
        rw [spawnShutDown, due_wake]
        rfl
      have length : e.spawnShutDown.2.drains.length = e.drains.length + 1 := by
        simp [spawnShutDown, addDrain, wake, schedule]
      obtain ⟨once, made⟩ := h d
      rw [due, length]
      split
      · rename_i same
        cases same
        have none : e.due (.close e.drains.length) = 0 :=
          Nat.eq_zero_of_not_pos fun some => Nat.lt_irrefl _ (made some)
        exact ⟨by omega, fun _ => by omega⟩
      · exact ⟨once, fun some => Nat.lt_succ_of_lt (made some)⟩
  | aside w later allowed => exact h

/-- An engine with callers of its pool, as it is when it meets a signal. -/
structure Facing (t : Turn ρ) : Prop where
  steady : ∃ sent, Steady t.engine sent ∧ Meets t.engine sent t.signal
  prompt : Prompt t.engine t.DueAt
  handled : Handled t
  asks : ∀ d, t.signal = .close d → t.engine.due (.close d) = 0 ∧ d < t.engine.drains.length

/-- What holds of an engine with callers of its pool between its turns. -/
structure Going (e : Engine ρ) (sent : List Nat) : Prop where
  steady : Steady e sent
  prompt : Prompt e e.DueAt
  asks : AsksOnce e

theorem Going.next (h : Going e sent) (next : Next Pooling OnTime e t) :
    Passes e t.engine t.DueAt ∧ Facing t ∧ Going t.after (sent ++ t.signal.submits) := by
  have passes := passes_next h.prompt.ahead next
  have prompt := h.prompt.passes passes
  obtain ⟨steady, meets, _⟩ := h.steady.next next
  obtain ⟨asks, once⟩ := h.asks.next next
  have handled : Handled t := steady.handled meets fun d hs => (once d hs).2
  refine ⟨passes, ⟨⟨sent, steady, meets⟩, prompt, handled, once⟩, steady.handle meets, ?_,
    fun d => ?_⟩
  · exact Prompt.handled steady.order prompt handled
  · rw [handled.closes, handled.undrained]
    exact asks d

theorem going_ofWorld (w : World) (c : PoolConfig) : Going (ofWorld (ρ := ρ) w c) [] where
  steady := steady_ofWorld w c
  prompt := prompt_ofWorld w c
  asks _ := ⟨Nat.zero_le _, fun some => absurd some (Nat.lt_irrefl _)⟩

theorem Going.course (start : Going e₀ []) (course : Course Pooling OnTime e₀ ts e) :
    Going e (Turn.submitted ts) := by
  induction course with
  | start => exact start
  | turn course next ih =>
      rw [Turn.submitted_concat]
      exact (ih.next next).2.2
  | between course between ih =>
      have passes := passes_between between
      exact ⟨(ih.steady.between between).1, ih.prompt.passes passes, ih.asks.between between⟩

section Runs
variable {P : List (Turn ρ) → Engine ρ → (Signal → Nat → Prop) → Prop}
  (pass : ∀ ts e e' due, P ts e e.DueAt → Passes e e' due → P ts e' due)
  (turn : ∀ ts t, Facing t → P ts t.engine t.DueAt → P (ts ++ [t]) t.after t.after.DueAt)
include pass turn

/-- What holds at the start, and is kept while nothing is handled and by every turn, holds in every
run. -/
theorem Going.always (going : Going e₀ []) (start : P [] e₀ e₀.DueAt)
    (course : Course Pooling OnTime e₀ ts e) : P ts e e.DueAt := by
  induction course with
  | start => exact start
  | turn course next ih =>
      obtain ⟨passes, facing, _⟩ := (going.course course).next next
      exact turn _ _ facing (pass _ _ _ _ ih passes)
  | between course between ih => exact pass _ _ _ _ ih (passes_between between)

/-- What holds after a turn, and is kept from then on, holds in every run that goes on from there.
-/
theorem Going.since (going : Going e₀ []) (first : Facing t → P [] t.after t.after.DueAt)
    (course : Course Pooling OnTime e₀ (before ++ t :: after) e) : P after e e.DueAt := by
  generalize hts : before ++ t :: after = ts at course
  induction course generalizing after with
  | start => simp at hts
  | @turn ts e₁ t' course next ih =>
      obtain ⟨passes, facing, _⟩ := (going.course course).next next
      obtain rfl | ⟨as, last, rfl⟩ := List.eq_nil_or_concat' after
      · obtain ⟨_, same⟩ := List.append_inj' hts rfl
        cases same
        exact first facing
      · rw [← List.cons_append, ← List.append_assoc] at hts
        obtain ⟨rfl, same⟩ := List.append_inj' hts rfl
        cases same
        exact turn _ _ facing (pass _ _ _ _ (ih rfl) passes)
  | between course between ih => exact pass _ _ _ _ (ih hts) (passes_between between)

end Runs

section InOrder
variable {clock : Engine ρ → Nat → Prop}

theorem sorted_course (course : Course Pooling clock (.ofWorld w c) ts e) : e.Sorted := by
  induction course with
  | start => exact .nil
  | turn course next ih =>
      obtain ⟨steady, meets, _⟩ := ((steady_ofWorld w c).course course).next next
      obtain ⟨_, _, changes⟩ := steady.order.handle meets
      refine changes.keep (P := Sorted) ?_ (ih.next next)
      intro e _ _ change sorted
      cases change with
      | signal => exact sorted.schedule ..
      | _ => exact sorted
  | between course between ih => exact ih.between between

/-- An engine that is left to itself takes one of the courses it may take, and lets no time pass
over what is due. -/
theorem course_runFor (course : Course Pooling OnTime (.ofWorld w c) ts e) (goal : Engine ρ → Bool)
    (fuel : Nat) :
    Course Pooling OnTime (.ofWorld w c) (ts ++ e.turns goal fuel) (e.runFor goal fuel) :=
  keeps_runFor course (fun _ _ _ _ ha course => course.turn
    (.due _ ha (Nat.le_max_left ..) (Nat.le_max_right ..) ((sorted_course course).onTime ha)))
    goal fuel

/-- An engine is left to itself up to a moment. -/
theorem course_upTo (course : Course Pooling OnTime (.ofWorld w c) ts e) (time fuel : Nat)
    (reached : let e' := e.runFor (quietBefore time) fuel
      quietBefore time e' = true ∧ e'.now ≤ time) :
    Course Pooling OnTime (.ofWorld w c) (ts ++ e.turns (quietBefore time) fuel)
      { e.runFor (quietBefore time) fuel with world.now := time } := by
  have left := course_runFor course (quietBefore time) fuel
  obtain ⟨quiet, later⟩ := reached
  let w : World := { (e.runFor (quietBefore time) fuel).world with now := time }
  exact left.between (.aside w later ((sorted_course left).onTime_of_quiet quiet))

end InOrder

/-- Why a caller was told something at a time. -/
inductive Reason (ts : List (Turn ρ)) (r : Nat) (q : Request ρ) (τ : Nat) : Ending ρ → Prop where
  | own {t : Turn ρ} (ht : t ∈ ts) (early : t.time ≤ τ) {o : Ending ρ} (ends : t.ends? r = some o) :
      Reason ts r q τ o
  | dismissed {t : Turn ρ} (ht : t ∈ ts) (early : t.time ≤ τ) (hs : ∃ d, t.signal = .close d)
      (waits : t.engine.Waits r) : Reason ts r q τ (.error (.pool .shuttingDown))
  | refused {t : Turn ρ} (ht : t ∈ ts) (hs : t.signal = .call r) {why : PoolError}
      (arrives : (t.engine.pool.arrive r).1 = .refused why) : Reason ts r q τ (.error (.pool why))
  | timedOut (late : q.TimedOut) : Reason ts r q τ (.error (.pool (.timeout q.poolLimit)))

/-- What has become of callers and their pool has its reason in an earlier turn. -/
structure Story (ts : List (Turn ρ)) (e : Engine ρ) : Prop where
  past : ∀ t ∈ ts, t.time ≤ e.now
  ended : ∀ r q o, e.request? r = some q → q.work = .ended o → ∃ t ∈ ts, t.ends? r = some o
  closing : e.pool.closing = true → ∀ r, e.Waits r →
    ∃ t ∈ ts, (∃ d, t.signal = .close d) ∧ t.engine.Waits r
  answers : ∀ r q τ o, e.request? r = some q → q.answer = some (τ, o) → Reason ts r q τ o

/-- Work has ended only where it ends. -/
theorem Becomes.ended (h : Becomes t r q q') (ended : q'.work = .ended o) :
    q.work = .ended o ∨ t.ends? r = some o := by
  cases h with
  | worked _ _ _ w ends => exact .inr ((ends o).1 ended)
  | seated seeks | seatedLate seeks | expired seeks => cases seeks <;> exact .inl ended
  | _ => exact .inl ended

/-- What a caller is told, and why. -/
theorem Becomes.answer (h : Becomes t r q q') (facing : Facing t)
    (hq : t.engine.request? r = some q) :
    (q'.answer = q.answer ∧
      (q.stage ≠ .pending → q'.called = q.called ∧ q'.poolLimit = q.poolLimit)) ∨
    ∃ o, q'.answer = some (t.time, o) ∧ (
      q.stage = .running ∧ q.work = .ended o ∨
      q.stage = .waiting ∧ t.engine.pool.closing = true ∧ o = .error (.pool .shuttingDown) ∨
      (t.signal = .call r ∧ ∃ why, (t.engine.pool.arrive r).1 = .refused why ∧
        o = .error (.pool why)) ∨
      q'.TimedOut ∧ o = .error (.pool (.timeout q'.poolLimit))) := by
  obtain ⟨⟨sent, steady, _⟩, prompt, _⟩ := facing
  have old := prompt.treated r q hq
  cases h with
  | left | asked | worked => exact .inl ⟨rfl, fun _ => ⟨rfl, rfl⟩⟩
  | answered hs running done => exact .inr ⟨_, rfl, .inl ⟨running, done⟩⟩
  | overran hs running goes late =>
      refine .inr ⟨_, rfl, .inr (.inr (.inr ⟨?_, rfl⟩))⟩
      exact Request.timedOut_replied (q := { q with cancelled := true })
        (old.limit (by simp [running])) late
        fun τ hτ => prompt.ahead _ τ (prompt.runs r q hq running τ hτ)
  | refused hs pending arrives => exact .inr ⟨_, rfl, .inr (.inr (.inl ⟨hs, _, arrives, rfl⟩))⟩
  | queued hs pending => exact .inl ⟨rfl, fun came => absurd pending came⟩
  | seated seeks =>
      cases seeks with
      | comes hs pending => exact .inl ⟨rfl, fun came => absurd pending came⟩
      | waits => exact .inl ⟨rfl, fun _ => ⟨rfl, rfl⟩⟩
  | @seatedLate q₁ seeks isOpen late =>
      have looks := seeks.looks steady.order prompt hq
      refine .inr ⟨_, rfl, .inr (.inr (.inr ⟨?_, rfl⟩))⟩
      exact Request.timedOut_replied (q := { q₁ with stage := .running, cancelled := true })
        looks.limit late looks.soon
  | expired seeks isOpen late =>
      have looks := seeks.looks steady.order prompt hq
      have timedOut := Request.timedOut_replied looks.limit late looks.soon
      exact .inr ⟨_, rfl, .inr (.inr (.inr ⟨timedOut, rfl⟩))⟩
  | dismissed hs waiting closing => exact .inr ⟨_, rfl, .inr (.inl ⟨waiting, closing, rfl⟩)⟩

theorem Reason.more (h : Reason ts r q τ o) (more : ts ⊆ ts') (answer : q'.answer = q.answer)
    (called : q'.called = q.called) (limit : q'.poolLimit = q.poolLimit) : Reason ts' r q' τ o := by
  cases h with
  | own ht early ends => exact .own (more ht) early ends
  | dismissed ht early hs waits => exact .dismissed (more ht) early hs waits
  | refused ht hs arrives => exact .refused (more ht) hs arrives
  | timedOut late =>
      rw [← limit]
      refine .timedOut ?_
      rw [Request.TimedOut, answer, called, limit]
      exact late

theorem Story.passes (h : Story ts e) (passes : Passes e e' due) : Story ts e' where
  past t ht := Nat.le_trans (h.past t ht) passes.now
  ended r q o hq ended := by
    obtain old | new := passes.new r q hq
    · exact h.ended r q o old ended
    · obtain ⟨_, _, _, _, rfl⟩ := new
      cases ended
  closing closing r waits := by
    rw [passes.pool] at closing
    obtain ⟨q, hq, waiting⟩ := Option.map_eq_some_iff.1 waits
    obtain old | new := passes.new r q hq
    · exact h.closing closing r ((waits_iff old).2 waiting)
    · obtain ⟨_, _, _, _, rfl⟩ := new
      cases waiting
  answers r q τ o hq answer := by
    obtain old | new := passes.new r q hq
    · exact h.answers r q τ o old answer
    · obtain ⟨_, _, _, _, rfl⟩ := new
      cases answer

theorem Story.turn (h : Story ts t.engine) (facing : Facing t) : Story (ts ++ [t]) t.after where
  past t' ht' := by
    rw [facing.handled.now]
    obtain old | new := List.mem_append.1 ht'
    · exact h.past t' old
    · exact Nat.le_of_eq (congrArg Turn.time (List.mem_singleton.1 new))
  ended r q' o hq' ended := by
    obtain ⟨q, hq, becomes⟩ := facing.handled.was hq'
    obtain old | new := becomes.ended ended
    · obtain ⟨t', ht', ends⟩ := h.ended r q o hq old
      exact ⟨t', List.mem_append_left _ ht', ends⟩
    · exact ⟨t, by simp, new⟩
  closing closing r waits := by
    obtain ⟨q', hq', waiting⟩ := Option.map_eq_some_iff.1 waits
    obtain ⟨q, hq, becomes⟩ := facing.handled.was hq'
    obtain ⟨rfl, _⟩ | ⟨hs, _, isOpen, _⟩ := becomes.waits waiting
    · have waits := (waits_iff hq).2 waiting
      obtain old | ⟨hs, _⟩ := facing.handled.shuts closing
      · obtain ⟨t', ht', hs, waits⟩ := h.closing old r waits
        exact ⟨t', List.mem_append_left _ ht', hs, waits⟩
      · exact ⟨t, by simp, hs, waits⟩
    · obtain old | ⟨⟨d, hs'⟩, _⟩ := facing.handled.shuts closing
      · cases isOpen.symm.trans old
      · cases hs.symm.trans hs'
  answers r q' τ o hq' answer := by
    obtain ⟨q, hq, becomes⟩ := facing.handled.was hq'
    have treated := facing.prompt.treated r q hq
    obtain ⟨same, still⟩ | ⟨o', new, why⟩ := becomes.answer facing hq
    · rw [same] at answer
      have came : q.stage ≠ .pending := by
        intro pending
        cases (treated.unreplied (by simp [pending])).symm.trans answer
      obtain ⟨called, limit⟩ := still came
      exact (h.answers r q τ o hq answer).more (List.subset_append_left ..) same called limit
    · cases new.symm.trans answer
      obtain ⟨_, done⟩ | ⟨waiting, closing, rfl⟩ | ⟨hs, why, arrives, rfl⟩ | ⟨late, rfl⟩ := why
      · obtain ⟨t', ht', ends⟩ := h.ended r q o hq done
        exact .own (List.mem_append_left _ ht') (h.past t' ht') ends
      · obtain ⟨t', ht', hs, waits⟩ := h.closing closing r ((waits_iff hq).2 waiting)
        exact .dismissed (List.mem_append_left _ ht') (h.past t' ht') hs waits
      · exact .refused (List.mem_append_right _ (List.mem_singleton_self t)) hs arrives
      · exact .timedOut late

theorem story_ofWorld (w : World) (c : PoolConfig) : Story [] (ofWorld (ρ := ρ) w c) where
  past t ht := by cases ht
  ended r q o hq := by cases hq
  closing closing := by cases closing
  answers r q τ o hq := by cases hq

theorem story_course (course : Course Pooling OnTime (.ofWorld w c) ts e) : Story ts e :=
  (going_ofWorld w c).always (P := fun ts e _ => Story ts e) (fun _ _ _ _ => Story.passes)
    (fun _ _ facing story => story.turn facing) (story_ofWorld w c) course

theorem facing_course (course : Course Pooling OnTime (.ofWorld w c) ts e) (ht : t ∈ ts) :
    Facing t := by
  refine (going_ofWorld w c).always (P := fun ts _ _ => ∀ t ∈ ts, Facing t) ?_ ?_
    (fun t ht => by cases ht) course t ht
  · exact fun _ _ _ _ facing _ => facing
  · intro ts t facing before t' ht'
    obtain old | new := List.mem_append.1 ht'
    · exact before t' old
    · rw [List.mem_singleton.1 new]
      exact facing

/-- A time is past as soon as later times have come. -/
theorem past_course (course : Course Pooling OnTime (.ofWorld w c) ts e) (later : τ < e.now) :
    e.Past τ := by
  refine ⟨Nat.le_of_lt later, fun d hd => ?_⟩
  have ahead := ((going_ofWorld w c).course course).prompt.ahead d.signal d.time ⟨d, hd, rfl, rfl⟩
  omega

theorem config_course (course : Course Pooling OnTime (.ofWorld w c) ts e) (ht : t ∈ ts) :
    t.engine.pool.config = c := by
  obtain ⟨_, _, _, config⟩ := (steady_ofWorld w c).turns course ht
  exact config

/-- What stays of a request once it has come to the pool. -/
structure Later (q q' : Request ρ) : Prop where
  came : q'.stage ≠ .pending
  called : q'.called = q.called
  limit : q'.limit = q.limit
  poolLimit : q'.poolLimit = q.poolLimit
  answer : ∀ a, q.answer = some a → q'.answer = some a

theorem Later.refl (came : q.stage ≠ .pending) : Later q q := ⟨came, rfl, rfl, rfl, fun _ => id⟩

theorem Later.trans {q'' : Request ρ} (h : Later q q') (h' : Later q' q'') : Later q q'' where
  came := h'.came
  called := h'.called.trans h.called
  limit := h'.limit.trans h.limit
  poolLimit := h'.poolLimit.trans h.poolLimit
  answer a replied := h'.answer a (h.answer a replied)

theorem Becomes.later (h : Becomes t r q q') (came : q.stage ≠ .pending)
    (unreplied : q.stage ≠ .over → q.answer = none) : Later q q' := by
  have silent {a : Nat × Ending ρ} (waits : q.stage ≠ .over) {P : Prop}
      (replied : q.answer = some a) : P := by
    cases (unreplied waits).symm.trans replied
  cases h with
  | left => exact .refl came
  | asked | worked => exact ⟨came, rfl, rfl, rfl, fun _ => id⟩
  | answered _ running | overran _ running =>
      exact ⟨by simp [Request.replied], rfl, rfl, rfl, fun _ => silent (by simp [running])⟩
  | refused _ pending | queued _ pending => exact absurd pending came
  | seated seeks =>
      cases seeks with
      | comes _ pending => exact absurd pending came
      | waits => exact ⟨by simp, rfl, rfl, rfl, fun _ => id⟩
  | seatedLate seeks | expired seeks =>
      cases seeks with
      | comes _ pending => exact absurd pending came
      | waits _ waiting =>
          exact ⟨by simp [Request.replied], rfl, rfl, rfl, fun _ => silent (by simp [waiting])⟩
  | dismissed _ waiting =>
      exact ⟨by simp [Request.replied], rfl, rfl, rfl, fun _ => silent (by simp [waiting])⟩

/-- Whoever has come to the pool is there for good. -/
theorem later_course (course : Course Pooling OnTime (.ofWorld w c) (before ++ t :: after) e)
    (hq : t.after.request? r = some q) (came : q.stage ≠ .pending) :
    ∃ q', e.request? r = some q' ∧ Later q q' := by
  refine (going_ofWorld w c).since (P := fun _ e _ => ∃ q', e.request? r = some q' ∧ Later q q')
    ?_ ?_ (fun _ => ⟨q, hq, .refl came⟩) course
  · rintro _ _ _ _ ⟨q', hq', later⟩ passes
    exact ⟨q', passes.requests r q' hq', later⟩
  · rintro _ t facing ⟨q', hq', later⟩
    obtain ⟨q'', hq'', becomes⟩ := facing.handled.becomes r q' hq'
    have treated := facing.prompt.treated r q' hq'
    exact ⟨q'', hq'', later.trans (becomes.later later.came treated.unreplied)⟩

/-- A caller that has left without a slot: its work has not begun. -/
structure Away (q : Request ρ) : Prop where
  isOver : q.stage = .over
  unasked : q.cancelled = false
  fresh : q.isFresh = true
  idle : q.begun = none

theorem Away.not_holds (h : Away q) : ¬q.HoldsSlot := by
  rintro ⟨_, running | ⟨_, asked⟩⟩
  · cases h.isOver.symm.trans running
  · cases h.unasked.symm.trans asked

theorem Away.becomes (h : Away q) (becomes : Becomes t r q q') : q' = q := by
  have settled := h.isOver
  cases becomes with
  | left => rfl
  | asked _ holds | worked _ holds => exact absurd holds h.not_holds
  | answered _ running | overran _ running => cases settled.symm.trans running
  | refused _ pending | queued _ pending => cases settled.symm.trans pending
  | seated seeks | seatedLate seeks | expired seeks =>
      cases seeks with
      | comes _ pending => cases settled.symm.trans pending
      | waits _ waiting => cases settled.symm.trans waiting
  | dismissed _ waiting => cases settled.symm.trans waiting

/-- Work whose caller has left without a slot never begins. -/
theorem away_course (course : Course Pooling OnTime (.ofWorld w c) (before ++ t :: after) e)
    (hq : t.after.request? r = some q) (away : Away q) : e.request? r = some q := by
  refine (going_ofWorld w c).since (P := fun _ e _ => e.request? r = some q) ?_ ?_
    (fun _ => hq) course
  · exact fun _ _ _ _ hq passes => passes.requests r q hq
  · intro _ t facing hq
    obtain ⟨q', hq', becomes⟩ := facing.handled.becomes r q hq
    rw [hq', away.becomes becomes]

theorem Facing.prompt_after (facing : Facing t) : Prompt t.after t.after.DueAt := by
  obtain ⟨sent, steady, _⟩ := facing.steady
  exact Prompt.handled steady.order facing.prompt facing.handled

/-- A caller that still waits for a slot when the pool closes. -/
def Dismissed (r τ : Nat) (e : Engine ρ) (due : Signal → Nat → Prop) : Prop :=
  (e.pool.closing = true ∧ e.Waits r ∧ e.now = τ ∧ due (.slot r) τ) ∨
    ∃ q, e.request? r = some q ∧ Away q ∧ q.answer = some (τ, .error (.pool .shuttingDown))

/-- Once the pool closes, a caller that waits for a slot only hears that. -/
theorem Becomes.of_closing (h : Becomes t r q q') (waiting : q.stage = .waiting)
    (closing : t.engine.pool.closing = true ∨ ∃ d, t.signal = .close d) :
    q' = q ∨ q' = q.replied t.time (.error (.pool .shuttingDown)) := by
  have open' {q₁ : Request ρ} (seeks : Seeks t r q q₁) (isOpen : t.engine.pool.closing = false)
      {P : Prop} : P := by
    obtain closing | ⟨d, hs⟩ := closing
    · cases isOpen.symm.trans closing
    · cases seeks with
      | comes hs' | waits hs' => cases hs.symm.trans hs'
  cases h with
  | left => exact .inl rfl
  | asked _ holds | worked _ holds => exact absurd waiting holds.not_waiting
  | answered _ running | overran _ running => cases waiting.symm.trans running
  | refused _ pending | queued _ pending => cases waiting.symm.trans pending
  | seated seeks isOpen | seatedLate seeks isOpen | expired seeks isOpen =>
      exact open' seeks isOpen
  | dismissed => exact .inr rfl

theorem Facing.dismissed (facing : Facing t) (waits : t.engine.Waits r)
    (closing : t.engine.pool.closing = true ∨ ∃ d, t.signal = .close d) :
    Dismissed r t.time t.after t.after.DueAt := by
  obtain ⟨q, hq, waiting⟩ := Option.map_eq_some_iff.1 waits
  obtain ⟨q', hq', becomes⟩ := facing.handled.becomes r q hq
  obtain rfl | rfl := becomes.of_closing waiting closing
  · have closing : t.after.pool.closing = true := by
      obtain before | ⟨d, hs⟩ := closing
      · exact facing.handled.closing before
      · exact facing.handled.shut d hs
    have notified := facing.prompt_after.served r q' hq' waiting (.inr closing)
    rw [facing.handled.now] at notified
    exact .inl ⟨closing, (waits_iff hq').2 waiting, facing.handled.now, notified⟩
  · obtain ⟨sent, steady, _⟩ := facing.steady
    obtain ⟨fresh, unasked, idle⟩ := (steady.order.fits r q hq).early (.inr waiting)
    exact .inr ⟨_, hq', ⟨rfl, unasked, fresh, idle⟩, rfl⟩

/-- Whoever still waits for a slot when the pool closes is told at once, and its work never begins.
-/
theorem dismissed_course (course : Course Pooling OnTime (.ofWorld w c) (before ++ t :: after) e)
    (hs : t.signal = .close d) (waits : t.engine.Waits r) : Dismissed r t.time e e.DueAt := by
  refine (going_ofWorld w c).since (P := fun _ => Dismissed r t.time) ?_ ?_
    (fun facing => facing.dismissed waits (.inr ⟨d, hs⟩)) course
  · rintro _ e e' due (⟨closing, waits, now, notified⟩ | ⟨q, hq, away, replied⟩) passes
    · have same := passes.onTime _ _ notified
      have later := passes.now
      obtain ⟨q, hq, waiting⟩ := Option.map_eq_some_iff.1 waits
      refine .inl ⟨?_, (waits_iff (passes.requests r q hq)).2 waiting, by omega,
        passes.stays _ _ notified⟩
      rw [passes.pool]
      exact closing
    · exact .inr ⟨q, passes.requests r q hq, away, replied⟩
  · rintro _ t' facing (⟨closing, waits, now, notified⟩ | ⟨q, hq, away, replied⟩)
    · have time : t'.time = t.time := now
      rw [← time]
      exact facing.dismissed waits (.inl closing)
    · obtain ⟨q', hq', becomes⟩ := facing.handled.becomes r q hq
      rw [away.becomes becomes] at hq'
      exact .inr ⟨q, hq', away, replied⟩

/-- A caller whose work has ended at a time. -/
def Delivered (r τ : Nat) (o : Ending ρ) (e : Engine ρ) (due : Signal → Nat → Prop) : Prop :=
  (∃ q, e.request? r = some q ∧ q.stage = .running ∧ q.work = .ended o ∧ e.now = τ ∧
    due (.outcome r) τ) ∨
    ∃ q, e.request? r = some q ∧ q.stage = .over ∧ q.answer = some (τ, o)

/-- Once its work has ended, a caller only hears of that. -/
theorem Becomes.of_ended (h : Becomes t r q q') (running : q.stage = .running)
    (ended : q.work = .ended o) : q' = q ∨ q' = q.replied t.time o := by
  have goes : q.hasEnded = true := by rw [Request.hasEnded, ended]
  cases h with
  | left => exact .inl rfl
  | asked _ holds | worked _ holds => exact absurd ended (holds.not_ended o)
  | answered _ _ done =>
      cases done.symm.trans ended
      exact .inr rfl
  | overran _ _ goes' => cases goes.symm.trans goes'
  | refused _ pending | queued _ pending => cases running.symm.trans pending
  | seated seeks | seatedLate seeks | expired seeks =>
      cases seeks with
      | comes _ pending => cases running.symm.trans pending
      | waits _ waiting => cases running.symm.trans waiting
  | dismissed _ waiting => cases running.symm.trans waiting

theorem Facing.delivered (facing : Facing t) (hq' : t.after.request? r = some q')
    (running : q'.stage = .running) (ended : q'.work = .ended o) :
    Delivered r t.time o t.after t.after.DueAt := by
  have notified := facing.prompt_after.done r q' hq' running (by rw [Request.hasEnded, ended])
  rw [facing.handled.now] at notified
  exact .inl ⟨q', hq', running, ended, facing.handled.now, notified⟩

/-- Whoever waits for its work when that ends is told of the end at once. -/
theorem delivered_course (course : Course Pooling OnTime (.ofWorld w c) (before ++ t :: after) e)
    (hq' : t.after.request? r = some q') (running : q'.stage = .running)
    (ended : q'.work = .ended o) : Delivered r t.time o e e.DueAt := by
  refine (going_ofWorld w c).since (P := fun _ => Delivered r t.time o) ?_ ?_
    (fun facing => facing.delivered hq' running ended) course
  · rintro _ e e' due (⟨q, hq, running, ended, now, notified⟩ | ⟨q, hq, isOver, replied⟩) passes
    · have same := passes.onTime _ _ notified
      have later := passes.now
      exact .inl ⟨q, passes.requests r q hq, running, ended, by omega, passes.stays _ _ notified⟩
    · exact .inr ⟨q, passes.requests r q hq, isOver, replied⟩
  · rintro _ t' facing (⟨q, hq, running, ended, now, notified⟩ | ⟨q, hq, isOver, replied⟩)
    · have time : t'.time = t.time := now
      obtain ⟨q', hq', becomes⟩ := facing.handled.becomes r q hq
      rw [← time]
      obtain rfl | rfl := becomes.of_ended running ended
      · exact facing.delivered hq' running ended
      · exact .inr ⟨_, hq', rfl, rfl⟩
    · obtain ⟨q', hq', becomes⟩ := facing.handled.becomes r q hq
      have treated := facing.prompt.treated r q hq
      have later := becomes.later (by simp [isOver]) treated.unreplied
      refine .inr ⟨q', hq', ?_, later.answer _ replied⟩
      by_contra goes
      cases (facing.prompt_after.treated r q' hq').unreplied goes ▸ later.answer _ replied

end EventSourcing.PoolTraffic
