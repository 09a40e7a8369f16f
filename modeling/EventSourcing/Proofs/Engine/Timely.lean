import EventSourcing.Proofs.Engine.Course

/-!
Time is kept.
Work is due no later than its caller waits for it, unless it will be dropped, and whatever failure of
the pool a caller hears of, there is a reason for it that keeps the work from beginning later: the time
of the caller is up, or the request was turned away before its work began.
-/
namespace EventSourcing

namespace Request
variable {ρ : Type} {q : Request ρ} {now t : Nat} {x : PoolError} {o : Ending ρ}

theorem overdue_mono (later : now ≤ t) (late : q.overdue now = true) : q.overdue t = true := by
  rw [overdue] at late ⊢
  split at late
  · simp only [decide_eq_true_iff] at late ⊢
    omega
  · cases late

/-- Somebody has been told of a failure of the pool, or will be. -/
def Reports (q : Request ρ) (x : PoolError) : Prop :=
  q.result = some (.error (.pool x)) ∨ (∃ t, q.answer = some (t, .error (.pool x))) ∨
    q.stage = .overrun (.error (.pool x)) ∨ q.work = .ended (.error (.pool x))

/-- A failure of the pool for which the work does not begin later. -/
def Excuses (q : Request ρ) (now : Nat) : PoolError → Prop
  | .timeout _ => q.overdue now = true
  | .saturated _ | .shuttingDown => q.begun = none ∧ (q.stage = .over ∨ q.hasEnded = true)
  | .panicked => True

theorem Excuses.later (h : q.Excuses now x) (later : now ≤ t) : q.Excuses t x := by
  cases x with
  | timeout l => exact overdue_mono later h
  | saturated | shuttingDown | panicked => exact h

/-- The work of a request has begun in time, if it has, and each failure has its reason. -/
structure Punctual (q : Request ρ) (now : Nat) : Prop where
  begun : ∀ t, q.begun = some t → q.overdue t = false
  excused : ∀ x, q.Reports x → q.Excuses now x

theorem Punctual.later (h : q.Punctual now) (later : now ≤ t) : q.Punctual t :=
  ⟨h.begun, fun x reported => (h.excused x reported).later later⟩

theorem reports_close (h : (q.close o).Reports x) : o = .error (.pool x) ∨ q.Reports x := by
  obtain result | answer | overrun | ended := h
  · exact .inl (Option.some.inj result)
  · exact .inr (.inr (.inl answer))
  · cases overrun
  · exact .inr (.inr (.inr (.inr ended)))

theorem punctual_of_untold (fresh : q.isFresh = true) (idle : q.begun = none)
    (pending : q.stage = .pending) (unreplied : q.answer = none ∧ q.result = none) :
    q.Punctual now where
  begun t ht := by
    rw [idle] at ht
    cases ht
  excused x reported := by
    obtain result | ⟨t, answer⟩ | overrun | ended := reported
    · simp [unreplied.2] at result
    · simp [unreplied.1] at answer
    · simp [pending] at overrun
    · simp [isFresh, ended] at fresh

end Request

section Shift
variable {ρ : Type} {now r : Nat} {p p' : Pool} {q q' : Request ρ} {x : PoolError}

theorem Pool.arrive_refused (h : p.arrive r = (.refused x, p')) :
    x = .shuttingDown ∨ ∃ n, x = .saturated n := by
  rw [arrive] at h
  split at h
  · cases h
    exact .inl rfl
  · split at h
    · cases h
      exact .inr ⟨_, rfl⟩
    · split at h <;> cases h

theorem Shift.hasEnded (h : Shift now r p q p' q') (ended : q.hasEnded = true) :
    q'.hasEnded = true := by
  cases h with
  | slept _ _ _ place | ended _ place =>
      rw [place.2] at ended
      cases ended
  | _ => exact ended

theorem Shift.excuses (h : Shift now r p q p' q') (excused : q.Excuses now x) :
    q'.Excuses now x := by
  cases x with
  | timeout l => exact (h.overdue_eq now).trans excused
  | saturated | shuttingDown =>
      refine ⟨h.begun_eq.trans excused.1, ?_⟩
      exact excused.2.imp h.isOver h.hasEnded
  | panicked => trivial

/-- A failure that is new has its reason. -/
theorem Shift.reports (h : Shift now r p q p' q') (reported : q'.Reports x) :
    q.Reports x ∨ q'.Excuses now x := by
  have closed {o : Ending ρ} (hq : q' = q.close o) (new : o = .error (.pool x) → q'.Excuses now x) :
      q.Reports x ∨ q'.Excuses now x := by
    rw [hq] at reported
    exact (Request.reports_close reported).symm.imp id new
  cases h with
  | noted => exact .inl reported
  | replied o unreplied known =>
      obtain result | ⟨t, answer⟩ | other := reported
      · exact .inl (.inl result)
      · cases answer
        obtain result | ⟨late, l, timeout⟩ := known
        · exact .inl (.inl result)
        · cases timeout
          exact .inr late
      · exact .inl (.inr (.inr other))
  | skipped l pending late | expired l waiting late =>
      refine closed rfl fun new => ?_
      cases new
      exact late
  | refused pending idle arrives =>
      refine closed rfl fun new => ?_
      cases new
      obtain rfl | ⟨n, rfl⟩ := Pool.arrive_refused arrives
      · exact ⟨idle, .inl rfl⟩
      · exact ⟨idle, .inl rfl⟩
  | dismissed _ idle | declined _ idle =>
      refine closed rfl fun new => ?_
      cases new
      exact ⟨idle, .inl rfl⟩
  | queued | seated | seatedLate =>
      obtain result | answer | overrun | ended := reported
      · exact .inl (.inl result)
      · exact .inl (.inr (.inl answer))
      · cases overrun
      · exact .inl (.inr (.inr (.inr ended)))
  | overran l running goes late =>
      obtain result | answer | overrun | ended := reported
      · exact .inl (.inl result)
      · exact .inl (.inr (.inl answer))
      · cases overrun
        exact .inr late
      · exact .inl (.inr (.inr (.inr ended)))
  | slept =>
      obtain result | answer | overrun | ended := reported
      · exact .inl (.inl result)
      · exact .inl (.inr (.inl answer))
      · exact .inl (.inr (.inr (.inl overrun)))
      · cases ended
  | ended o place how =>
      obtain result | answer | overrun | ended := reported
      · exact .inl (.inl result)
      · exact .inl (.inr (.inl answer))
      · exact .inl (.inr (.inr (.inl overrun)))
      · cases ended
        obtain ⟨idle, dropped⟩ | ⟨y, finished⟩ | broken := how
        · cases dropped
          exact .inr ⟨idle, .inr rfl⟩
        · cases finished
        · cases broken
          exact .inr trivial
  | finished o how =>
      obtain rfl | old := Request.reports_close reported
      · obtain ⟨_, ended⟩ | ⟨overran, _⟩ := how
        · exact .inl (.inr (.inr (.inr ended)))
        · exact .inl (.inr (.inr (.inl overran)))
      · exact .inl old

/-- Work that has not begun is asked to stop for good, once it has come to a slot. -/
theorem Shift.prompt (h : Shift now r p q p' q') (fresh : q'.isFresh = true) :
    q.isFresh = true ∧ (q.isEarly ∨ ¬q'.isEarly ∧
      (q'.cancelled = false → q.cancelled = false) ∧ ∀ t, q'.overdue t = q.overdue t) := by
  have overdue := h.overdue_eq
  cases h with
  | noted | replied =>
      refine ⟨fresh, ?_⟩
      by_cases early : q.isEarly
      · exact .inl early
      · exact .inr ⟨early, id, overdue⟩
  | skipped _ pending | refused pending | queued pending => exact ⟨fresh, .inl (.inl pending)⟩
  | expired _ waiting | dismissed waiting | declined waiting => exact ⟨fresh, .inl (.inr waiting)⟩
  | seated _ seat | seatedLate _ seat =>
      refine ⟨fresh, .inl ?_⟩
      cases seat with
      | free pending => exact .inl pending
      | handed waiting => exact .inr waiting
  | overran => exact ⟨fresh, .inr ⟨by simp [Request.isEarly], id, overdue⟩⟩
  | finished => exact ⟨fresh, .inr ⟨by simp [Request.isEarly, Request.close], id, overdue⟩⟩
  | slept | ended => cases fresh

theorem Shift.punctual (h : Shift now r p q p' q') (punctual : q.Punctual now) :
    q'.Punctual now where
  begun t ht := by
    rw [h.overdue_eq]
    exact punctual.begun t (h.begun_eq.symm.trans ht)
  excused x reported := by
    obtain reported | excused := h.reports reported
    · exact h.excuses (punctual.excused x reported)
    · exact excused

end Shift

namespace Engine
variable {ρ : Type} {sent : List Nat} {e e' : Engine ρ} {r : Nat} {q : Request ρ}

/-- Work that is due at a time has begun or has come to a slot, where it is in time or will be
dropped. -/
def Prompt (e : Engine ρ) (t : Nat) (s : Signal) : Prop :=
  ∀ r q, s = .work r → e.request? r = some q → q.isFresh = true →
    ¬q.isEarly ∧ (q.cancelled = false → q.overdue t = false)

/-- Nothing that is due has been passed over, and each request is in time. -/
structure Timely (e : Engine ρ) : Prop where
  future : ∀ d ∈ e.agenda, e.now ≤ d.time
  prompt : ∀ d ∈ e.agenda, e.Prompt d.time d.signal
  punctual : ∀ r q, e.request? r = some q → q.Punctual e.now

namespace Timely

theorem move (h : e.Timely) {f : Request ρ → Request ρ} {p : Pool}
    (prompt : ∀ q, e.request? r = some q → (f q).isFresh = true → q.isFresh = true ∧
      (q.isEarly ∨ ¬(f q).isEarly ∧ ((f q).cancelled = false → q.cancelled = false) ∧
        ∀ t, (f q).overdue t = q.overdue t))
    (punctual : ∀ q, e.request? r = some q → (f q).Punctual e.now) :
    Timely { e.modify r f with pool := p } where
  future := h.future
  prompt d hd r' q hs hq fresh := by
    have hq : (e.modify r f).request? r' = some q := hq
    rw [request?_modify] at hq
    split at hq
    · rename_i same
      subst same
      obtain ⟨q₀, hq₀, rfl⟩ := Option.map_eq_some_iff.1 hq
      obtain ⟨fresh₀, early | ⟨late, free, overdue⟩⟩ := prompt q₀ hq₀ fresh
      · exact absurd early (h.prompt d hd r q₀ hs hq₀ fresh₀).1
      · refine ⟨late, fun hc => ?_⟩
        rw [overdue]
        exact (h.prompt d hd r q₀ hs hq₀ fresh₀).2 (free hc)
    · exact h.prompt d hd r' q hs hq fresh
  punctual r' q hq := by
    have hq : (e.modify r f).request? r' = some q := hq
    rw [request?_modify] at hq
    split at hq
    · rename_i same
      subst same
      obtain ⟨q₀, hq₀, rfl⟩ := Option.map_eq_some_iff.1 hq
      exact punctual q₀ hq₀
    · exact h.punctual r' q hq

theorem schedule (h : e.Timely) {t : Nat} (later : e.now ≤ t) (rank : Rank) {s : Signal}
    (prompt : e.Prompt t s) : (e.schedule t rank s).Timely where
  future d hd := by
    obtain rfl | hd := Agenda.mem_push.1 hd
    · exact later
    · exact h.future d hd
  prompt d hd := by
    obtain rfl | hd := Agenda.mem_push.1 hd
    · exact prompt
    · exact h.prompt d hd
  punctual := h.punctual

/-- Time passes, but not over what is due. -/
theorem later (h : e.Timely) {w : World} (later : e.now ≤ w.now)
    (future : ∀ d ∈ e.agenda, w.now ≤ d.time) : Timely { e with world := w } where
  future := future
  prompt := h.prompt
  punctual r q hq := (h.punctual r q hq).later later

theorem ofWorld (w : World) (c : PoolConfig) : (ofWorld (ρ := ρ) w c).Timely where
  future d hd := by cases hd
  prompt d hd := by cases hd
  punctual r q hq := by cases hq

end Timely

theorem Change.timely (change : Change sent e e') (h : e.Timely) : e'.Timely := by
  cases change with
  | aside lanes drains world same =>
      refine ⟨fun d hd => ?_, h.prompt, fun r q hq => ?_⟩
      · exact Nat.le_trans (Nat.le_of_eq same) (h.future d hd)
      · exact (h.punctual r q hq).later (Nat.le_of_eq same.symm)
  | close | cancelAll => exact ⟨h.future, h.prompt, h.punctual⟩
  | signal t rank s later fit =>
      refine h.schedule later rank fun r q hs hq fresh => ?_
      cases hs
      exact fit q hq fresh
  | ask r =>
      refine h.move (fun q hq fresh => ⟨fresh, ?_⟩) fun q hq => ?_
      · by_cases early : q.isEarly
        · exact .inl early
        · exact .inr ⟨early, fun free => (by cases free), fun _ => rfl⟩
      · obtain ⟨begun, excused⟩ := h.punctual r q hq
        exact ⟨begun, excused⟩
  | @shift r q p f hq called shift =>
      refine h.move (fun q' hq' fresh => ?_) fun q' hq' => ?_
      · rw [hq, Option.some.injEq] at hq'
        subst hq'
        exact shift.prompt fresh
      · rw [hq, Option.some.injEq] at hq'
        subst hq'
        exact shift.punctual (h.punctual r q hq)

theorem Changes.timely (changes : Changes sent e e') (h : e.Timely) : e'.Timely :=
  changes.keep (fun _ _ change => change.timely) h

end Engine

namespace CommandEngine
open Engine
variable {S ε : Type} {m : CommandEngine S ε} {calls : Nat → CommandCall}
  {e₀ e e' : Engine (CommandResult S ε)} {ts : List (Turn (CommandResult S ε))}
  {t : Turn (CommandResult S ε)} {sent : List Nat}

/-- A request that has not been called is in time, whatever the time. -/
theorem Facing.punctual_of_unsent (h : m.Facing calls sent t) {r : Nat}
    {q : Request (CommandResult S ε)} (hq : t.engine.request? r = some q) (unsent : r ∉ sent)
    (c now : Nat) : Request.Punctual { q with called := c } now := by
  have pending := h.order.unsent r q hq unsent
  have fresh := (h.order.fits r q hq).early (.inl pending)
  exact Request.punctual_of_untold fresh ((h.order.fits r q hq).fresh fresh) pending
    (h.tame.unreplied r q unsent hq)

theorem Facing.timely (h : m.Facing calls sent t) (timely : t.engine.Timely)
    (prompt : t.engine.Prompt t.time t.signal) : t.after.Timely := by
  refine h.changes.timely ?_
  cases hs : t.signal with
  | call r =>
      have unsent := (h.fit.call r hs).1
      refine timely.move (fun q hq fresh => ⟨fresh, .inl (.inl ?_)⟩) fun q hq => ?_
      · exact h.order.unsent r q hq unsent
      · exact h.punctual_of_unsent hq unsent _ _
  | work r =>
      rw [Engine.noted]
      cases hq : t.engine.request? r with
      | none => exact timely
      | some q =>
          dsimp only
          split
          · rename_i starting
            obtain ⟨late, inTime⟩ := prompt r q hs hq starting.1
            refine timely.move (fun q' hq' fresh => ⟨fresh, .inr ⟨?_, id, fun _ => rfl⟩⟩)
              fun q' hq' => ?_
            · rw [hq, Option.some.injEq] at hq'
              rw [← hq']
              exact late
            · rw [hq, Option.some.injEq] at hq'
              subst hq'
              have early := inTime starting.2
              refine ⟨fun t' ht' => ?_, fun x reported => ?_⟩
              · cases ht'
                exact early
              · have excused := (timely.punctual r q hq).excused x reported
                have place := h.fit.work r hs q hq starting.1
                have goes := q.hasEnded_of_isFresh starting.1
                cases x with
                | timeout l => exact excused
                | panicked => trivial
                | saturated | shuttingDown =>
                    obtain ⟨_, isOver | ended⟩ := excused
                    · obtain running | ⟨o, overran⟩ := place
                      · simp [running] at isOver
                      · simp [overran] at isOver
                    · rw [goes] at ended
                      cases ended
          · exact timely
  | caller | worker | slot | outcome | close | drained => exact timely

theorem Steady.timely_add (h : m.Steady calls sent e) (timely : e.Timely) (foreground : Bool) :
    (e.add (m.request (calls e.requests.length) foreground)).2.Timely where
  future := timely.future
  prompt d hd r q hs hq fresh := by
    rw [request?_add] at hq
    split at hq
    · rename_i hr
      have due : 0 < e.due (.work r) := List.countP_pos_iff.2 ⟨d, hd, by simp [hs]⟩
      have made := h.order.known r due
      rw [← hr, request?_length] at made
      cases made
    · exact timely.prompt d hd r q hs hq fresh
  punctual r q hq := by
    rw [request?_add] at hq
    split at hq
    · cases hq
      exact Request.punctual_of_untold rfl rfl rfl ⟨rfl, rfl⟩
    · exact timely.punctual r q hq

theorem Next.timely (next : m.Next calls OnTime e t) (h : m.Steady calls sent e)
    (timely : e.Timely) : t.engine.Timely ∧ t.engine.Prompt t.time t.signal := by
  cases next with
  | call foreground =>
      refine ⟨h.timely_add timely foreground, fun r q hs => ?_⟩
      cases hs
  | close drain =>
      refine ⟨⟨timely.future, timely.prompt, timely.punctual⟩, fun r q hs => ?_⟩
      cases hs
  | @due before d after time ha later hdue allowed =>
      have inFuture (d' : Due Signal) (hd' : d' ∈ e.agenda) : time ≤ d'.time := by
        have onTime := allowed d' hd'
        have future := timely.future d' hd'
        omega
      have rest {d' : Due Signal} (hd' : d' ∈ before ++ after) : d' ∈ e.agenda := by
        rw [ha]
        exact ((List.sublist_cons_self d after).append_left before).subset hd'
      have here : d ∈ e.agenda := by
        rw [ha]
        simp
      refine ⟨⟨fun d' hd' => inFuture d' (rest hd'), fun d' hd' => timely.prompt d' (rest hd'),
        fun r q hq => (timely.punctual r q hq).later later⟩, ?_⟩
      have same : d.time = time := Nat.le_antisymm hdue (inFuture d here)
      have prompt := timely.prompt d here
      rw [same] at prompt
      exact prompt

theorem Between.timely (between : m.Between calls OnTime e e') (h : m.Steady calls sent e)
    (timely : e.Timely) : e'.Timely := by
  cases between with
  | spawn foreground =>
      refine (h.timely_add timely foreground).schedule (Nat.le_refl _) _ fun r q hs => ?_
      cases hs
  | spawnShutDown =>
      have added : (e.addDrain { foreground := false }).2.Timely :=
        ⟨timely.future, timely.prompt, timely.punctual⟩
      refine added.schedule (Nat.le_refl _) _ fun r q hs => ?_
      cases hs
  | aside w later allowed =>
      refine Timely.later timely later fun d hd => ?_
      have onTime := allowed d hd
      have future := timely.future d hd
      omega

theorem Course.timely (course : m.Course calls OnTime e₀ ts e) (start : m.Steady calls sent e₀)
    (timely : e₀.Timely) : e.Timely := by
  induction course with
  | start => exact timely
  | turn course next ih =>
      have steady := course.steady start
      have inTime := next.timely steady ih
      exact (steady.facing next).timely inTime.1 inTime.2
  | between course between ih => exact between.timely (course.steady start) ih

end CommandEngine
end EventSourcing
