import EventSourcing.Proofs.Engine.Timely

/-!
Commands start at most once, and never late.
The turns of an engine in which the work of a request begins are told by the time that the request has
noted for it. With that, a request starts at most once and before its caller stops waiting, and one
whose caller was turned away does not start any more.
-/
namespace EventSourcing

namespace Engine
variable {ρ : Type} {sent : List Nat} {e e' : Engine ρ} {r : Nat}

theorem begun?_modify (r' r : Nat) {f : Request ρ → Request ρ} (hf : ∀ q, (f q).begun = q.begun) :
    (e.modify r' f).begun? r = e.begun? r := by
  rw [begun?, request?_modify]
  split
  · rw [Option.bind_map]
    exact Option.bind_congr fun q _ => hf q
  · rfl

theorem Change.begun? (change : Change sent e e') (r : Nat) : e'.begun? r = e.begun? r := by
  cases change with
  | aside | signal | close | cancelAll => rfl
  | ask r' =>
      apply begun?_modify
      intro q
      rfl
  | @shift r' q p f hq called shift =>
      change ((e.modify r' f).request? r).bind Request.begun = _
      rw [request?_modify]
      split
      · rename_i same
        subst same
        rw [Engine.begun?, hq, Option.map_some, Option.bind_some, Option.bind_some, shift.begun_eq]
      · rfl

theorem Changes.begun? (changes : Changes sent e e') (r : Nat) : e'.begun? r = e.begun? r :=
  changes.keep (P := fun e' => e'.begun? r = e.begun? r)
    (fun _ _ change same => (change.begun? r).trans same) rfl

theorem begun?_add {q : Request ρ} (idle : q.begun = none) (r : Nat) :
    (e.add q).2.begun? r = e.begun? r := by
  rw [begun?, request?_add]
  split
  · rename_i hr
    rw [Option.bind_some, idle, ← hr, begun?, request?_length, Option.bind_none]
  · rfl

/-- Work begins when this is noted, and at no other time. -/
theorem begun?_noted (t : Turn ρ) (r : Nat) :
    (t.engine.noted t.signal).begun? r =
      if t.starts r then some t.time else t.engine.begun? r := by
  rw [Turn.starts]
  cases hs : t.signal with
  | call r' =>
      apply begun?_modify
      intro q
      rfl
  | caller | worker | slot | outcome | close | drained => rfl
  | work r' =>
      rw [noted]
      by_cases hr : r' = r
      · subst hr
        cases hq : t.engine.request? r' with
        | none => simp
        | some q =>
            dsimp only
            by_cases starting : q.isFresh = true ∧ q.cancelled = false
            · rw [if_pos starting, begun?, request?_modify_self hq]
              simp [starting, Turn.time]
            · rw [if_neg starting, if_neg]
              simpa using starting
      · have other : (decide (Signal.work r' = .work r) &&
            (t.engine.request? r).any fun q => q.isFresh && !q.cancelled) = false := by
          simp [hr]
        rw [other]
        split
        · split
          · rw [begun?, request?_modify, if_neg hr]
            rfl
          · rfl
        · rfl

end Engine

namespace CommandEngine
open Engine
variable {S ε : Type} {m : CommandEngine S ε} {calls : Nat → CommandCall}
  {clock : Engine (CommandResult S ε) → Nat → Prop} {e₀ e e' : Engine (CommandResult S ε)}
  {ts ts' : List (Turn (CommandResult S ε))} {t c : Turn (CommandResult S ε)} {sent : List Nat}
  {r : Nat}

theorem Facing.begun? (h : m.Facing calls sent t) (r : Nat) :
    t.after.begun? r = if t.starts r then some t.time else t.engine.begun? r :=
  (h.changes.begun? r).trans (begun?_noted t r)

theorem Facing.unbegun (h : m.Facing calls sent t) (starts : t.starts r = true) :
    t.engine.begun? r = none := by
  rw [Turn.starts, Bool.and_eq_true] at starts
  obtain ⟨q, hq, starting⟩ := (Option.any_eq_true _ _).1 starts.2
  rw [Bool.and_eq_true] at starting
  rw [Engine.begun?, hq, Option.bind_some]
  exact (h.order.fits r q hq).fresh starting.1

theorem Next.begun? (next : m.Next calls clock e t) (r : Nat) :
    t.engine.begun? r = e.begun? r := by
  cases next with
  | call foreground => exact begun?_add rfl r
  | due | close => rfl

theorem Between.begun? (between : m.Between calls clock e e') (r : Nat) :
    e'.begun? r = e.begun? r := by
  cases between with
  | spawn foreground => exact begun?_add rfl r
  | spawnShutDown | aside => rfl

/-- The turns in which a request starts, by their times: at most one, which the request knows. -/
theorem Course.starts (course : m.Course calls clock e₀ ts e) (start : m.Steady calls sent e₀)
    (r : Nat) :
    (e₀.begun? r).toList ++ (ts.filter (·.starts r)).map Turn.time = (e.begun? r).toList := by
  induction course with
  | start => simp
  | @turn ts e t course next ih =>
      have facing := (course.steady start).facing next
      rw [List.filter_append, List.map_append, ← List.append_assoc, ih, ← next.begun? r,
        facing.begun? r]
      cases starts : t.starts r with
      | true => simp [facing.unbegun starts, starts]
      | false => simp [starts]
  | between _ between ih => rw [ih, between.begun? r]

theorem Course.called (course : m.Course calls clock e₀ ts e) (start : m.Steady calls sent e₀)
    (hc : c ∈ ts) (call : c.signal = .call r) :
    ∃ q, e.request? r = some q ∧ q.called = c.time := by
  induction course with
  | start => cases hc
  | @turn ts e t course next ih =>
      have facing := (course.steady start).facing next
      obtain earlier | now := List.mem_append.1 hc
      · obtain ⟨q, hq, called⟩ := ih earlier
        have made := List.mem_append_right sent (Turn.mem_submitted.2 ⟨c, earlier, call⟩)
        have on := next.goesOn.trans facing.goesOn (List.Subset.refl _)
        obtain ⟨q', hq', on⟩ := on.requests r q hq
        exact ⟨q', hq', (on.called made).trans called⟩
      · rw [List.mem_singleton] at now
        subst now
        obtain ⟨q, hq⟩ := Option.isSome_iff_exists.1 (facing.fit.call r call).2.1
        have noted : (c.engine.noted c.signal).request? r = some { q with called := c.time } := by
          rw [call]
          exact request?_modify_self hq _
        have on : GoesOn [r] (c.engine.noted c.signal) c.after := facing.changes.goesOn
        obtain ⟨q', hq', on⟩ := on.requests r _ noted
        exact ⟨q', hq', on.called (List.mem_singleton_self r)⟩
  | @between ts e e' course between ih =>
      obtain ⟨q, hq, called⟩ := ih hc
      have made := List.mem_append_right sent (Turn.mem_submitted.2 ⟨c, hc, call⟩)
      have on : GoesOn (sent ++ Turn.submitted ts) e e' := between.goesOn
      obtain ⟨q', hq', on⟩ := on.requests r q hq
      exact ⟨q', hq', (on.called made).trans called⟩

theorem Course.started (course : m.Course calls clock e₀ ts e) (start : m.Steady calls sent e₀)
    (begun : e.begun? r ≠ none) : e₀.begun? r ≠ none ∨ ∃ s ∈ ts, s.starts r = true := by
  have starts := course.starts start r
  obtain ⟨time, htime⟩ := Option.ne_none_iff_exists'.1 begun
  rw [htime, Option.toList_some] at starts
  cases before : e₀.begun? r with
  | some t => exact .inl (by simp)
  | none =>
      rw [before, Option.toList_none, List.nil_append] at starts
      have one : time ∈ (ts.filter (·.starts r)).map Turn.time := by
        rw [starts]
        exact List.mem_singleton_self time
      obtain ⟨s, hs, _⟩ := List.mem_map.1 one
      exact .inr ⟨s, (List.mem_filter.1 hs).1, (List.mem_filter.1 hs).2⟩

/-- Only the work of requests that have started writes to the logs. -/
theorem Course.writes (course : m.Course calls clock e₀ ts e) (start : m.Steady calls sent e₀)
    (ht : t ∈ ts) (writes : t.after.world.log ≠ t.engine.world.log) :
    ∃ r, t.signal = .work r ∧ (e₀.begun? r ≠ none ∨ ∃ s ∈ ts, s.starts r = true) := by
  induction course with
  | start => cases ht
  | @turn ts e t' course next ih =>
      obtain earlier | now := List.mem_append.1 ht
      · obtain ⟨r, hr, begun | ⟨s, hs, starts⟩⟩ := ih earlier
        · exact ⟨r, hr, .inl begun⟩
        · exact ⟨r, hr, .inr ⟨s, List.mem_append_left _ hs, starts⟩⟩
      · rw [List.mem_singleton] at now
        subst now
        have facing := (course.steady start).facing next
        obtain same | ⟨r, q, hr, hq, begun | starting⟩ := (facing.order.handle facing.fit).2
        · exact absurd same writes
        · have old : e.begun? r ≠ none := by
            rw [← next.begun? r, Engine.begun?, hq, Option.bind_some]
            exact begun
          obtain before | ⟨s, hs, starts⟩ := course.started start old
          · exact ⟨r, hr, .inl before⟩
          · exact ⟨r, hr, .inr ⟨s, List.mem_append_left _ hs, starts⟩⟩
        · refine ⟨r, hr, .inr ⟨t, List.mem_append_right _ (List.mem_singleton_self t), ?_⟩⟩
          rw [Turn.starts, hr, hq]
          simp [starting]
  | between _ _ ih => exact ih ht

theorem Course.time_le (course : m.Course calls clock e₀ ts e) (start : m.Steady calls sent e₀)
    (ht : t ∈ ts) : e₀.now ≤ t.time := by
  induction course with
  | start => cases ht
  | @turn ts e t' course next ih =>
      obtain earlier | now := List.mem_append.1 ht
      · exact ih earlier
      · rw [List.mem_singleton] at now
        subst now
        have on : GoesOn sent e t.engine := next.goesOn
        exact Nat.le_trans (course.goesOn start).time on.time
  | between _ _ ih => exact ih ht

theorem Course.begun?_of_starts (course : m.Course calls clock e₀ ts e)
    (start : m.Steady calls sent e₀) (ht : t ∈ ts) (starts : t.starts r = true) :
    e.begun? r = some t.time := by
  have known : t.time ∈ (e.begun? r).toList := by
    rw [← course.starts start r]
    exact List.mem_append_right _ (List.mem_map_of_mem (List.mem_filter.2 ⟨ht, starts⟩))
  exact Option.mem_toList.1 known

theorem Steady.sent_of_begun (h : m.Steady calls sent e) {q : Request (CommandResult S ε)}
    (hq : e.request? r = some q) (begun : q.begun ≠ none) : r ∈ sent := by
  apply Decidable.byContradiction
  intro unsent
  have fits := h.order.fits r q hq
  exact begun (fits.fresh (fits.early (.inl (h.order.unsent r q hq unsent))))

theorem Course.starts_once (course : m.Course calls clock e₀ ts e) (start : m.Steady calls sent e₀)
    (r : Nat) : (ts.filter (·.starts r)).length ≤ 1 := by
  have starts := congrArg List.length (course.starts start r)
  rw [List.length_append, List.length_map] at starts
  have few : (e.begun? r).toList.length ≤ 1 := by cases e.begun? r <;> simp
  omega

theorem Course.no_starts_of_unbegun (course : m.Course calls clock e₀ ts e)
    (start : m.Steady calls sent e₀) (unbegun : e.begun? r = none) (ht : t ∈ ts) :
    t.starts r = false := by
  cases starts : t.starts r with
  | false => rfl
  | true =>
      have began := course.begun?_of_starts start ht starts
      rw [unbegun] at began
      cases began

/-- A request starts before the time that its caller allows is up. -/
theorem Course.starts_in_time (course : m.Course calls OnTime e₀ ts e)
    (start : m.Steady calls sent e₀) (timely : e₀.Timely) (ht : t ∈ ts)
    (starts : t.starts r = true) (hc : c ∈ ts) (call : c.signal = .call r) :
    t.time < c.time + m.limit (calls r) := by
  obtain ⟨q, hq, began⟩ := Option.bind_eq_some_iff.1 (course.begun?_of_starts start ht starts)
  obtain ⟨q', hq', called⟩ := course.called start hc call
  rw [hq, Option.some.injEq] at hq'
  subst hq'
  have inTime := ((course.timely start timely).punctual r q hq).begun t.time began
  rw [Request.overdue, Request.deadline?, (course.steady start).tame.limits r q hq,
    called] at inTime
  simpa using inTime

/-- Whoever is turned away before he starts does not start later. -/
theorem Course.stays_away (course : m.Course calls OnTime e ts e') (steady : m.Steady calls sent e)
    (timely : e.Timely) {replied : Nat} {p : PoolError}
    (answer : e.answer? r = some (replied, .error (.pool p)))
    (final : p = .shuttingDown ∨ (∃ n, p = .saturated n) ∨
      (∃ l, p = .timeout l) ∧ e.begun? r = none) : e'.begun? r = none := by
  obtain ⟨q, hq, answer⟩ := Option.bind_eq_some_iff.1 answer
  obtain ⟨q', hq', on⟩ := (course.goesOn steady).requests r q hq
  have excused := (timely.punctual r q hq).excused p (.inr (.inl ⟨replied, answer⟩))
  have punctual' := (course.timely steady timely).punctual r q' hq'
  have excused' := punctual'.excused p (.inr (.inl ⟨replied, on.answer _ answer⟩))
  rw [Engine.begun?, hq', Option.bind_some]
  obtain rfl | ⟨n, rfl⟩ | ⟨⟨l, rfl⟩, idle⟩ := final
  · exact excused'.1
  · exact excused'.1
  · cases begun : q'.begun with
    | none => rfl
    | some t =>
        have sent : r ∈ sent := by
          apply Decidable.byContradiction
          intro unsent
          rw [(steady.tame.unreplied r q unsent hq).1] at answer
          cases answer
        have began : e'.begun? r = some t := by
          rw [Engine.begun?, hq', Option.bind_some, begun]
        have starts := course.starts steady r
        rw [idle, began, Option.toList_none, List.nil_append, Option.toList_some] at starts
        have here : t ∈ (ts.filter (·.starts r)).map Turn.time := by
          rw [starts]
          exact List.mem_singleton_self t
        obtain ⟨s, hs, rfl⟩ := List.mem_map.1 here
        have later := course.time_le steady (List.mem_filter.1 hs).1
        have late : q'.overdue s.time = true := by
          rw [Request.overdue, Request.deadline?, on.limit, on.called sent]
          exact Request.overdue_mono later excused
        rw [punctual'.begun s.time begun] at late
        cases late

/-- On a clock that never passes over what is due, each command starts at most once, and before the
time that its caller allows is up. A command whose caller is told that the pool is saturated or shuts
down, or is told of a timeout before the command has started, does not start any more and writes
nothing; whatever is written is written by the work of commands that have started. -/
theorem commands_start_once_and_in_time (w : World)
    (course : m.Course calls OnTime (.ofWorld w m.config.pool) ts e) (r : Nat) :
    (ts.filter (·.starts r)).length ≤ 1 ∧
      (∀ t ∈ ts, t.starts r = true → (∃ c ∈ ts, c.signal = .call r) ∧
        ∀ c ∈ ts, c.signal = .call r → t.time < c.time + m.limit (calls r)) ∧
      (∀ replied p, e.answer? r = some (replied, .error (.pool p)) →
        (p = .shuttingDown ∨ (∃ n, p = .saturated n) ∨
          (∃ l, p = .timeout l) ∧ ∀ t ∈ ts, t.starts r = false) →
        ∀ ts' e', m.Course calls OnTime e ts' e' → ∀ t ∈ ts ++ ts', t.starts r = false ∧
          (t.signal = .work r → t.after.world.log = t.engine.world.log)) ∧
      ∀ t ∈ ts, t.after.world.log ≠ t.engine.world.log →
        ∃ r', t.signal = .work r' ∧ ∃ s ∈ ts, s.starts r' = true := by
  have start : m.Steady calls [] (.ofWorld w m.config.pool) := steady_start w
  have steady : m.Steady calls (Turn.submitted ts) e := course.steady start
  have timely := course.timely start (.ofWorld w m.config.pool)
  refine ⟨course.starts_once start r, fun t ht starting => ⟨?_, fun c hc call => ?_⟩,
    fun replied p answer final ts' e' course' t ht => ?_, fun t ht writes => ?_⟩
  · obtain ⟨q, hq, began⟩ := Option.bind_eq_some_iff.1 (course.begun?_of_starts start ht starting)
    exact Turn.mem_submitted.1 (steady.sent_of_begun hq (by simp [began]))
  · exact course.starts_in_time start (.ofWorld w m.config.pool) ht starting hc call
  · have all := course.trans course'
    have unbegun : e'.begun? r = none := by
      refine course'.stays_away steady timely answer ?_
      refine final.imp_right fun final => final.imp_right fun ⟨timeout, idle⟩ => ⟨timeout, ?_⟩
      apply Decidable.byContradiction
      intro began
      obtain before | ⟨s, hs, starts⟩ := course.started start began
      · exact before rfl
      · rw [idle s hs] at starts
        cases starts
    refine ⟨all.no_starts_of_unbegun start unbegun ht, fun work => ?_⟩
    apply Classical.byContradiction
    intro writes
    obtain ⟨r', hr', begun | ⟨s, hs, starts⟩⟩ := all.writes start ht writes
    · exact begun rfl
    · rw [work, Signal.work.injEq] at hr'
      rw [← hr', all.no_starts_of_unbegun start unbegun hs] at starts
      cases starts
  · obtain ⟨r', hr', begun | started⟩ := course.writes start ht writes
    · exact absurd rfl begun
    · exact ⟨r', hr', started⟩

/-- A command whose time is up just when the slot comes to it does not start, now or later, while the
one that held the slot has started once. -/
theorem command_at_its_deadline_does_not_start :
    let a : AggregateId := ⟨"job", "a"⟩
    let b : AggregateId := ⟨"job", "b"⟩
    let d : Description Unit Unit := ((Description.ofType "job").withSeed fun _ => ()).withCommand
      "wait" .any (fun _ => .ok ()) fun _ _ => .sleep 50 .done
    let m : CommandEngine Unit Unit := ⟨{ pool.maxConcurrency := 1 }, d, .direct⟩
    let calls : Nat → CommandCall
      | 0 => ⟨a, "wait", .null, none, none⟩
      | _ => ⟨b, "wait", .null, some 50, none⟩
    let w : World := { readings := fun n => ⟨n, 0⟩, shares := fun _ => 0 }
    ∃ ts e, m.Course calls OnTime (.ofWorld w m.config.pool) ts e ∧
      (ts.filter (·.starts 0)).map Turn.time = [0] ∧
      e.answer? 1 = some (50, .error (.pool (.timeout 50))) ∧
      ∀ ts' e', m.Course calls OnTime e ts' e' → ∀ t ∈ ts ++ ts', t.starts 1 = false := by
  intro a b d m calls w
  let called (e : Engine _) : Engine _ := (e.spawn (m.request (calls e.requests.length) false)).2
  let e₂ := called (called (.ofWorld w m.config.pool))
  have spawned : m.Course calls OnTime (.ofWorld w m.config.pool) [] e₂ :=
    (Course.start.between (.spawn false)).between (.spawn false)
  let ts := [] ++ e₂.turns (fun _ => false) 40
  let e := e₂.runFor (fun _ => false) 40
  have course : m.Course calls OnTime (.ofWorld w m.config.pool) ts e :=
    spawned.trans (Course.runFor (fun _ => false) 40 (spawned.steady (steady_start w)))
  have started : (ts.filter (·.starts 0)).map Turn.time = [0] := by decide +kernel
  have answer : e.answer? 1 = some (50, .error (.pool (.timeout 50))) := by decide +kernel
  have idle : ∀ t ∈ ts, t.starts 1 = false := by decide +kernel
  clear_value ts e
  have kept := (commands_start_once_and_in_time w course 1).2.2.1 50 _ answer
    (.inr (.inr ⟨⟨50, rfl⟩, idle⟩))
  refine ⟨ts, e, course, started, answer, fun ts' e' course' t ht => ?_⟩
  exact (kept ts' e' course' t ht).1

end CommandEngine
end EventSourcing
