import EventSourcing.Proofs.Engine.Settling
import EventSourcing.Proofs.Engine.Timely

/-!
One deadline for a command, wherever it has come to.
An engine that nobody shuts down handles what is due in its order, and time passes only while
nothing is due. A caller gives up at the deadline of its own call, with the limit of that call,
whether the command is still in its lane, waits for a slot, or is at work; what comes of the command
before that is told at the moment it comes.
-/
namespace EventSourcing.CommandEngine
open Engine
variable {S ε : Type}

/-- The turns of an engine that handles what is due in its order. -/
inductive InTurn (m : CommandEngine S ε) (calls : Nat → CommandCall)
    (e : Engine (CommandResult S ε)) : Turn (CommandResult S ε) → Prop
  | call (foreground : Bool) :
      InTurn m calls e
        ⟨(e.add (m.request (calls e.requests.length) foreground)).2, .call e.requests.length⟩
  | due {d rest} (ha : e.agenda = d :: rest) :
      InTurn m calls e ⟨e.taken [] rest (max e.now d.time), d.signal⟩

/-- What may happen between the turns of an engine that nobody shuts down. -/
inductive Meantime (m : CommandEngine S ε) (calls : Nat → CommandCall)
    (e : Engine (CommandResult S ε)) : Engine (CommandResult S ε) → Prop
  | spawn (foreground : Bool) :
      Meantime m calls e (e.spawn (m.request (calls e.requests.length) foreground)).2
  | aside (w : World) (later : e.now ≤ w.now) (allowed : OnTime e w.now) :
      Meantime m calls e { e with world := w }

/-- The runs of an engine that nobody shuts down. Calls are made in front or in the background at
any time, what is due is handled in its order, time does not pass over it, and others may do to the
world what they like. -/
inductive Timeline (m : CommandEngine S ε) (calls : Nat → CommandCall) (w : World) :
    List (Turn (CommandResult S ε)) → Engine (CommandResult S ε) → Prop
  | start : Timeline m calls w [] (.ofWorld w m.config.pool)
  | turn {ts e t} (h : Timeline m calls w ts e) (next : m.InTurn calls e t) :
      Timeline m calls w (ts ++ [t]) t.after
  | between {ts e e'} (h : Timeline m calls w ts e) (between : m.Meantime calls e e') :
      Timeline m calls w ts e'

variable {m : CommandEngine S ε} {calls : Nat → CommandCall} {w : World}
  {e e' : Engine (CommandResult S ε)} {ts : List (Turn (CommandResult S ε))}
  {t call : Turn (CommandResult S ε)} {sent : List Nat} {r deadline l τ : Nat}
  {q : Request (CommandResult S ε)} {o : Ending (CommandResult S ε)}
  {due : Signal → Nat → Prop}

theorem InTurn.next (h : m.InTurn calls e t) (sorted : e.Sorted) : m.Next calls OnTime e t := by
  cases h with
  | call foreground => exact .call foreground
  | @due d rest ha =>
      have first : e.agenda = [] ++ d :: rest := ha
      exact .due _ first (Nat.le_max_left ..) (Nat.le_max_right ..) (sorted.onTime ha)

theorem Meantime.between (h : m.Meantime calls e e') : m.Between calls OnTime e e' := by
  cases h with
  | spawn foreground => exact .spawn foreground
  | aside w later allowed => exact .aside w later allowed

theorem Timeline.course (run : m.Timeline calls w ts e) :
    m.Course calls OnTime (.ofWorld w m.config.pool) ts e := by
  induction run with
  | start => exact .start
  | turn _ next ih => exact ih.turn (next.next (ih.steady (steady_start w)).tame.sorted)
  | between _ between ih => exact ih.between between.between

theorem Timeline.steady (run : m.Timeline calls w ts e) : m.Steady calls (Turn.submitted ts) e :=
  run.course.steady (steady_start w)

theorem Timeline.future (run : m.Timeline calls w ts e) : ∀ d ∈ e.agenda, e.now ≤ d.time :=
  (run.course.timely (steady_start w) (.ofWorld w m.config.pool)).future

/-- An engine that is left to itself. -/
theorem Timeline.runFor (run : m.Timeline calls w ts e)
    (goal : Engine (CommandResult S ε) → Bool) (fuel : Nat) :
    m.Timeline calls w (ts ++ e.turns goal fuel) (e.runFor goal fuel) := by
  induction fuel generalizing ts e with
  | zero =>
      rw [Engine.turns, List.append_nil]
      exact run
  | succ fuel ih =>
      rw [Engine.turns, Engine.runFor]
      split
      · rw [List.append_nil]
        exact run
      · rw [step?]
        cases ha : e.agenda with
        | nil =>
            rw [List.append_nil]
            exact run
        | cons d rest =>
            rw [List.append_cons]
            exact ih (run.turn (.due ha))

section Passing

theorem InTurn.passes (h : m.InTurn calls e t) (sorted : e.Sorted)
    (future : ∀ d ∈ e.agenda, e.now ≤ d.time) : Passes e t.engine t.DueAt := by
  cases h with
  | call foreground => exact passes_of_call ⟨_, _, _, _, rfl⟩ rfl rfl rfl rfl fun _ _ => .rfl
  | @due d rest ha =>
      refine passes_of_time (Nat.le_max_left ..) (sorted.onTime ha) rfl rfl rfl fun s τ => ?_
      have first : e.agenda = [] ++ d :: rest := ha
      have soon := future d (by simp [ha])
      rw [dueAt_taken first (max e.now d.time)]
      refine or_congr (and_congr_right fun _ => ?_) .rfl
      change max e.now d.time = τ ↔ d.time = τ
      rw [Nat.max_eq_right soon]

theorem Meantime.passes (h : m.Meantime calls e e') : Passes e e' e'.DueAt := by
  cases h with
  | spawn foreground =>
      exact passes_of_call ⟨_, _, _, _, rfl⟩ rfl rfl rfl rfl fun _ _ => dueAt_wake
  | aside w later allowed => exact passes_of_time later allowed rfl rfl rfl fun _ _ => .rfl

theorem InTurn.undecided (h : m.InTurn calls e t) (sorted : e.Sorted)
    (future : ∀ d ∈ e.agenda, e.now ≤ d.time) (undecided : e.Undecided r deadline l) :
    t.Undecided r deadline l := by
  obtain ⟨⟨q, hq, isOpen⟩, rank, place, leads⟩ := undecided
  have passes := h.passes sorted future
  have soon := future _ leads.mem
  have onTime := passes.onTime (.caller r) deadline ⟨_, leads.mem, rfl, rfl⟩
  refine ⟨⟨q, passes.requests r q hq, isOpen.later passes.now⟩, ?_, ?_⟩
  · rw [Nat.max_eq_right soon] at onTime
    exact onTime
  · cases h with
    | call foreground => exact .inr ⟨⟨rank, place, leads⟩, by simp⟩
    | @due d rest ha =>
        have due := future d (by simp [ha])
        rw [ha] at leads
        obtain rfl | ⟨leads, early⟩ := leads.taken
        · exact .inl ⟨rfl, Nat.max_eq_right due⟩
        · refine .inr ⟨⟨rank, place, leads⟩, fun looks => ?_⟩
          change max e.now d.time < deadline
          rw [Nat.max_eq_right due]
          exact early looks

theorem Meantime.undecided (h : m.Meantime calls e e') (undecided : e.Undecided r deadline l) :
    e'.Undecided r deadline l := by
  obtain ⟨⟨q, hq, isOpen⟩, rank, place, leads⟩ := undecided
  have passes := h.passes
  refine ⟨⟨q, passes.requests r q hq, isOpen.later passes.now⟩, rank, place, ?_⟩
  cases h with
  | spawn foreground =>
      refine leads.push fun looks => ?_
      obtain hs | hs := looks <;> cases hs
  | aside w later allowed => exact leads

end Passing

section Undisturbed

theorem InTurn.calm (h : m.InTurn calls e t) (steady : m.Steady calls sent e)
    (undisturbed : e.Undisturbed sent) : m.Calm calls sent t := by
  refine ⟨steady.facing (h.next steady.tame.sorted), ?_, ?_⟩
  · cases h with
    | call foreground => exact ⟨undisturbed.isOpen, undisturbed.goes, undisturbed.mild⟩
    | @due d rest ha =>
        refine ⟨undisturbed.isOpen, undisturbed.goes, fun d' hd' => undisturbed.mild d' ?_⟩
        rw [ha]
        exact List.mem_cons_of_mem d hd'
  · cases h with
    | call foreground => trivial
    | @due d rest ha =>
        have mild := undisturbed.mild d (by simp [ha])
        obtain ⟨time, rank, s⟩ := d
        cases s with
        | slot | outcome => exact ⟨mild.1, rfl⟩
        | _ => exact mild

theorem Timeline.undisturbed (run : m.Timeline calls w ts e) :
    e.Undisturbed (Turn.submitted ts) := by
  induction run with
  | start => exact ⟨rfl, rfl, fun d hd => by cases hd⟩
  | turn run next ih =>
      have calm := next.calm run.steady ih
      rw [Turn.submitted_concat]
      exact calm.touches.undisturbed (calm.undisturbed.more (List.subset_append_left ..))
  | between run between ih =>
      cases between with
      | spawn foreground =>
          refine ⟨ih.isOpen, ih.goes, fun d hd => ?_⟩
          obtain rfl | hd := Agenda.mem_push.1 hd
          · trivial
          · exact ih.mild d hd
      | aside => exact ⟨ih.isOpen, ih.goes, ih.mild⟩

theorem Timeline.calm (run : m.Timeline calls w ts e) (next : m.InTurn calls e t) :
    m.Calm calls (Turn.submitted ts) t :=
  next.calm run.steady run.undisturbed

end Undisturbed

section Outcomes

/-- Something comes only of requests that have been called. -/
theorem Calm.sent_of_outcome (h : m.Calm calls sent t) (comes : t.outcome? r = some o) :
    r ∈ sent := by
  have order := h.order
  cases hs : t.signal with
  | work r' =>
      have ends := comes
      simp only [Turn.outcome?, hs] at ends
      have same := Turn.signal_of_ends (Option.isSome_of_eq_some ends)
      rw [Turn.ends?, if_pos same] at ends
      obtain ⟨q, hq, _⟩ := Option.bind_eq_some_iff.1 ends
      exact h.sent_of_work same hq
  | worker a =>
      have takes := Turn.about_of_outcome comes
      rw [Turn.about, hs] at takes
      rw [hs] at order
      obtain ⟨r', lanes, took, _, _, doing, _⟩ | ⟨lanes, gone, _⟩ := order.takeOrRetire
      · simp only [took, Option.some.injEq] at takes
        subst takes
        exact doing.sent
      · simp only [gone] at takes
        cases takes
  | call | caller | slot | outcome | close | drained => simp [Turn.outcome?, hs] at comes

theorem Timeline.sent_of_outcome (run : m.Timeline calls w ts e) (ht : t ∈ ts)
    (comes : t.outcome? r = some o) : r ∈ Turn.submitted ts := by
  induction run with
  | start => cases ht
  | @turn ts e t' run next ih =>
      rw [Turn.submitted_concat]
      obtain earlier | now := List.mem_append.1 ht
      · exact List.mem_append_left _ (ih earlier)
      · rw [List.mem_singleton] at now
        subst now
        exact List.mem_append_left _ ((run.calm next).sent_of_outcome comes)
  | between _ _ ih => exact ih ht

end Outcomes

section Call

/-- Who calls waits for its deadline, unless that has come already. -/
theorem Calm.of_call (h : m.Calm calls sent t) (hs : t.signal = .call r) :
    t.after.Undecided r (t.time + m.limit (calls r)) (m.limit (calls r)) ∨
      t.after.Decided t.after.DueAt r (t.time + m.limit (calls r)) (t.time + m.limit (calls r))
        (.error (.pool (.timeout (m.limit (calls r))))) := by
  generalize hl : m.limit (calls r) = l
  obtain ⟨unsent, made, _⟩ := h.fit.call r hs
  obtain ⟨q, hq⟩ := Option.isSome_iff_exists.1 made
  have limit : q.limit = some l := (h.tame.limits r q hq).trans (congrArg some hl)
  obtain ⟨unreplied, silent⟩ := h.tame.unreplied r q unsent hq
  let called : Request (CommandResult S ε) := { q with called := t.time }
  let noted : Engine (CommandResult S ε) := t.engine.modify r fun q => { q with called := t.time }
  let enters : Engine (CommandResult S ε) := noted.enterLane r (calls r).aggregate
  have isOpen : called.Open t.time (t.time + l) l :=
    ⟨limit, rfl, unreplied, silent, .inl (.inl (h.order.unsent r q hq unsent))⟩
  have touches : Touches sent (some r) t.engine enters :=
    (t.engine.touches_modify r _).trans (noted.touches_enterLane r _)
  have henters : enters.request? r = some called := by
    have hnoted : noted.request? r = some called := request?_modify_self hq _
    simp only [enters, enterLane]
    split <;> exact hnoted
  have deadline : called.deadline? = some (t.time + l) := by
    rw [Request.deadline?, show called.limit = some l from limit, Option.map_some]
  have overdue : called.overdue enters.now = decide (t.time + l ≤ t.time) := by
    rw [Request.overdue, deadline, touches.now]
    rfl
  have after : t.after = if called.overdue enters.now = true then
      enters.tell r (.error (.pool (.timeout l)))
    else enters.schedule (t.time + l) (.deadline q.foreground) (.caller r) := by
    rw [Turn.after, hs, handle, onCall]
    simp only [request?_modify_self hq, h.order.routes r q hq]
    refine (if_congr .rfl ?_ ?_ : _ = ite (called.overdue enters.now = true) _ _)
    · rw [limit, Option.getD_some]
      rfl
    · split
      · rename_i time hd
        cases deadline.symm.trans hd
        rfl
      · rename_i hd
        cases deadline.symm.trans hd
  rw [after, overdue]
  by_cases none : t.time + l ≤ t.time
  · have now : enters.now = t.time + l := by
      rw [touches.now]
      exact Nat.le_antisymm (Nat.le_add_right ..) none
    rw [if_pos (decide_eq_true none)]
    refine .inr (.replied (request?_modify_self henters _) ?_ (.inr (Nat.le_of_eq now.symm)))
    rw [← now]
  · rw [if_neg (by simpa using none)]
    have mild := (touches.undisturbed h.undisturbed).mild
    refine .inl ⟨⟨called, henters, ?_⟩, .deadline q.foreground, ?_, .made fun d hd looks => ?_⟩
    · change called.Open enters.now _ _
      rw [touches.now]
      exact isOpen
    · cases q.foreground <;> decide
    · have fits := mild d hd
      obtain ⟨time, rank, s⟩ := d
      obtain hs | hs := looks <;> cases hs <;> exact unsent fits.1

end Call

/-- How it stands with a call after some turns: nothing has come of it before its deadline and it
waits, or its answer is decided, by the one thing that came of it before its deadline, or by the
deadline. -/
inductive Fate (ts : List (Turn (CommandResult S ε))) (e : Engine (CommandResult S ε))
    (r deadline l : Nat) : Prop
  | waits (h : e.Undecided r deadline l)
      (nothing : ∀ t ∈ ts, ∀ o, t.outcome? r = some o → deadline ≤ t.time)
  | decided {τ : Nat} {o : Ending (CommandResult S ε)} (h : e.Decided e.DueAt r deadline τ o)
      (only : ∀ t ∈ ts, ∀ o', t.outcome? r = some o' → t.time < deadline → t.time = τ ∧ o' = o)
      (why : (∃ t ∈ ts, t.outcome? r = some o ∧ t.time = τ ∧ τ < deadline) ∨
        τ = deadline ∧ o = .error (.pool (.timeout l)))

theorem Fate.turn (fate : Fate ts e r deadline l) (run : m.Timeline calls w ts e)
    (next : m.InTurn calls e t) (called : r ∈ Turn.submitted ts) :
    Fate (ts ++ [t]) t.after r deadline l := by
  have calm := run.calm next
  have sorted := run.steady.tame.sorted
  cases fate with
  | waits undecided nothing =>
      have late (t' : Turn (CommandResult S ε)) (ht' : t' ∈ ts) {o : Ending (CommandResult S ε)}
          (comes : t'.outcome? r = some o) (early : t'.time < deadline) : False :=
        absurd (nothing t' ht' o comes) (Nat.not_le_of_lt early)
      obtain ⟨o, comes, early, decided⟩ | ⟨nothing', undecided | decided⟩ :=
        calm.proceeds (next.undecided sorted run.future undecided) called
      · refine .decided decided (fun t' ht' o' comes' early' => ?_)
          (.inl ⟨t, by simp, comes, rfl, early⟩)
        obtain earlier | now := List.mem_append.1 ht'
        · exact (late t' earlier comes' early').elim
        · rw [List.mem_singleton] at now
          subst now
          exact ⟨rfl, Option.some.inj (comes'.symm.trans comes)⟩
      · refine .waits undecided fun t' ht' o' comes' => ?_
        obtain earlier | now := List.mem_append.1 ht'
        · exact nothing t' earlier o' comes'
        · rw [List.mem_singleton] at now
          subst now
          exact nothing' o' comes'
      · refine .decided decided (fun t' ht' o' comes' early' => ?_) (.inr ⟨rfl, rfl⟩)
        obtain earlier | now := List.mem_append.1 ht'
        · exact (late t' earlier comes' early').elim
        · rw [List.mem_singleton] at now
          subst now
          exact absurd (nothing' o' comes') (Nat.not_le_of_lt early')
  | decided decided only why =>
      have meets := decided.passes (next.passes sorted run.future)
      refine .decided (calm.decided meets) (fun t' ht' o' comes' early' => ?_) ?_
      · obtain earlier | now := List.mem_append.1 ht'
        · exact only t' earlier o' comes' early'
        · rw [List.mem_singleton] at now
          subst now
          exact absurd (calm.outcome_of_decided meets comes') (Nat.not_le_of_lt early')
      · exact why.imp_left fun ⟨t', ht', rest⟩ => ⟨t', List.mem_append_left _ ht', rest⟩

theorem Fate.between (fate : Fate ts e r deadline l) (between : m.Meantime calls e e') :
    Fate ts e' r deadline l := by
  cases fate with
  | waits undecided nothing => exact .waits (between.undecided undecided) nothing
  | decided decided only why => exact .decided (decided.passes between.passes) only why

theorem Timeline.fate (run : m.Timeline calls w ts e) (hc : call ∈ ts)
    (hs : call.signal = .call r) :
    Fate ts e r (call.time + m.limit (calls r)) (m.limit (calls r)) := by
  induction run with
  | start => cases hc
  | @turn ts e t run next ih =>
      obtain earlier | now := List.mem_append.1 hc
      · exact (ih earlier).turn run next (Turn.mem_submitted.2 ⟨call, earlier, hs⟩)
      · rw [List.mem_singleton] at now
        subst now
        have calm := run.calm next
        have nothing (t : Turn (CommandResult S ε)) (ht : t ∈ ts ++ [call])
            (o : Ending (CommandResult S ε)) : t.outcome? r ≠ some o := by
          intro comes
          obtain earlier | now := List.mem_append.1 ht
          · exact (calm.fit.call r hs).1 (run.sent_of_outcome earlier comes)
          · rw [List.mem_singleton] at now
            subst now
            simp [Turn.outcome?, hs] at comes
        obtain undecided | decided := calm.of_call hs
        · exact .waits undecided fun t ht o comes => absurd comes (nothing t ht o)
        · exact .decided decided (fun t ht o comes => absurd comes (nothing t ht o))
            (.inr ⟨rfl, rfl⟩)
  | between _ between ih => exact (ih hc).between between

/-- What the caller of a command has been told, and when. -/
def commandAnswer? (e : Engine (CommandResult S ε)) (r : Nat) :
    Option (Nat × Except (EngineError ε) (Entity S)) :=
  (e.answer? r).map fun a => (a.1, outcome a.2)

/-- Neither the end of work nor a refusal by the pool is a timeout. -/
theorem outcome_ne_timeout (comes : t.outcome? r = some o) (l : Nat) :
    outcome o ≠ .error (.pool (.timeout l)) := by
  cases hs : t.signal with
  | work r' =>
      simp only [Turn.outcome?, hs, Turn.ends?] at comes
      split at comes
      · obtain ⟨q, _, ran⟩ := Option.bind_eq_some_iff.1 comes
        obtain ⟨x, _, stops⟩ := Option.bind_eq_some_iff.1 ran
        cases pause : (x.advance q.cancelled t.engine.world).2 with
        | finished y =>
            rw [pause, Activity.Pause.end?, Option.some.injEq] at stops
            subst stops
            cases y <;> simp [outcome]
        | panicked =>
            rw [pause, Activity.Pause.end?, Option.some.injEq] at stops
            subst stops
            simp [outcome]
        | asleep =>
            rw [pause] at stops
            cases stops
      · cases comes
  | worker a =>
      simp only [Turn.outcome?, hs] at comes
      split at comes
      · obtain ⟨q, _, refused⟩ := Option.bind_eq_some_iff.1 comes
        split at refused
        · cases refused
        · cases arrives : t.engine.pool.arrive r with
          | mk x p =>
              rw [arrives] at refused
              cases x with
              | refused why =>
                  cases refused
                  obtain rfl | ⟨n, rfl⟩ := Pool.arrive_refused arrives <;> simp [outcome]
              | admitted | inLine => cases refused
      · cases comes
  | call | caller | slot | outcome | close | drained => simp [Turn.outcome?, hs] at comes

/-- In every run of an engine that nobody shuts down, a caller is answered by its deadline at the
latest. What comes of its command before that, the end of its work or a refusal by the pool, it is
told at the moment at which it comes; and if nothing comes before that, it is told of a timeout, at
the deadline and with the limit of the call. No other timeout is ever told, wherever the command has
come to, and whatever was left of the limit when it came to the pool. -/
theorem deadline_is_uniform (w : World) (run : m.Timeline calls w ts e) (hc : call ∈ ts)
    (hs : call.signal = .call r) :
    let limit := m.limit (calls r)
    let deadline := call.time + limit
    (∀ τ x, commandAnswer? e r = some (τ, x) → τ ≤ deadline) ∧
      (e.Past deadline → (commandAnswer? e r).isSome) ∧
      (∀ t ∈ ts, ∀ o, t.outcome? r = some o → t.time < deadline → e.Past t.time →
        commandAnswer? e r = some (t.time, outcome o)) ∧
      ((∀ t ∈ ts, (t.outcome? r).isSome → deadline ≤ t.time) → e.Past deadline →
        commandAnswer? e r = some (deadline, .error (.pool (.timeout limit)))) ∧
      ∀ τ l, commandAnswer? e r = some (τ, .error (.pool (.timeout l))) →
        τ = deadline ∧ l = limit := by
  intro limit deadline
  cases run.fate hc hs with
  | waits undecided nothing =>
      have unreplied : commandAnswer? e r = none := by
        rw [commandAnswer?, undecided.unreplied, Option.map_none]
      refine ⟨fun τ x replied => ?_, fun past => ?_, fun t ht o comes early => ?_, fun _ past => ?_,
        fun τ l replied => ?_⟩
      · cases unreplied.symm.trans replied
      · exact absurd past undecided.not_past
      · exact absurd (nothing t ht o comes) (Nat.not_le_of_lt early)
      · exact absurd past undecided.not_past
      · cases unreplied.symm.trans replied
  | @decided τ o decided only why =>
      have replied (past : e.Past τ) : commandAnswer? e r = some (τ, outcome o) := by
        rw [commandAnswer?, decided.answer past, Option.map_some]
      have known {x : Nat × Except (EngineError ε) (Entity S)}
          (replied : commandAnswer? e r = some x) : x = (τ, outcome o) := by
        obtain ⟨a, answer, rfl⟩ := Option.map_eq_some_iff.1 replied
        rw [decided.answer_eq answer]
      have soon : τ ≤ deadline := by
        obtain ⟨_, _, _, _, early⟩ | ⟨now, _⟩ := why
        · exact Nat.le_of_lt early
        · exact Nat.le_of_eq now
      refine ⟨fun τ' x replied => ?_, fun past => ?_, fun t ht o' comes early past => ?_,
        fun nothing past => ?_, fun τ' l replied => ?_⟩
      · cases known replied
        exact soon
      · rw [replied (past.mono soon)]
        rfl
      · obtain ⟨rfl, rfl⟩ := only t ht o' comes early
        exact replied past
      · obtain ⟨t, ht, comes, rfl, early⟩ | ⟨rfl, rfl⟩ := why
        · have late := nothing t ht (by rw [comes]; rfl)
          omega
        · exact replied past
      · have same := known replied
        rw [Prod.mk.injEq] at same
        obtain ⟨t, _, comes, _⟩ | ⟨rfl, rfl⟩ := why
        · exact absurd same.2.symm (outcome_ne_timeout comes l)
        · refine ⟨same.1, ?_⟩
          have failure := same.2
          simp only [outcome] at failure
          cases failure
          rfl

/-- Six commands of a pool with one slot and room for one in line. One is told of its timeout at
work, one behind it in its lane, one in the line of the pool, and one is turned away; the fifth gets
what its own work came to, and the last, with twenty milliseconds left when it comes to its slot, is
told of its whole limit. -/
theorem one_deadline_in_every_stage :
    let a : AggregateId := ⟨"job", "a"⟩
    let b : AggregateId := ⟨"job", "b"⟩
    let c : AggregateId := ⟨"job", "c"⟩
    let d : Description Unit Unit := ((Description.ofType "job").withSeed fun _ => ()).withCommand
      "wait" .any (fun _ => .ok ()) fun _ _ => .sleep 50 .done
    let m : CommandEngine Unit Unit :=
      ⟨{ pool.maxConcurrency := 1, pool.maxPending := 1 }, d, .direct⟩
    let calls : Nat → CommandCall
      | 0 => ⟨a, "wait", .null, some 30, none⟩
      | 1 => ⟨a, "wait", .null, some 20, none⟩
      | 2 => ⟨b, "wait", .null, some 40, none⟩
      | 3 => ⟨c, "wait", .null, some 100, none⟩
      | 4 => ⟨a, "wait", .null, none, none⟩
      | _ => ⟨a, "wait", .null, some 120, none⟩
    let w : World := { readings := fun n => ⟨n, 0⟩, shares := fun _ => 0 }
    ∃ ts e, m.Timeline calls w ts e ∧
      commandAnswer? e 0 = some (30, .error (.pool (.timeout 30))) ∧
      commandAnswer? e 1 = some (20, .error (.pool (.timeout 20))) ∧
      commandAnswer? e 2 = some (40, .error (.pool (.timeout 40))) ∧
      commandAnswer? e 3 = some (0, .error (.pool (.saturated 1))) ∧
      (∃ x, commandAnswer? e 4 = some (100, .ok x)) ∧
      commandAnswer? e 5 = some (120, .error (.pool (.timeout 120))) := by
  intro a b c d m calls w
  let called (e : Engine _) : Engine _ := (e.spawn (m.request (calls e.requests.length) false)).2
  let e₆ := called (called (called (called (called (called (.ofWorld w m.config.pool))))))
  have spawns {e : Engine _} (run : m.Timeline calls w [] e) : m.Timeline calls w [] (called e) :=
    run.between (.spawn false)
  have spawned : m.Timeline calls w [] e₆ :=
    spawns (spawns (spawns (spawns (spawns (spawns .start)))))
  let ts := [] ++ e₆.turns (quietBefore 130) 80
  let e := e₆.runFor (quietBefore 130) 80
  have run : m.Timeline calls w ts e := spawned.runFor (quietBefore 130) 80
  have calling : ∀ r ∈ [0, 1, 2, 3, 4, 5], ∃ call ∈ ts, call.time = 0 ∧ call.signal = .call r := by
    decide +kernel
  have past : e.Past 120 := by decide +kernel
  have late : ∀ x ∈ [(0, 30), (1, 20), (2, 40), (5, 120)], x.1 ∈ [0, 1, 2, 3, 4, 5] ∧ x.2 ≤ 120 ∧
      m.limit (calls x.1) = x.2 ∧ ∀ t ∈ ts, (t.outcome? x.1).isSome → x.2 ≤ t.time := by
    decide +kernel
  have refused : ∃ t ∈ ts, t.time = 0 ∧ t.outcome? 3 = some (.error (.pool (.saturated 1))) := by
    decide +kernel
  have ends : ∃ t ∈ ts, t.time = 100 ∧ (t.outcome? 4).any (·.toOption.bind (·.toOption) |>.isSome) = true := by
    decide +kernel
  clear_value ts e
  have timedOut (x : Nat × Nat) (hx : x ∈ [(0, 30), (1, 20), (2, 40), (5, 120)]) :
      commandAnswer? e x.1 = some (x.2, .error (.pool (.timeout x.2))) := by
    obtain ⟨known, soon, limit, nothing⟩ := late x hx
    obtain ⟨call, hc, time, hs⟩ := calling x.1 known
    obtain ⟨_, _, _, otherwise, _⟩ := deadline_is_uniform w run hc hs
    rw [time, limit, Nat.zero_add] at otherwise
    exact otherwise nothing (past.mono soon)
  have turnedAway : commandAnswer? e 3 = some (0, .error (.pool (.saturated 1))) := by
    obtain ⟨t, ht, now, comes⟩ := refused
    obtain ⟨call, hc, time, hs⟩ := calling 3 (by simp)
    obtain ⟨_, _, own, _⟩ := deadline_is_uniform w run hc hs
    have answer := own t ht _ comes (by rw [now, time]; decide) (past.mono (by omega))
    rw [now] at answer
    exact answer
  have own : ∃ x, commandAnswer? e 4 = some (100, .ok x) := by
    obtain ⟨t, ht, now, ok⟩ := ends
    obtain ⟨o, comes, ok⟩ := (Option.any_eq_true _ _).1 ok
    obtain ⟨call, hc, time, hs⟩ := calling 4 (by simp)
    obtain ⟨_, _, own, _⟩ := deadline_is_uniform w run hc hs
    have answer := own t ht o comes (by rw [now, time]; decide) (past.mono (by omega))
    rw [now] at answer
    obtain _ | (_ | x) := o
    · cases ok
    · cases ok
    · exact ⟨x, answer⟩
  exact ⟨ts, e, run, timedOut (0, 30) (by simp), timedOut (1, 20) (by simp),
    timedOut (2, 40) (by simp), turnedAway, own, timedOut (5, 120) (by simp)⟩

end EventSourcing.CommandEngine
