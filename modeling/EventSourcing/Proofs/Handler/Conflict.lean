import EventSourcing.Proofs.Handler.Cursor

/-!
Conflicts of executions.
A handler that appends at its cursor never writes behind events that it does not know of: its append
goes through exactly where the head of the log is the one it knows, and once somebody else has
written, it fails until the handler writes with a choice of its own.
-/
namespace EventSourcing

namespace Description
variable {S ε : Type}

/-- Finding the target of a command: an id is looked up now, an entity was loaded at this time. -/
def Finds (d : Description S ε) (w : World) (target : Target S) (found : Option (Entity S))
    (head : Revision) (v : World) : Prop :=
  match target with
  | .id a => (d.findTarget .direct (.id a)).run w = (some (.ok (found, head)), v)
  | .loaded e =>
      (d.load .direct e.aggregate).run w = (some (.ok e), v) ∧ found = some e ∧ head = e.head

variable {d : Description S ε} {w v : World} {target : Target S} {found : Option (Entity S)}
  {head : Revision}

theorem run_findTarget_id {a : AggregateId} (clear : w.link.IsClear)
    (h : (d.findTarget .direct (.id a)).run w = (some (.ok (found, head)), v)) :
    ∃ r, d.replay a (w.log a) = .ok r ∧ found = r.entity? ∧ head = r.head ∧ v = w.loaded := by
  by_cases ht : a.type = d.type
  · rw [findTarget, Activity.run_bind, d.run_loadReplay a clear ht] at h
    cases hr : d.replay a (w.log a) with
    | error err =>
        rw [hr] at h
        cases h
    | ok r =>
        rw [hr] at h
        cases h
        exact ⟨r, rfl, rfl, rfl, rfl⟩
  · rw [findTarget, Folding.loadReplay, if_pos ht] at h
    cases h

/-- What is found has the head of the log as its head. -/
theorem Finds.head_eq (h : d.Finds w target found head v) (clear : w.link.IsClear) :
    v = w.loaded ∧ head = headRevision (w.log target.aggregate) ∧
      ∀ e, found = some e → e.head = head := by
  cases target with
  | id a =>
      obtain ⟨r, hr, rfl, rfl, rfl⟩ := run_findTarget_id clear h
      exact ⟨rfl, Folding.replay_head hr, fun e he => (Folding.entity?_eq_some he).2.1⟩
  | loaded e =>
      obtain ⟨hload, rfl, rfl⟩ := h
      obtain ⟨r, hr, he, _, rfl⟩ := Folding.run_load_eq_ok clear hload
      refine ⟨rfl, ?_, fun e' he' => by cases he'; rfl⟩
      rw [(Folding.entity?_eq_some he).2.1, Folding.replay_head hr]
      rfl

end Description

namespace Execution
variable {ε : Type} {env : CommandEnv} {x y : Execution ε} {batch : List DomainEvent}

theorem append_conflicts (clear : x.world.link.IsClear) (hc : checkBatch batch = .ok ())
    (hne : headRevision (x.world.log env.aggregate) ≠ x.cursor.expected) :
    (x.append env batch).1 = .error
      (.unexpectedRevision env.aggregate x.cursor.expected
        (headRevision (x.world.log env.aggregate))) := by
  rw [append, World.append_of_isClear clear]
  have expects : (x.cursor.trace env (.expect x.cursor.expected)).expected =
      some x.cursor.expected := rfl
  exact congrArg Prod.fst
    (World.commit_of_unexpected (w := x.world.appending) hc expects fun h => hne h.symm)

theorem append_ok_iff (clear : x.world.link.IsClear) (hc : checkBatch batch = .ok ())
    (room : ¬ x.world.RunsOut env.aggregate batch
      (x.cursor.trace env (.expect x.cursor.expected))) :
    (∃ r, (x.append env batch).1 = .ok r) ↔
      headRevision (x.world.log env.aggregate) = x.cursor.expected := by
  constructor
  · rintro ⟨r, hr⟩
    refine Decidable.byContradiction fun hne => ?_
    rw [append_conflicts clear hc hne] at hr
    cases hr
  · intro head
    rw [append, World.append_of_isClear clear]
    obtain hr | he := x.world.appending.commit_ok_or_error env.aggregate batch
      (x.cursor.trace env (.expect x.cursor.expected))
    · exact hr
    · have allowed : (x.cursor.trace env (.expect x.cursor.expected)).Allows
          (headRevision (x.world.log env.aggregate)) := by
        intro r hr
        cases hr
        exact head.symm
      exact absurd ((World.commit_error_iff (w := x.world.appending) hc allowed).2.1 he) room

theorem failed_append (clear : x.world.link.IsClear) {d : StoreStep} (h : Own env x d y)
    (hd : d.IsFailedAppend) : y.cursor = x.cursor ∧ ∀ b, y.world.log b = x.world.log b := by
  obtain ⟨change, _⟩ := change_of_own clear h
  cases change with
  | quiet _ cursor logs => exact ⟨cursor, logs⟩
  | own | free | foreign => cases hd

/-- A command is carried out by the program of its handler. Its activity, whatever others do between
two of its steps, makes the appends of an execution of the program, with the same answers, and
leaves the same world; and each execution is such a course. In all of them the cursor is the head
that was found with the entity or the one that the handler's own last append left; an append at the
cursor goes through exactly where that is the head of the log; a failed append changes neither
cursor nor logs, so that after a write of others all appends at the cursor fail until the handler
writes with a choice of its own; and what it wrote at its cursor stands in one block behind the log
that was found. -/
theorem appends_never_interleave {S : Type} (d : Description S ε) (q : CommandRequest S)
    (program : Option (Entity S) → Program ε) (fresh : Ulid) (w : World)
    (empty : w.store.logs = ∅) (clear : w.link.IsClear) (history : List StoreOp)
    {found : Option (Entity S)} {head : Revision} {v : World}
    (finds : d.Finds (w.after history) q.target found head v) :
    let a := q.target.aggregate
    let env := CommandEnv.make a q.command fresh q.correlation
    (d.execute .direct q program found head = .draw fun fresh =>
      ((program found).run .direct (.make a q.command fresh q.correlation) (.atHead head)).bind
        (d.answer .direct a found)) ∧
    (head = headRevision (v.log a) ∧ ∀ e, found = some e → e.head = head) ∧
    (∀ calls act u,
      (∃ ts, ((program found).run .direct env (.atHead head)).Among World.Alongside v ts act u ∧
        ts.map Attempt.call = calls) ↔
      ∃ steps x, Run env ⟨program found, .atHead head, v⟩ steps x ∧
        steps.filterMap (StoreStep.call? a) = calls ∧
        x.program.run .direct env x.cursor = act ∧ x.world = u) ∧
    ∀ steps x, Run env ⟨program found, .atHead head, v⟩ steps x →
      (x.cursor.expected = ((steps.filterMap StoreStep.revision?).getLast?).getD head ∧
        x.cursor.appends = (steps.filterMap StoreStep.revision?).length) ∧
      (∀ batch, batch ≠ [] → (∀ e ∈ batch, e.type ≠ "") →
        ¬ x.world.RunsOut a batch (x.cursor.trace env (.expect x.cursor.expected)) →
        ((∃ r, (x.append env batch).1 = .ok r) ↔
          headRevision (x.world.log a) = x.cursor.expected)) ∧
      (∀ step y, Own env x step y → step.IsFailedAppend →
        y.cursor = x.cursor ∧ ∀ b, y.world.log b = x.world.log b) ∧
      (StoreStep.Overtaken a steps → ∀ batch, batch ≠ [] → (∀ e ∈ batch, e.type ≠ "") →
        (x.append env batch).1 = .error (.unexpectedRevision a x.cursor.expected
          (headRevision (x.world.log a)))) ∧
      ((∀ step ∈ steps, ¬ step.IsFreeWrite) → ∃ own rest,
        x.world.log a = v.log a ++ own ++ rest ∧
          own.map RecordedEvent.toDomain = (steps.map StoreStep.written).flatten) := by
  intro a env
  have ordered (b : AggregateId) : Ordered ((w.after history).log b) :=
    ordered_of_empty empty history b
  have linked : (w.after history).link.IsClear := by
    rw [World.link_after]
    exact clear
  obtain ⟨rfl, rfl, entity⟩ := finds.head_eq linked
  refine ⟨rfl, ⟨rfl, entity⟩, fun calls act u => among_iff_run env ⟨program found, _, _⟩,
    fun steps x run => ?_⟩
  have follows : Follows env ((w.after history).log a) steps x :=
    Follows.run (w := (w.after history).loaded) (World.isClear_loaded linked) ordered run
  refine ⟨⟨follows.cursor, follows.appends⟩, ?_, ?_, ?_, ?_⟩
  · intro batch nonempty named room
    exact append_ok_iff follows.clear (checkBatch_eq_ok.2 ⟨nonempty, named⟩) room
  · intro step y own failed
    exact failed_append follows.clear own failed
  · intro overtaken batch nonempty named
    refine append_conflicts follows.clear (checkBatch_eq_ok.2 ⟨nonempty, named⟩) fun same => ?_
    have below := follows.overtaken overtaken
    rw [same] at below
    exact Revision.lt_irrefl _ below
  · intro bound
    obtain ⟨own, rest, log, written, _⟩ := follows.block bound
    exact ⟨own, rest, log, written⟩

/-- A handler that appends twice, with a write of somebody else in between: the activity of its
program can come to its end so that the second append is told of the conflict, and the first stands
right behind the empty log that was found. -/
theorem second_append_conflicts :
    let w : World := { readings := fun n => ⟨n, 0⟩, shares := fun _ => 0 }
    let a : AggregateId := ⟨"account", "1"⟩
    let e : DomainEvent := ⟨"noted", .null⟩
    let env : CommandEnv := .make a "note" .nil none
    let program : Program String := .append [e] fun _ => .append [e] fun _ => .done
    ∃ r c ts u,
      (program.run .direct env (.atHead .initial)).Among World.Alongside w.loaded ts
        (.done (.ok (), c)) u ∧
      ts.map Attempt.call = [⟨a, [e], .ok r⟩,
        ⟨a, [e], .error (.unexpectedRevision a r (headRevision (u.log a)))⟩] ∧
      c.expected = r ∧ c.appends = 1 ∧
      ∃ own rest, u.log a = own ++ rest ∧ own.map RecordedEvent.toDomain = [e] := by
  intro w a e env program
  let d : Description Unit String := .ofType "account"
  let q : CommandRequest Unit := ⟨"note", .id a, .null, none⟩
  have finds : d.Finds (w.after []) q.target none .initial w.loaded := rfl
  obtain ⟨_, _, courses, laws⟩ :=
    appends_never_interleave d q (fun _ => program) .nil w rfl ⟨rfl, rfl, rfl⟩ [] finds
  let first : Execution String := ⟨program, .atHead .initial, w.loaded⟩
  let between : Execution String :=
    ⟨.append [e] fun _ => .done, first.cursor.after (first.append env [e]).1,
      (first.append env [e]).2⟩
  let second := { between with world := (between.world.commit a [e] {}).2 }
  have again := @Own.append String env second [e] (fun _ => .done) rfl
  have upTo : Run env first
      [.own [e] (first.append env [e]).1, .foreign a [e] {} (between.world.commit a [e] {}).1]
      second :=
    .meanwhile (.own .start (.append first [e] _ rfl)) (.append between a [e] {})
  have whole := upTo.own again
  obtain ⟨r, hr⟩ := exists_ok (x := (first.append env [e]).1) (by decide +kernel)
  obtain ⟨s, hs⟩ := exists_ok (x := (between.world.commit a [e] {}).1) (by decide +kernel)
  rw [hr, hs] at upTo whole
  have overtaken : StoreStep.Overtaken a [.own [e] (.ok r), .foreign a [e] {} (.ok s)] :=
    ⟨[.own [e] (.ok r)], .foreign a [e] {} (.ok s), [], rfl, rfl, List.forall_mem_nil _⟩
  obtain ⟨⟨cursor, _⟩, _, failed, conflicts, _⟩ := laws _ _ upTo
  have conflict : (second.append env [e]).1 = .error
      (.unexpectedRevision a second.cursor.expected (headRevision (second.world.log a))) :=
    conflicts overtaken [e] (by simp) (by simp [e])
  rw [show second.cursor.expected = r from cursor] at conflict
  rw [conflict] at again whole
  obtain ⟨_, logs⟩ := failed _ _ again trivial
  obtain ⟨⟨expected, appends⟩, _, _, _, block⟩ := laws _ _ whole
  obtain ⟨ts, among, calls⟩ := (courses _ _ _).2 ⟨_, _, whole, rfl, rfl, rfl⟩
  refine ⟨r, _, ts, _, among, ?_, expected, appends, block ?_⟩
  · rw [logs a]
    exact calls
  · simp [StoreStep.IsFreeWrite]

end Execution
end EventSourcing
