import EventSourcing.Proofs.Entity.Replay
import EventSourcing.Proofs.Handler.Conflict
import EventSourcing.Proofs.Handler.Foreign
import EventSourcing.Proofs.Handler.Traffic

/-!
What a dispatch leaves in the store, and what it answers.
Without other writers the log of the target gains the batches of those appends of the handler that
went through, whatever became of the others and of the handler itself, and no other log changes. An
entity that is answered is the one that a load finds right afterwards: either nothing was written,
and it is as it was found, or it was loaded after the last append.
-/
namespace EventSourcing

/-- An append to one log writes nothing to another, not even to one whose aggregate has the same
text. -/
theorem Exchange.written_of_ne {a b : AggregateId} {x : Exchange} (h : x.AppendsTo a)
    (other : b ≠ a) : x.written b = [] := by
  cases x with
  | load => cases h
  | append c batch o answer =>
      cases answer with
      | error e => rfl
      | ok r =>
          obtain rfl : c = a := h
          exact if_neg (Ne.symm other)

theorem Exchange.written_of_not_appended {b : AggregateId} {x : Exchange}
    (h : x.appended = false) : x.written b = [] := by
  cases x with
  | load => rfl
  | append c batch o answer =>
      cases answer with
      | error e => rfl
      | ok r => cases h

namespace Folding
variable {S : Type} (f : Folding S) (a : AggregateId) {w v : World}

/-- A load changes no log. -/
theorem run_load_quiet (clear : w.link.IsClear) :
    ∃ r u, (f.load .direct a).run w = (some r, u) ∧ u.log = w.log ∧ u.link.IsClear := by
  by_cases own : a.type = f.type
  · exact ⟨_, w.loaded, f.run_load a clear own, rfl, World.isClear_loaded clear⟩
  · rw [load_foreign own]
    exact ⟨_, w, rfl, rfl, clear⟩

/-- What a load finds depends on the log alone. -/
theorem run_load_congr (clear : w.link.IsClear) (clear' : v.link.IsClear)
    (same : v.log a = w.log a) : ((f.load .direct a).run v).1 = ((f.load .direct a).run w).1 := by
  by_cases own : a.type = f.type
  · rw [f.run_load a clear own, f.run_load a clear' own, same]
  · rw [load_foreign own]
    rfl

end Folding

namespace Description
variable {S ε : Type} {d : Description S ε} {q : CommandRequest S} {w v : World}

/-- What the handler of a dispatch asks of the store; nothing where it is not started. -/
def handling (d : Description S ε) (q : CommandRequest S) (w : World) : List Exchange :=
  match d.prepare q, (d.findTarget .direct q.target).run w with
  | .ok program, (some (.ok (found, head)), v) =>
    ((program found).run .direct (envOf q v) (.atHead head)).exchanges v.draw.2
  | _, _ => []

/-- The target is an id, or an entity that a load would give now, as it gave it a moment ago. -/
def IsCurrent (d : Description S ε) (target : Target S) (w : World) : Prop :=
  match target with
  | .id _ => True
  | .loaded e => ((d.load .direct e.aggregate).run w).1 = some (.ok e)

/-- An entity that was just loaded is current. -/
theorem isCurrent_of_load {e : Entity S} (clear : w.link.IsClear)
    (h : (d.load .direct e.aggregate).run w = (some (.ok e), v)) : d.IsCurrent (.loaded e) v := by
  obtain ⟨r, u, run, same, clear'⟩ := d.run_load_quiet e.aggregate clear
  rw [h] at run
  cases run
  rw [IsCurrent, d.run_load_congr e.aggregate clear clear' (congrFun same _), h]

theorem handling_appends (d : Description S ε) (q : CommandRequest S) (w : World) :
    ∀ x ∈ d.handling q w, x.AppendsTo q.target.aggregate := by
  rw [handling]
  split
  · exact (Program.plays_appends _ (Activity.plays_run _ _)).1
  · exact List.forall_mem_nil _

/-- Looking up the target changes no log. -/
theorem run_findTarget_quiet (d : Description S ε) (target : Target S) (clear : w.link.IsClear) :
    ∃ r v, (d.findTarget .direct target).run w = (some r, v) ∧ v.log = w.log ∧ v.link.IsClear := by
  cases target with
  | loaded e => exact ⟨_, w, rfl, rfl, clear⟩
  | id a =>
      by_cases own : a.type = d.type
      · rw [findTarget, Activity.run_bind, d.run_loadReplay a clear own]
        cases d.replay a (w.log a) <;>
          exact ⟨_, w.loaded, rfl, rfl, World.isClear_loaded clear⟩
      · rw [findTarget_foreign own]
        exact ⟨_, w, rfl, rfl, clear⟩

/-- What is found is what a load would give. -/
theorem found_is_current {found : Option (Entity S)} {head : Revision} (clear : w.link.IsClear)
    (current : d.IsCurrent q.target w)
    (h : (d.findTarget .direct q.target).run w = (some (.ok (found, head)), v)) {e : Entity S}
    (he : found = some e) : ((d.load .direct q.target.aggregate).run w).1 = some (.ok e) := by
  generalize q.target = target at current h
  cases target with
  | loaded e' =>
      cases h
      cases he
      exact current
  | id a =>
      rw [Target.aggregate]
      by_cases own : a.type = d.type
      · rw [d.run_load a clear own]
        obtain ⟨r, replayed, rfl, _, _⟩ := run_findTarget_id clear h
        rw [replayed]
        simp only [he]
      · rw [findTarget_foreign own] at h
        cases h

/-- The answer after the handler changes no log. It is the entity as it was found, where the handler
has written nothing, or what a load gives. -/
theorem run_answer_quiet (d : Description S ε) (a : AggregateId) (found : Option (Entity S))
    (ended : Except (CommandError ε) Unit × AppendCursor) (clear : w.link.IsClear) :
    ∃ r v, (d.answer .direct a found ended).run w = (some r, v) ∧ v.log = w.log ∧
      ∀ e, r = .ok e → (ended.2.appends = 0 ∧ found = some e) ∨
        ((d.load .direct a).run w).1 = some (.ok e) := by
  obtain ⟨x | u, c⟩ := ended
  · exact ⟨_, w, rfl, rfl, fun e he => by cases he⟩
  · rw [answer.eq_def]
    dsimp only
    by_cases silent : c.appends = 0
    · rw [if_pos silent]
      cases found with
      | none => exact ⟨_, w, rfl, rfl, fun e he => by cases he⟩
      | some e =>
          refine ⟨_, w, rfl, rfl, fun e' he => .inl ⟨silent, ?_⟩⟩
          cases he
          rfl
    · rw [if_neg silent, Activity.run_bind]
      obtain ⟨r, v, run, same, _⟩ := d.run_load_quiet a clear
      rw [run]
      refine ⟨_, v, rfl, same, fun e he => .inr ?_⟩
      cases r with
      | error x => cases he
      | ok e' =>
          cases he
          rfl

/-- What a run of a dispatch leaves in the logs, and what it answers. -/
structure Stored (d : Description S ε) (q : CommandRequest S) (w : World)
    (ran : Option (Except (CommandError ε) (Entity S)) × World) : Prop where
  gained : ∀ b, World.Gained b ((d.handling q w).flatMap (Exchange.written b)) w ran.2
  /-- An entity that is answered is found by a load where the log is still the same. -/
  answered : ∀ e, ran.1 = some (.ok e) → ∀ v, v.link.IsClear →
    v.log q.target.aggregate = ran.2.log q.target.aggregate →
    ((d.load .direct q.target.aggregate).run v).1 = some (.ok e)

/-- A run that ends before the handler is started. -/
theorem stored_of_unstarted (unstarted : d.handling q w = []) (x : CommandError ε)
    (same : v.log = w.log) : d.Stored q w (some (.error x), v) where
  gained b := by
    rw [unstarted]
    exact World.gained_nil (congrFun same b)
  answered e he := by cases he

/-- Where no append went through nothing was written. -/
theorem handling_silent (silent : ∀ x ∈ d.handling q w, x.appended = false) (b : AggregateId) :
    (d.handling q w).flatMap (Exchange.written b) = [] := by
  rw [List.flatMap_eq_nil_iff]
  intro x hx
  exact Exchange.written_of_not_appended (silent x hx)

theorem stored_execute {program : Option (Entity S) → Program ε} {found : Option (Entity S)}
    {head : Revision} (clear : w.link.IsClear) (clear' : v.link.IsClear)
    (current : d.IsCurrent q.target w) (prepared : d.prepare q = .ok program)
    (looked : (d.findTarget .direct q.target).run w = (some (.ok (found, head)), v))
    (same : v.log = w.log) :
    d.Stored q w ((d.execute .direct q program found head).run v) := by
  let handler := (program found).run .direct (envOf q v) (.atHead head)
  have executed : (d.execute .direct q program found head).run v =
      (handler.bind (d.answer .direct q.target.aggregate found)).run v.draw.2 := rfl
  have exchanges : d.handling q w = handler.exchanges v.draw.2 := by
    rw [handling, prepared, looked]
  have drawn : v.draw.2.link.IsClear := clear'
  have gained (b : AggregateId) :
      World.Gained b ((d.handling q w).flatMap (Exchange.written b)) w
        (handler.run v.draw.2).2 := by
    obtain ⟨recorded, logs, events⟩ := handler.run_gained drawn b
    rw [← exchanges] at events
    refine ⟨recorded, ?_, events⟩
    rw [logs, ← same]
    rfl
  have played := handler.plays_run v.draw.2
  have clear_after := handler.isClear_run drawn
  rw [executed, Activity.run_bind]
  rcases ran : handler.run v.draw.2 with ⟨_ | ⟨r, c⟩, u⟩
  all_goals rw [ran] at gained played clear_after
  · exact ⟨gained, fun e he => by cases he⟩
  · obtain ⟨ans, t, run, kept, final⟩ :=
      d.run_answer_quiet q.target.aggregate found (r, c) clear_after
    have counted := (Program.plays_appends _ played).2 r c rfl
    dsimp only at run ⊢
    rw [run]
    refine ⟨fun b => ?_, fun e he later clear_later unchanged => ?_⟩
    · obtain ⟨recorded, logs, events⟩ := gained b
      exact ⟨recorded, (congrFun kept b).trans logs, events⟩
    · have unchanged := unchanged.trans (congrFun kept _)
      obtain ⟨none, here⟩ | loaded := final e (Option.some.inj he)
      · have silent : ∀ x ∈ d.handling q w, x.appended = false := by
          have zero : List.countP Exchange.appended (d.handling q w) = 0 := by
            rw [exchanges, ← Nat.zero_add (List.countP ..)]
            exact counted.symm.trans none
          intro x hx
          exact Bool.eq_false_iff.2 (List.countP_eq_zero.1 zero x hx)
        obtain ⟨recorded, logs, events⟩ := gained q.target.aggregate
        rw [handling_silent silent, List.map_eq_nil_iff] at events
        rw [events, List.append_nil] at logs
        rw [d.run_load_congr _ clear clear_later (unchanged.trans logs)]
        exact found_is_current clear current looked here
      · rw [d.run_load_congr _ clear_after clear_later unchanged]
        exact loaded

theorem stored_carryOut (d : Description S ε) (q : CommandRequest S) (clear : w.link.IsClear)
    (current : d.IsCurrent q.target w) : d.Stored q w ((d.carryOut .direct q).run w) := by
  rw [carryOut]
  cases prepared : d.prepare q with
  | error x => exact stored_of_unstarted (by rw [handling, prepared]) x rfl
  | ok program =>
      obtain ⟨r, v, looked, same, clear'⟩ := d.run_findTarget_quiet q.target clear
      dsimp only
      rw [Activity.run_bind, looked]
      obtain x | ⟨found, head⟩ := r
      · exact stored_of_unstarted (by rw [handling, prepared, looked]) x same
      · exact stored_execute clear clear' current prepared looked same

/-- Without other writers the log of the target of a dispatch gains the batches of its handler's
successful appends in their order, and no other log changes, however the dispatch ends. An entity
that it answers is the one that a load finds right afterwards. -/
theorem dispatch_returns_what_is_stored (d : Description S ε) (q : CommandRequest S)
    (clear : w.link.IsClear) (current : d.IsCurrent q.target w) :
    let v := ((d.dispatch .direct q).run w).2
    (∃ recorded, v.log q.target.aggregate = w.log q.target.aggregate ++ recorded ∧
      recorded.map RecordedEvent.toDomain =
        (d.handling q w).flatMap (Exchange.written q.target.aggregate)) ∧
    (∀ b, b ≠ q.target.aggregate → v.log b = w.log b) ∧
    ∀ e, ((d.dispatch .direct q).run w).1 = some (.ok e) →
      ((d.load .direct q.target.aggregate).run v).1 = some (.ok e) := by
  intro v
  have stored := d.stored_carryOut q clear current
  obtain ⟨answer, store⟩ := d.run_dispatch .direct q w
  have logs : v.log = ((d.carryOut .direct q).run w).2.log := by
    funext b
    rw [World.log, store, World.log]
  refine ⟨?_, fun b other => ?_, fun e he => ?_⟩
  · rw [logs]
    exact stored.gained _
  · obtain ⟨recorded, gained, events⟩ := stored.gained b
    have silent : (d.handling q w).flatMap (Exchange.written b) = [] := by
      rw [List.flatMap_eq_nil_iff]
      intro x hx
      exact Exchange.written_of_ne (d.handling_appends q w x hx) other
    rw [silent, List.map_eq_nil_iff] at events
    rw [logs, gained, events, List.append_nil]
  · rw [answer] at he
    exact stored.answered e he v ((d.dispatch .direct q).isClear_run clear) (congrFun logs _)

/-- Two more notes are taken on a tally that was just loaded, and the append that fails between them
leaves nothing. -/
theorem notes_are_added_to_a_loaded_tally :
    let a : AggregateId := ⟨"tally", "1"⟩
    let e : Entity Nat := ⟨a, "tally", 2, ⟨.ofParts 5 7⟩, ⟨.ofParts 5 7⟩⟩
    let start : World := { readings := fun n => ⟨n, 7⟩, shares := fun _ => 0 }
    let w := ((tally.load .direct a).run ((tally.dispatch .direct noting).run start).2).2
    let q : CommandRequest Nat := { noting with target := .loaded e }
    let v := ((tally.dispatch .direct q).run w).2
    w.link.IsClear ∧ tally.IsCurrent q.target w ∧
      (∃ recorded, v.log a = w.log a ++ recorded ∧
        (recorded.map RecordedEvent.toDomain).map DomainEvent.type = ["noted", "noted"]) ∧
      ∃ e', ((tally.dispatch .direct q).run w).1 = some (.ok e') ∧ e'.state = 4 ∧
        ((tally.load .direct a).run v).1 = some (.ok e') := by
  intro a e start w q v
  let noted := ((tally.dispatch .direct noting).run start).2
  have clear_noted : noted.link.IsClear :=
    Activity.isClear_run _ (⟨rfl, rfl, rfl⟩ : start.link.IsClear)
  have clear : w.link.IsClear := Activity.isClear_run _ clear_noted
  have current : tally.IsCurrent q.target w := by
    have loaded : ((tally.load .direct a).run noted).1.bind Except.toOption = some e := by
      decide +kernel
    have run : ((tally.load .direct a).run noted).1 = some (.ok e) := by
      rcases h : ((tally.load .direct a).run noted).1 with _ | _ | e'
      all_goals rw [h] at loaded
      · cases loaded
      · cases loaded
      · exact congrArg _ (congrArg _ (Option.some.inj loaded))
    exact isCurrent_of_load clear_noted (Prod.ext run rfl)
  have answered : ((tally.dispatch .direct q).run w).1.bind (fun r => r.toOption.map Entity.state) =
      some 4 := by decide +kernel
  have types : ((tally.handling q w).flatMap (Exchange.written a)).map DomainEvent.type =
      ["noted", "noted"] := by decide +kernel
  obtain ⟨⟨recorded, logs, events⟩, _, found⟩ :=
    tally.dispatch_returns_what_is_stored q clear current
  refine ⟨clear, current, ⟨recorded, logs, ?_⟩, ?_⟩
  · rw [events]
    exact types
  · rcases h : ((tally.dispatch .direct q).run w).1 with _ | _ | e'
    all_goals rw [h] at answered
    · cases answered
    · cases answered
    · exact ⟨e', rfl, Option.some.inj answered, found e' h⟩

end Description
end EventSourcing
