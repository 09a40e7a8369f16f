import EventSourcing.Proofs.Entity.Replay
import EventSourcing.Proofs.Handler.Execution
import EventSourcing.Proofs.Store.History

/-!
The cursor of an execution.
Along every execution the cursor stands on a head that the log has had: the one found with the
entity, or the one that the last successful append of the handler left. So an append at the cursor
goes through exactly while nobody else has written since.
-/
namespace EventSourcing

namespace StoreStep
variable {d : StoreStep}

theorem revision?_of_not_isWrite (h : ¬ d.IsWrite) : d.revision? = none := by
  cases d with
  | nothing => rfl
  | own batch r | free batch o r =>
      cases r with
      | ok r => exact absurd trivial h
      | error e => rfl
  | foreign a batch o r => rfl

theorem written_of_not_isWrite (h : ¬ d.IsWrite) : d.written = [] := by
  cases d with
  | nothing => rfl
  | own batch r =>
      cases r with
      | ok r => exact absurd trivial h
      | error e => rfl
  | free batch o r | foreign a batch o r => rfl

theorem isWrite_of_isForeignWrite {a : AggregateId} (h : d.IsForeignWrite a) : d.IsWrite := by
  cases d with
  | nothing => exact h
  | own batch r | free batch o r => cases h
  | foreign b batch o r =>
      cases r with
      | ok r => trivial
      | error e => cases h

/-- Somebody else has written, and since then the handler has not written with a choice of its
own. -/
def Overtaken (a : AggregateId) (steps : List StoreStep) : Prop :=
  ∃ before d after, steps = before ++ d :: after ∧ d.IsForeignWrite a ∧
    ∀ d' ∈ after, ¬ d'.IsFreeWrite

theorem overtaken_nil {a : AggregateId} : ¬ Overtaken a [] := by
  rintro ⟨before, d, after, h, _⟩
  simp at h

theorem overtaken_snoc {a : AggregateId} {steps : List StoreStep} {d : StoreStep}
    (h : Overtaken a (steps ++ [d])) :
    d.IsForeignWrite a ∨ Overtaken a steps ∧ ¬ d.IsFreeWrite := by
  obtain ⟨before, f, after, heq, hf, hafter⟩ := h
  obtain ⟨_, rfl, _⟩ | ⟨init, rfl, rfl⟩ := concat_eq_append_cons heq
  · exact .inl hf
  · exact .inr ⟨⟨before, f, init, rfl, hf, fun d' hd' => hafter d' (by simp [hd'])⟩,
      hafter d (by simp)⟩

/-- The head that the handler knows of after some deeds. -/
def known (head : Revision) (steps : List StoreStep) : Revision :=
  ((steps.filterMap revision?).getLast?).getD head

theorem known_snoc (head : Revision) (steps : List StoreStep) (d : StoreStep) :
    known head (steps ++ [d]) = d.revision?.getD (known head steps) := by
  cases h : d.revision? <;> simp [known, List.filterMap_append, h]

end StoreStep

namespace Execution
variable {ε : Type} {env : CommandEnv} {x y : Execution ε} {d : StoreStep}

/-- What a step may change in the cursor and the logs. -/
inductive Change (env : CommandEnv) (x : Execution ε) : StoreStep → Execution ε → Prop where
  | quiet {d : StoreStep} {y : Execution ε} (hd : ¬ d.IsWrite) (cursor : y.cursor = x.cursor)
      (logs : ∀ b, y.world.log b = x.world.log b) : Change env x d y
  | own {batch : List DomainEvent} {r : Revision} {y : Execution ε}
      (head : x.cursor.expected = headRevision (x.world.log env.aggregate))
      (cursor : y.cursor = x.cursor.moved r)
      (wrote : x.world.Wrote env.aggregate batch r y.world) : Change env x (.own batch (.ok r)) y
  | free {batch : List DomainEvent} {o : AppendOptions} {r : Revision} {y : Execution ε}
      (cursor : y.cursor = x.cursor.moved r)
      (wrote : x.world.Wrote env.aggregate batch r y.world) :
      Change env x (.free batch o (.ok r)) y
  | foreign {b : AggregateId} {batch : List DomainEvent} {o : AppendOptions} {r : Revision}
      {y : Execution ε} (cursor : y.cursor = x.cursor)
      (wrote : x.world.Wrote b batch r y.world) : Change env x (.foreign b batch o (.ok r)) y

theorem change_of_own (clear : x.world.link.IsClear) (h : Own env x d y) :
    Change env x d y ∧ y.world.link.IsClear := by
  cases h with
  | env k c w | appends k c w | note n k c w => exact ⟨.quiet id rfl fun b => rfl, clear⟩
  | sleep ms t k c w h => exact ⟨.quiet id rfl fun b => rfl, clear⟩
  | append _ batch k hp =>
      refine ⟨?_, World.isClear_append clear⟩
      cases hr : (x.append env batch).1 with
      | ok r =>
          obtain ⟨allowed, wrote⟩ := World.wrote_append clear hr
          exact .own (allowed _ rfl) rfl wrote
      | error e => exact .quiet id rfl (World.log_append_error clear hr)
  | appendWith _ batch o k hp =>
      refine ⟨?_, World.isClear_append clear⟩
      cases hr : (x.appendWith env batch o).1 with
      | ok r => exact .free rfl (World.wrote_append clear hr).2
      | error e => exact .quiet id rfl (World.log_append_error clear hr)

variable (env) in
theorem change_of_meanwhile (clear : x.world.link.IsClear) (h : Meanwhile x d y) :
    Change env x d y ∧ y.world.link.IsClear := by
  cases h with
  | append a batch o =>
      refine ⟨?_, by rw [World.link_commit]; exact clear⟩
      cases hr : (x.world.commit a batch o).1 with
      | ok r => exact .foreign rfl (World.wrote_commit hr).2
      | error e => exact .quiet id rfl (World.log_commit_error hr)
  | other v quiet link => exact ⟨.quiet id rfl (congrFun quiet), link clear⟩

/-- What holds along every execution that began with a given log. -/
structure Follows (env : CommandEnv) (begun : List RecordedEvent) (steps : List StoreStep)
    (x : Execution ε) : Prop where
  clear : x.world.link.IsClear
  ordered : ∀ a, Ordered (x.world.log a)
  cursor : x.cursor.expected = StoreStep.known (headRevision begun) steps
  appends : x.cursor.appends = (steps.filterMap StoreStep.revision?).length
  /-- The cursor stands on a head that the log has had. -/
  seen : ∃ part, part <+: x.world.log env.aggregate ∧ headRevision part = x.cursor.expected
  overtaken : StoreStep.Overtaken env.aggregate steps →
    x.cursor.expected < headRevision (x.world.log env.aggregate)
  block : (∀ d ∈ steps, ¬ d.IsFreeWrite) → ∃ own rest,
    x.world.log env.aggregate = begun ++ own ++ rest ∧
      own.map RecordedEvent.toDomain = (steps.map StoreStep.written).flatten ∧
      headRevision (begun ++ own) = x.cursor.expected

namespace Follows
variable {begun : List RecordedEvent} {steps : List StoreStep}

theorem start {program : Program ε} {w : World} (clear : w.link.IsClear)
    (ordered : ∀ a, Ordered (w.log a)) :
    Follows env (w.log env.aggregate) []
      ⟨program, .atHead (headRevision (w.log env.aggregate)), w⟩ where
  clear := clear
  ordered := ordered
  cursor := rfl
  appends := rfl
  seen := ⟨_, List.prefix_rfl, rfl⟩
  overtaken h := absurd h StoreStep.overtaken_nil
  block _ := ⟨[], [], by simp, rfl, by rw [List.append_nil]; rfl⟩

/-- A step that writes nothing of the handler's keeps what is known of the cursor; it stays on a
head that the log has had, since logs only grow. -/
theorem stay (h : Follows env begun steps x) (clear : y.world.link.IsClear)
    (ordered : ∀ a, Ordered (y.world.log a)) (cursor : y.cursor = x.cursor)
    (hr : d.revision? = none) (hw : d.written = [])
    (grows : x.world.log env.aggregate <+: y.world.log env.aggregate)
    (overtaken : StoreStep.Overtaken env.aggregate (steps ++ [d]) →
      x.cursor.expected < headRevision (y.world.log env.aggregate)) :
    Follows env begun (steps ++ [d]) y where
  clear := clear
  ordered := ordered
  cursor := by rw [cursor, h.cursor, StoreStep.known_snoc, hr, Option.getD_none]
  appends := by rw [cursor, h.appends]; simp [List.filterMap_append, hr]
  seen := by
    obtain ⟨part, hpart, hhead⟩ := h.seen
    exact ⟨part, hpart.trans grows, by rw [hhead, cursor]⟩
  overtaken ho := by
    rw [cursor]
    exact overtaken ho
  block free := by
    obtain ⟨own, rest, hlog, hown, hhead⟩ := h.block fun d hd => free d (by simp [hd])
    obtain ⟨more, hmore⟩ := grows
    refine ⟨own, rest ++ more, ?_, ?_, by rw [hhead, cursor]⟩
    · rw [← hmore, hlog, List.append_assoc]
    · simp [hown, hw]

/-- A step that writes leaves the cursor on the head of the log. -/
theorem write {batch : List DomainEvent} {r : Revision} (h : Follows env begun steps x)
    (clear : y.world.link.IsClear) (cursor : y.cursor = x.cursor.moved r)
    (wrote : x.world.Wrote env.aggregate batch r y.world) (hr : d.revision? = some r)
    (overtaken : ¬ StoreStep.Overtaken env.aggregate (steps ++ [d]))
    (block : (∀ d' ∈ steps ++ [d], ¬ d'.IsFreeWrite) → ∃ own,
      y.world.log env.aggregate = begun ++ own ∧
        own.map RecordedEvent.toDomain = ((steps ++ [d]).map StoreStep.written).flatten) :
    Follows env begun (steps ++ [d]) y where
  clear := clear
  ordered := wrote.ordered h.ordered
  cursor := by rw [cursor, StoreStep.known_snoc, hr]; rfl
  appends := by simp [cursor, AppendCursor.moved, h.appends, List.filterMap_append, hr]
  seen := ⟨_, List.prefix_rfl, by rw [wrote.head_eq, cursor]; rfl⟩
  overtaken ho := absurd ho overtaken
  block free := by
    obtain ⟨own, hlog, hown⟩ := block free
    refine ⟨own, [], by rw [hlog, List.append_nil], hown, ?_⟩
    rw [← hlog, wrote.head_eq, cursor]
    rfl

/-- An append at the cursor goes through at the head only, so that nobody has written behind the
block; and what others write lies above all that the handler has seen. -/
theorem step (h : Follows env begun steps x) (change : Change env x d y)
    (clear : y.world.link.IsClear) : Follows env begun (steps ++ [d]) y := by
  cases change with
  | quiet hd cursor logs =>
      refine h.stay clear (fun a => by rw [logs]; exact h.ordered a) cursor
        (StoreStep.revision?_of_not_isWrite hd) (StoreStep.written_of_not_isWrite hd)
        ((logs env.aggregate).symm ▸ List.prefix_rfl) fun ho => ?_
      rw [logs]
      obtain hf | ⟨hb, _⟩ := StoreStep.overtaken_snoc ho
      · exact absurd (StoreStep.isWrite_of_isForeignWrite hf) hd
      · exact h.overtaken hb
  | @own batch r _ head cursor wrote =>
      refine h.write clear cursor wrote rfl (fun ho => ?_) fun free => ?_
      · obtain hf | ⟨hb, _⟩ := StoreStep.overtaken_snoc ho
        · cases hf
        · have below := h.overtaken hb
          rw [head] at below
          exact Revision.lt_irrefl _ below
      · obtain ⟨own, rest, hlog, hown, hhead⟩ := h.block fun d hd => free d (by simp [hd])
        have whole : begun ++ own = x.world.log env.aggregate :=
          (h.ordered _).eq_of_head_eq ⟨rest, hlog.symm⟩ (hhead.trans head)
        obtain ⟨recorded, _, _, hdomain, _, hnew⟩ := wrote
        refine ⟨own ++ recorded, ?_, ?_⟩
        · rw [hnew, if_pos rfl, ← whole, List.append_assoc]
        · simp [hown, hdomain, StoreStep.written]
  | @free batch o r _ cursor wrote =>
      refine h.write clear cursor wrote rfl (fun ho => ?_) fun free => ?_
      · obtain hf | ⟨_, hd⟩ := StoreStep.overtaken_snoc ho
        · cases hf
        · exact hd trivial
      · exact absurd trivial (free (.free batch o (.ok r)) (by simp))
  | @foreign b batch o r _ cursor wrote =>
      refine h.stay clear (wrote.ordered h.ordered) cursor rfl rfl (wrote.grows _) fun ho => ?_
      by_cases hb : b = env.aggregate
      · subst hb
        obtain ⟨part, hpart, hhead⟩ := h.seen
        refine Revision.lt_of_le_of_lt ?_ (wrote.head_lt h.ordered)
        rw [← hhead]
        exact (h.ordered _).head_le_of_part hpart
      · obtain hf | ⟨hbefore, _⟩ := StoreStep.overtaken_snoc ho
        · exact absurd hf hb
        · obtain ⟨recorded, _, _, _, _, hnew⟩ := wrote
          rw [hnew, if_neg hb]
          exact h.overtaken hbefore

theorem run {program : Program ε} {w : World} (clear : w.link.IsClear)
    (ordered : ∀ a, Ordered (w.log a))
    (run : Run env ⟨program, .atHead (headRevision (w.log env.aggregate)), w⟩ steps x) :
    Follows env (w.log env.aggregate) steps x := by
  induction run with
  | start => exact start clear ordered
  | own _ h ih =>
      obtain ⟨change, hclear⟩ := change_of_own ih.clear h
      exact ih.step change hclear
  | meanwhile _ h ih =>
      obtain ⟨change, hclear⟩ := change_of_meanwhile env ih.clear h
      exact ih.step change hclear

end Follows
end Execution
end EventSourcing
