import EventSourcing.Proofs.Store.History
import EventSourcing.Proofs.Store.Write

/-!
Appends in a history.
Each append of a history meets the store as those before it have left it. Of the appends to one log
that expect the same head at most one goes through: it moves the head up, and no head comes back
while the store is not cleared. All others are told which head they met instead.
-/
namespace EventSourcing

/-- An append of a history, with the world that it met. -/
structure Attempt where
  world : World
  aggregate : AggregateId
  batch : List DomainEvent
  options : AppendOptions

namespace Attempt

def answer (t : Attempt) : Except StoreError Revision :=
  (t.world.commit t.aggregate t.batch t.options).1

/-- The head of the log at the moment of the append. -/
def head (t : Attempt) : Revision := headRevision (t.world.log t.aggregate)

def expects (t : Attempt) (a : AggregateId) (r : Revision) : Bool :=
  t.aggregate = a && t.options.expected = some r

/-- The append is not refused because of the head, whatever else it may fail of. -/
def passes (t : Attempt) : Bool :=
  match t.answer with
  | .ok _ => true
  | .error e => !e.isConflict

end Attempt

/-- What of an operation is an append. -/
def StoreOp.attempts (w : World) : StoreOp → List Attempt
  | .append a batch o => [⟨w, a, batch, o⟩]
  | .clear | .turn _ => []

/-- The appends of a history, in their order. -/
def World.attempts (w : World) : List StoreOp → List Attempt
  | [] => []
  | op :: rest => op.attempts w ++ (w.perform op).attempts rest

namespace World
variable {w : World} {a : AggregateId} {r : Revision}

theorem after_append (w : World) (before rest : List StoreOp) :
    w.after (before ++ rest) = (w.after before).after rest :=
  List.foldl_append ..

/-- Only clearing takes anything from a log. -/
theorem log_prefix_perform {op : StoreOp} (kept : op ≠ .clear) :
    w.log a <+: (w.perform op).log a := by
  cases op with
  | append b batch o => exact w.log_prefix_commit b a batch o
  | clear => exact absurd rfl kept
  | turn readings => exact List.prefix_rfl

/-- A head that the log has left behind is no longer met. -/
theorem no_success_below (ordered : ∀ b, Ordered (w.log b)) {history : List StoreOp}
    (kept : .clear ∉ history) (below : r < headRevision (w.log a)) :
    ∀ t ∈ w.attempts history, t.expects a r → t.answer.isOk = false := by
  induction history generalizing w with
  | nil =>
      intro t ht
      cases ht
  | cons op rest ih =>
      intro t ht expects
      rw [attempts] at ht
      obtain here | later := List.mem_append.1 ht
      · cases op with
        | clear | turn => cases here
        | append b batch o =>
            rw [List.mem_singleton.1 here] at expects ⊢
            simp only [Attempt.expects, Bool.and_eq_true, decide_eq_true_eq] at expects
            obtain ⟨rfl, expected⟩ := expects
            cases answer : (w.commit b batch o).1 with
            | error e =>
                rw [Attempt.answer, answer]
                rfl
            | ok s =>
                have same : r = headRevision (w.log b) := (wrote_commit answer).1 r expected
                rw [same] at below
                exact absurd below (Revision.lt_irrefl _)
      · refine ih (ordered_perform ordered op) (fun h => kept (List.mem_cons_of_mem _ h)) ?_ t later
          expects
        have higher : headRevision (w.log a) ≤ headRevision ((w.perform op).log a) :=
          (ordered_perform ordered op a).head_le_of_part
            (log_prefix_perform fun h => kept (h ▸ List.mem_cons_self))
        exact Nat.lt_of_lt_of_le below higher

/-- Of the appends that expect one head of one log, at most one goes through. -/
theorem one_success (ordered : ∀ b, Ordered (w.log b)) {history : List StoreOp}
    (kept : .clear ∉ history) (a : AggregateId) (r : Revision) :
    ((w.attempts history).filter fun t => t.expects a r && t.answer.isOk).length ≤ 1 := by
  induction history generalizing w with
  | nil => exact Nat.zero_le 1
  | cons op rest ih =>
      have kept' : .clear ∉ rest := fun h => kept (List.mem_cons_of_mem _ h)
      have later := ih (ordered_perform ordered op) kept'
      rw [attempts, List.filter_append, List.length_append]
      cases op with
      | clear | turn =>
          rw [StoreOp.attempts, List.filter_nil, List.length_nil, Nat.zero_add]
          exact later
      | append b batch o =>
          rw [StoreOp.attempts, List.filter_cons, List.filter_nil]
          split
          · rename_i wins
            simp only [Attempt.expects, Attempt.answer, Bool.and_eq_true, decide_eq_true_eq] at wins
            obtain ⟨⟨rfl, expected⟩, through⟩ := wins
            obtain ⟨s, answer⟩ := exists_ok through
            obtain ⟨allowed, wrote⟩ := wrote_commit answer
            have below : r < headRevision ((w.perform (.append b batch o)).log b) := by
              rw [allowed r expected]
              exact wrote.head_lt ordered
            have none : (((w.perform (.append b batch o)).attempts rest).filter fun t =>
                t.expects b r && t.answer.isOk) = [] := by
              refine List.filter_eq_nil_iff.2 fun t ht wins => ?_
              obtain ⟨expects, success⟩ := (Bool.and_eq_true ..).mp wins
              rw [no_success_below (ordered_perform ordered _) kept' below t ht expects] at success
              cases success
            rw [none]
            exact Nat.le_refl 1
          · rw [List.length_nil, Nat.zero_add]
            exact later

/-- What the check of the head comes to for a valid batch. -/
theorem passes_iff {t : Attempt} (valid : checkBatch t.batch = .ok ()) :
    (t.passes ↔ t.options.Allows t.head) ∧
      (t.passes → (∃ r, t.answer = .ok r) ∨ t.answer = .error (.transient .revisionsExhausted)) ∧
      (¬ t.passes → ∃ r, t.options.expected = some r ∧
        t.answer = .error (.unexpectedRevision t.aggregate r t.head)) := by
  have passes : t.passes = match t.answer with
    | .ok _ => true
    | .error e => !e.isConflict := rfl
  have answer : t.answer = (t.world.commit t.aggregate t.batch t.options).1 := rfl
  obtain ⟨f, fault, _⟩ | ⟨r, _, expected, other, heq⟩ | ⟨_, allowed, _, heq⟩ |
    ⟨recorded, _, allowed, _, heq⟩ := t.world.commit_cases t.aggregate t.batch t.options
  · rw [valid] at fault
    cases fault
  · rw [heq] at answer
    rw [answer] at passes
    refine ⟨iff_of_false ?_ ?_, ?_, fun _ => ⟨r, expected, answer⟩⟩
    · rw [passes]
      exact Bool.false_ne_true
    · intro allowed
      exact other (allowed r expected)
    · intro h
      rw [passes] at h
      cases h
  · rw [heq] at answer
    rw [answer] at passes
    exact ⟨iff_of_true passes allowed, fun _ => .inr answer, fun h => absurd passes h⟩
  · rw [heq] at answer
    rw [answer] at passes
    exact ⟨iff_of_true passes allowed, fun _ => .inl ⟨_, answer⟩, fun h => absurd passes h⟩

end World

/-- As long as a store is not cleared, at most one append to a log goes through with a given head
expected. A valid batch gets past the check exactly where the log has the head that is expected, or
where none is; it then fails only for want of a revision. Where it does not get past, it is told
which head it met. -/
theorem expected_head_has_one_winner (w : World) (empty : w.store.logs = ∅)
    (before history : List StoreOp) (kept : .clear ∉ history) :
    let attempts := (w.after before).attempts history
    (∀ a r, (attempts.filter fun t => t.expects a r && t.answer.isOk).length ≤ 1) ∧
    ∀ t ∈ attempts, t.batch ≠ [] → (∀ e ∈ t.batch, e.type ≠ "") →
      (t.options.expected = none → t.passes) ∧
      (∀ r, t.options.expected = some r →
        (t.passes ↔ t.head = r) ∧
        (¬ t.passes → t.answer = .error (.unexpectedRevision t.aggregate r t.head))) ∧
      (t.passes → (∃ r, t.answer = .ok r) ∨
        t.answer = .error (.transient .revisionsExhausted)) := by
  intro attempts
  refine ⟨World.one_success (ordered_of_empty empty before) kept, ?_⟩
  intro t _ nonempty named
  obtain ⟨passes, fails, refused⟩ := World.passes_iff (checkBatch_eq_ok.2 ⟨nonempty, named⟩)
  refine ⟨?_, ?_, fails⟩
  · intro free
    refine passes.2 fun r expected => ?_
    rw [free] at expected
    cases expected
  · intro r expected
    constructor
    · rw [passes]
      constructor
      · intro allowed
        exact (allowed r expected).symm
      · intro same s hs
        rw [expected] at hs
        cases hs
        exact same.symm
    · intro late
      obtain ⟨s, hs, answer⟩ := refused late
      rw [expected] at hs
      cases hs
      exact answer

/-- Two writers race for a new log while a third does not care; the loser is told the head that the
winner has left. -/
theorem first_of_two_writers_wins :
    let w : World := { readings := fun n => ⟨n, 7⟩, shares := fun _ => 0 }
    let a : AggregateId := ⟨"account", "1"⟩
    let e : DomainEvent := ⟨"noted", .null⟩
    let history : List StoreOp :=
      [.append a [e] (.expect .initial), .append a [e, e] (.expect .initial), .append a [e] {}]
    let attempts := w.attempts history
    (attempts.filter fun t => t.expects a .initial && t.answer.isOk).length = 1 ∧
      (attempts.map Attempt.passes) = [true, false, true] ∧
      ∀ t ∈ attempts, t.passes = false →
        t.answer = .error (.unexpectedRevision a .initial t.head) := by
  intro w a e history attempts
  have law := expected_head_has_one_winner w rfl [] history (by simp [history])
  refine ⟨Nat.le_antisymm (law.1 a .initial) (by decide +kernel), by decide +kernel, ?_⟩
  intro t ht refused
  have asked : t.batch ≠ [] ∧ (∀ e ∈ t.batch, e.type ≠ "") ∧ t.aggregate = a ∧
      (t.options.expected = some .initial ∨ t.options.expected = none) := by
    simp only [attempts, history, World.attempts, StoreOp.attempts, List.cons_append,
      List.nil_append, List.mem_cons, List.not_mem_nil, or_false] at ht
    obtain rfl | rfl | rfl := ht <;> simp [a, e, AppendOptions.expect]
  obtain ⟨nonempty, named, same, expected | free⟩ := asked
  · rw [← same]
    exact ((law.2 t ht nonempty named).2.1 .initial expected).2 (by simp [refused])
  · rw [(law.2 t ht nonempty named).1 free] at refused
    cases refused

end EventSourcing
