import Mathlib.Algebra.GroupWithZero.Nat
import Mathlib.Data.List.DropRight
import EventSourcing.Proofs.Store.Attempts

/-!
What a store holds after a history.
A log is what the successful appends to it have recorded since the store was last cleared, one batch
behind the other, and the feed carries what all of them have recorded, cleared or not. An append that
fails leaves no trace in any of this, whatever it fails of.
-/
namespace EventSourcing

namespace Attempt

/-- The events that the append records where it goes through. -/
def recorded (t : Attempt) : List RecordedEvent :=
  (t.world.recorded? t.aggregate t.batch t.options).getD []

end Attempt

def StoreOp.isClear : StoreOp → Bool
  | .clear => true
  | _ => false

theorem StoreOp.eq_clear {op : StoreOp} (h : op.isClear = true) : op = .clear := by
  cases op with
  | clear => rfl
  | append | turn => cases h

namespace World

/-- The appends of a history that went through. -/
def successes (w : World) (history : List StoreOp) : List Attempt :=
  (w.attempts history).filter fun t => t.answer.isOk

/-- A history up to the last time that the store was cleared. -/
def untilCleared (history : List StoreOp) : List StoreOp :=
  history.rdropWhile fun op => !op.isClear

def sinceCleared (history : List StoreOp) : List StoreOp :=
  history.rtakeWhile fun op => !op.isClear

/-- The appends that went through since the store was last cleared. -/
def standing (w : World) (history : List StoreOp) : List Attempt :=
  (w.after (untilCleared history)).successes (sinceCleared history)

end World

/-- The events of a batch differ from the batch only in what every event is given when it is
recorded; they share the time, and what is known of where they come from. -/
theorem recordBatch_details {a : AggregateId} {m : Metadata} {t : Timestamp}
    {draw : Nat → EventDraw} {i : Nat} {previous : Revision} {batch : List DomainEvent}
    {recorded : List RecordedEvent}
    (h : recordBatch a m t draw i previous batch = some recorded) :
    recorded.map (fun e => (e.aggregate, e.toDomain, e.metadata, e.timestamp)) =
      batch.map fun e => (a, e, m, t) := by
  induction batch generalizing i previous recorded with
  | nil =>
      cases h
      rfl
  | cons e rest ih =>
      obtain ⟨r, tail, _, htail, rfl⟩ := recordBatch_cons_eq_some.1 h
      rw [List.map_cons, List.map_cons, ih htail, RecordedEvent.toDomain]

namespace Assoc
variable {κ ν : Type} [DecidableEq κ]

/-- Where a list is put in the place of another, the number of elements changes by theirs. -/
theorem sum_lengths_write {α : Type} (k : κ) (v : List α) (es : List (κ × List α)) :
    (write k v es).foldr (fun e n => e.2.length + n) 0 + ((lookup k es).getD []).length =
      es.foldr (fun e n => e.2.length + n) 0 + v.length := by
  induction es with
  | nil => simp [write, lookup]
  | cons e rest ih =>
      obtain ⟨k', v'⟩ := e
      by_cases h : k' = k
      · simp only [write, lookup, h, if_true, List.foldr_cons, Option.getD_some]
        omega
      · simp only [write, lookup, h, if_false, List.foldr_cons]
        omega

end Assoc

theorem Logs.count_extend (l : Logs) (a : AggregateId) (recorded : List RecordedEvent) :
    (l.extend a recorded).count = l.count + recorded.length := by
  have same := Assoc.sum_lengths_write a (l.log a ++ recorded) l.entries
  rw [List.length_append] at same
  change (l.extend a recorded).count + (l.log a).length =
    l.count + ((l.log a).length + recorded.length) at same
  omega

theorem Feed.published_publishAll (f : Feed) (es : List RecordedEvent) :
    (f.publishAll es).published = f.published ++ es := by
  induction es generalizing f with
  | nil => exact (List.append_nil _).symm
  | cons e rest ih =>
      rw [publishAll, List.foldl_cons]
      exact (ih (f.publish e)).trans (List.append_assoc ..)

namespace World
variable {w : World} {history : List StoreOp}

theorem successes_cons (w : World) (op : StoreOp) (rest : List StoreOp) :
    w.successes (op :: rest) =
      (op.attempts w).filter (fun t => t.answer.isOk) ++ (w.perform op).successes rest := by
  rw [successes, attempts, List.filter_append, successes]

theorem store_commit_error {a : AggregateId} {batch : List DomainEvent} {o : AppendOptions}
    {e : StoreError} (h : (w.commit a batch o).1 = .error e) :
    (w.commit a batch o).2.store = w.store := by
  obtain heq | heq := commit_error h <;> rw [heq]
  rfl

/-- What one operation that is no clearing adds: nothing, or the batch of an append. -/
theorem perform_cases {op : StoreOp} (kept : op ≠ .clear) :
    ((op.attempts w).filter (fun t => t.answer.isOk) = [] ∧
      (w.perform op).store = w.store) ∨
    ∃ t : Attempt, (op.attempts w).filter (fun t => t.answer.isOk) = [t] ∧
      checkBatch t.batch = .ok () ∧
      w.recorded? t.aggregate t.batch t.options = some t.recorded ∧
      t.world = w ∧ w.perform op = w.extend t.aggregate t.recorded := by
  cases op with
  | clear => exact absurd rfl kept
  | turn readings => exact .inl ⟨rfl, rfl⟩
  | append a batch o =>
      obtain ⟨r, hr⟩ | ⟨e, he⟩ := w.commit_ok_or_error a batch o
      · obtain ⟨recorded, hc, _, hrec, _, heq⟩ := commit_ok hr
        have written : Attempt.recorded ⟨w, a, batch, o⟩ = recorded := by
          rw [Attempt.recorded, hrec]
          rfl
        refine .inr ⟨⟨w, a, batch, o⟩, ?_, hc, ?_, rfl, ?_⟩
        · rw [StoreOp.attempts, List.filter_cons_of_pos, List.filter_nil]
          rw [Attempt.answer, hr]
          rfl
        · rw [written]
          exact hrec
        · rw [written]
          exact heq
      · refine .inl ⟨?_, store_commit_error he⟩
        rw [StoreOp.attempts, List.filter_cons_of_neg, List.filter_nil]
        rw [Attempt.answer, he]
        exact Bool.false_ne_true

theorem log_after (kept : .clear ∉ history) (a : AggregateId) :
    (w.after history).log a = w.log a ++
      ((w.successes history).filter fun t => t.aggregate = a).flatMap Attempt.recorded := by
  induction history generalizing w with
  | nil => exact (List.append_nil _).symm
  | cons op rest ih =>
      have later := ih (w := w.perform op) fun h => kept (List.mem_cons_of_mem _ h)
      have first : op ≠ .clear := fun h => kept (h ▸ List.mem_cons_self)
      rw [after, List.foldl_cons, successes_cons, List.filter_append, List.flatMap_append,
        ← List.append_assoc]
      refine later.trans (congrArg (· ++ _) ?_)
      obtain ⟨nothing, same⟩ | ⟨t, one, _, _, _, heq⟩ := perform_cases (w := w) first
      · rw [nothing, log, same]
        exact (List.append_nil _).symm
      · rw [one, heq, log_extend]
        by_cases ha : t.aggregate = a <;> simp [ha]

theorem count_after (kept : .clear ∉ history) :
    (w.after history).store.logs.count = w.store.logs.count +
      ((w.successes history).map fun t => t.batch.length).sum := by
  induction history generalizing w with
  | nil => rfl
  | cons op rest ih =>
      have later := ih (w := w.perform op) fun h => kept (List.mem_cons_of_mem _ h)
      have first : op ≠ .clear := fun h => kept (h ▸ List.mem_cons_self)
      rw [after, List.foldl_cons, successes_cons, List.map_append, List.sum_append,
        ← Nat.add_assoc]
      refine later.trans (congrArg (· + _) ?_)
      obtain ⟨nothing, same⟩ | ⟨t, one, _, hrec, _, heq⟩ := perform_cases (w := w) first
      · rw [nothing, same]
        rfl
      · have length : t.recorded.length = t.batch.length := by
          rw [← recorded?_toDomain hrec, List.length_map]
        rw [one, heq]
        change (w.store.logs.extend t.aggregate t.recorded).count = _
        rw [Logs.count_extend, length]
        simp

/-- Clearing the store takes nothing from the feed. -/
theorem published_after (w : World) (history : List StoreOp) :
    (w.after history).store.feed.published = w.store.feed.published ++
      (w.successes history).flatMap Attempt.recorded := by
  induction history generalizing w with
  | nil => exact (List.append_nil _).symm
  | cons op rest ih =>
      rw [after, List.foldl_cons, successes_cons, List.flatMap_append, ← List.append_assoc]
      refine (ih (w.perform op)).trans (congrArg (· ++ _) ?_)
      by_cases first : op = .clear
      · rw [first]
        exact (List.append_nil _).symm
      · obtain ⟨nothing, same⟩ | ⟨t, one, _, _, _, heq⟩ := perform_cases (w := w) first
        · rw [nothing, same]
          exact (List.append_nil _).symm
        · rw [one, heq, List.flatMap_singleton]
          exact w.store.feed.published_publishAll t.recorded

/-- The events of a successful append are its batch, each with what the append has asked for. -/
theorem recorded_details {t : Attempt} (ht : t ∈ w.successes history) :
    t.recorded ≠ [] ∧
      t.recorded.map (fun e => (e.aggregate, e.toDomain, e.metadata, e.timestamp)) =
        t.batch.map fun e => (t.aggregate, e, t.options.metadata, t.world.read.timestamp) := by
  obtain ⟨r, hr⟩ := exists_ok (List.mem_filter.1 ht).2
  obtain ⟨recorded, hc, _, hrec, _, _⟩ := commit_ok hr
  have written : t.recorded = recorded := by
    rw [Attempt.recorded, hrec]
    rfl
  rw [written]
  exact ⟨recorded?_ne_nil hc hrec, recordBatch_details hrec⟩

/-- A history falls into what came up to the last clearing and what came after it. -/
theorem after_cleared (w : World) (history : List StoreOp) :
    w.after history = (w.after (untilCleared history)).after (sinceCleared history) := by
  rw [← after_append, untilCleared, sinceCleared, List.rdropWhile_append_rtakeWhile]

theorem clear_not_mem_sinceCleared (history : List StoreOp) :
    .clear ∉ sinceCleared history := by
  intro h
  have kept := List.mem_rtakeWhile_imp h
  cases kept

theorem logs_untilCleared (empty : w.store.logs = ∅) (history : List StoreOp) :
    (w.after (untilCleared history)).store.logs = ∅ := by
  by_cases h : untilCleared history = []
  · rw [h]
    exact empty
  · have last : ((untilCleared history).getLast h).isClear = true := by
      have stops := List.rdropWhile_last_not _ history h
      rwa [Bool.not_eq_true, Bool.not_eq_false'] at stops
    have cut := List.dropLast_append_getLast h
    rw [StoreOp.eq_clear last] at cut
    rw [← cut, after_append]
    rfl

theorem log_standing (empty : w.store.logs = ∅) (history : List StoreOp) (a : AggregateId) :
    (w.after history).log a =
      ((w.standing history).filter fun t => t.aggregate = a).flatMap Attempt.recorded := by
  have grown := log_after (w := w.after (untilCleared history))
    (clear_not_mem_sinceCleared history) a
  have nothing : (w.after (untilCleared history)).log a = [] := by
    rw [log, logs_untilCleared empty]
    rfl
  rw [nothing, List.nil_append, ← after_cleared] at grown
  exact grown

theorem count_standing (empty : w.store.logs = ∅) (history : List StoreOp) :
    (w.after history).store.logs.count =
      ((w.standing history).map fun t => t.batch.length).sum := by
  have grown := count_after (w := w.after (untilCleared history))
    (clear_not_mem_sinceCleared history)
  rw [logs_untilCleared empty, ← after_cleared] at grown
  exact grown.trans (Nat.zero_add _)

theorem nodup_revisions (empty : w.store.logs = ∅) (history : List StoreOp) (a : AggregateId) :
    (((w.after history).log a).map RecordedEvent.revision).Nodup := by
  have ordered := ordered_of_empty empty history a
  refine (List.pairwise_cons.1 ordered).2.imp ?_
  intro r s less same
  rw [same] at less
  exact Revision.lt_irrefl s less

theorem commit_error_causes {a : AggregateId} {batch : List DomainEvent} {o : AppendOptions}
    {e : StoreError} (h : (w.commit a batch o).1 = .error e) :
    (∃ f, checkBatch batch = .error f ∧ e = .invalidAppend f) ∨
      (∃ r, o.expected = some r ∧ r ≠ headRevision (w.log a) ∧
        e = .unexpectedRevision a r (headRevision (w.log a))) ∨
      (w.RunsOut a batch o ∧ e = .transient .revisionsExhausted) := by
  obtain ⟨f, fault, heq⟩ | ⟨r, _, expected, other, heq⟩ | ⟨_, _, none, heq⟩ | ⟨_, _, _, _, heq⟩ :=
    w.commit_cases a batch o
  · rw [heq] at h
    cases h
    exact .inl ⟨f, fault, rfl⟩
  · rw [heq] at h
    cases h
    exact .inr (.inl ⟨r, expected, other, rfl⟩)
  · rw [heq] at h
    cases h
    exact .inr (.inr ⟨recorded?_eq_none.1 none, rfl⟩)
  · rw [heq] at h
    cases h

theorem load_commit_error {a : AggregateId} {batch : List DomainEvent} {o : AppendOptions}
    {e : StoreError} (clear : w.link.IsClear) (h : (w.commit a batch o).1 = .error e)
    (b : AggregateId) : ((w.commit a batch o).2.load b).1 = (w.load b).1 := by
  have after : (w.commit a batch o).2.link.IsClear := by
    rw [link_commit]
    exact clear
  rw [load_of_isClear after, load_of_isClear clear, log, store_commit_error h]
  rfl

end World

/-- After any history of a store that was empty, a log is the batches of the successful appends to it
since the store was last cleared, in their order and each event once; their events are counted, and
the feed carries all batches that were ever appended. An append fails only for a faulty batch, an
unexpected head or want of a revision, and then nothing of this changes. -/
theorem logs_are_the_batches_appended (w : World) (empty : w.store.logs = ∅)
    (clear : w.link.IsClear) (history : List StoreOp) :
    let v := w.after history
    (∀ a, (v.load a).1 =
        .ok (((w.standing history).filter fun t => t.aggregate = a).flatMap Attempt.recorded) ∧
      ((v.log a).map RecordedEvent.revision).Nodup) ∧
    v.store.logs.count = ((w.standing history).map fun t => t.batch.length).sum ∧
    v.store.feed.published =
      w.store.feed.published ++ (w.successes history).flatMap Attempt.recorded ∧
    (∀ t ∈ w.successes history ++ w.standing history, t.recorded ≠ [] ∧
      t.recorded.map (fun e => (e.aggregate, e.toDomain, e.metadata, e.timestamp)) =
        t.batch.map fun e => (t.aggregate, e, t.options.metadata, t.world.read.timestamp)) ∧
    ∀ a batch o e, (v.commit a batch o).1 = .error e →
      ((∃ f, checkBatch batch = .error f ∧ e = .invalidAppend f) ∨
        (∃ r, o.expected = some r ∧ r ≠ headRevision (v.log a) ∧
          e = .unexpectedRevision a r (headRevision (v.log a))) ∨
        (v.RunsOut a batch o ∧ e = .transient .revisionsExhausted)) ∧
      (∀ b, ((v.commit a batch o).2.load b).1 = (v.load b).1) ∧
      (v.commit a batch o).2.store.logs.count = v.store.logs.count ∧
      (v.commit a batch o).2.store.feed = v.store.feed := by
  intro v
  have link : v.link.IsClear := by
    rw [World.link_after]
    exact clear
  refine ⟨fun a => ⟨?_, World.nodup_revisions empty history a⟩, World.count_standing empty history,
    World.published_after w history, fun t ht => ?_, fun a batch o e he => ?_⟩
  · rw [World.load_of_isClear link]
    exact congrArg Except.ok (World.log_standing empty history a)
  · obtain through | stands := List.mem_append.1 ht
    · exact World.recorded_details through
    · exact World.recorded_details stands
  · have same := World.store_commit_error he
    exact ⟨World.commit_error_causes he, World.load_commit_error link he,
      congrArg (fun s => s.logs.count) same, congrArg Store.feed same⟩

/-- A cleared store with one append before and two after the clearing, between which others fail: for
an empty batch, a nameless event and a stale head. -/
theorem only_later_batches_stand :
    let w : World := { readings := fun n => ⟨n, 7⟩, shares := fun _ => 0 }
    let a : AggregateId := ⟨"account", "1"⟩
    let noted (s : String) : DomainEvent := ⟨"noted", .str s⟩
    let history : List StoreOp :=
      [.append a [noted "early", noted "gone"] {}, .clear, .append a [noted "first"] {},
        .append a [] {}, .append a [noted "kept out", ⟨"", .null⟩] {},
        .append a [noted "stale"] (.expect .initial),
        .append a [noted "second", noted "third"] { correlation := some "r" }]
    let v := w.after history
    (v.load a).1 =
        .ok (((w.standing history).filter fun t => t.aggregate = a).flatMap Attempt.recorded) ∧
      ((w.standing history).map fun t => t.batch.length) = [1, 2] ∧
      v.store.logs.count = 3 ∧ (w.successes history).length = 3 ∧
      v.store.feed.published.length = 5 ∧
      ∀ e, (v.commit a [noted "late"] (.expect .initial)).1 = .error e →
        (v.commit a [noted "late"] (.expect .initial)).2.store.feed = v.store.feed := by
  intro w a noted history
  have law := logs_are_the_batches_appended w rfl ⟨rfl, rfl, rfl⟩ history
  have standing : ((w.standing history).map fun t => t.batch.length) = [1, 2] := by
    decide +kernel
  have published : (w.store.feed.published ++
      (w.successes history).flatMap Attempt.recorded).length = 5 := by
    decide +kernel
  have successes : (w.successes history).length = 3 := by decide +kernel
  generalize w.after history = v at law ⊢
  obtain ⟨loads, count, feed, _, fails⟩ := law
  rw [standing] at count
  refine ⟨(loads a).1, standing, count, successes, by rw [feed, published], ?_⟩
  intro e he
  exact (fails a [noted "late"] (.expect .initial) e he).2.2.2

end EventSourcing
