import EventSourcing.World
import EventSourcing.Proofs.Store.Order

/-!
Appends at the store.
An append either records its whole batch behind the head of its log, or it fails for one of three
reasons: the batch is faulty, the head is not the expected one, or an event finds no revision. A
failed append leaves all logs as they are, and a successful one changes no log but its own.
-/
namespace EventSourcing

/-- Nothing comes between a process and its store: no call fails on its way and nobody waits to
write. -/
structure Link.IsClear (l : Link) : Prop where
  loadFaults : l.loadFaults = []
  appendFaults : l.appendFaults = []
  rivals : l.rivals = []

/-- A batch has events, and each has a type. -/
theorem checkBatch_eq_ok {batch : List DomainEvent} :
    checkBatch batch = .ok () ↔ batch ≠ [] ∧ ∀ e ∈ batch, e.type ≠ "" := by
  have named (i : Nat) : firstUnnamed i batch = none ↔ ∀ e ∈ batch, e.type ≠ "" := by
    induction batch generalizing i with
    | nil => simp [firstUnnamed]
    | cons e rest ih => by_cases h : e.type = "" <;> simp [firstUnnamed, h, ih]
  cases batch with
  | nil => simp [checkBatch]
  | cons e rest =>
      rw [← named 0]
      cases h : firstUnnamed 0 (e :: rest) <;> simp [checkBatch, h]

theorem exists_ok {ε α : Type} {x : Except ε α} (h : x.isOk = true) : ∃ a, x = .ok a := by
  cases x with
  | ok a => exact ⟨a, rfl⟩
  | error e => cases h

theorem exists_error {ε α : Type} {x : Except ε α} (h : x.isOk = false) : ∃ e, x = .error e := by
  cases x with
  | ok a => cases h
  | error e => exact ⟨e, rfl⟩

/-- The head of a log is the one that an append asks for, if it asks for one. -/
def AppendOptions.Allows (o : AppendOptions) (head : Revision) : Prop :=
  ∀ r, o.expected = some r → r = head

theorem AppendOptions.allows_or (o : AppendOptions) (head : Revision) :
    o.Allows head ∨ ∃ r, o.expected = some r ∧ r ≠ head := by
  cases h : o.expected with
  | none => exact .inl fun r hr => by rw [h] at hr; cases hr
  | some r =>
      by_cases hr : r = head
      · refine .inl fun s hs => ?_
        rw [h] at hs
        cases hs
        exact hr
      · exact .inr ⟨r, rfl, hr⟩

namespace World

/-- The events that an append would record. -/
def recorded? (w : World) (a : AggregateId) (batch : List DomainEvent) (o : AppendOptions) :
    Option (List RecordedEvent) :=
  recordBatch a o.metadata w.read.timestamp w.draws 0 (headRevision (w.log a)) batch

/-- An event of the batch finds no revision: the identifier drawn for it is not greater than the
revision before it, and the random bits of that revision are all ones. -/
def RunsOut (w : World) (a : AggregateId) (batch : List DomainEvent) (o : AppendOptions) : Prop :=
  ∃ k before, k < batch.length ∧ w.recorded? a (batch.take k) o = some before ∧
    ¬ (headRevision (w.log a ++ before)).ulid < (w.draws k).revision ∧
    (headRevision (w.log a ++ before)).ulid.random = Ulid.randomSize - 1

theorem recorded?_eq_none {w : World} {a : AggregateId} {batch : List DomainEvent}
    {o : AppendOptions} : w.recorded? a batch o = none ↔ w.RunsOut a batch o := by
  simp only [recorded?, RunsOut, recordBatch_eq_none, headAfter_headRevision, Nat.zero_add]

/-- The world after events were recorded. -/
def extend (w : World) (a : AggregateId) (recorded : List RecordedEvent) : World :=
  let w := { w with
    store := { logs := w.store.logs.extend a recorded, feed := w.store.feed.publishAll recorded }
    taken := w.taken + 1 + 2 * recorded.length }
  w.count .appends

theorem log_extend (w : World) (a b : AggregateId) (recorded : List RecordedEvent) :
    (w.extend a recorded).log b = if a = b then w.log a ++ recorded else w.log b := by
  change (((w.store.logs.extend a recorded).get? b).getD []) = _
  rw [Logs.extend, Assoc.get?_put]
  by_cases h : a = b <;> simp [h, World.log, Logs.log]

@[simp] theorem link_extend (w : World) (a : AggregateId) (recorded : List RecordedEvent) :
    (w.extend a recorded).link = w.link := rfl

section Cases
variable {w : World} {a : AggregateId} {batch : List DomainEvent} {o : AppendOptions}

theorem mapError_checkBatch_of_ok (h : checkBatch batch = .ok ()) :
    (checkBatch batch).mapError StoreError.invalidAppend = .ok () := by
  rw [h]
  rfl

theorem mapError_checkBatch_of_error {f : BatchFault} (h : checkBatch batch = .error f) :
    (checkBatch batch).mapError StoreError.invalidAppend = .error (.invalidAppend f) := by
  rw [h]
  rfl

theorem commit_of_fault {f : BatchFault} (h : checkBatch batch = .error f) :
    w.commit a batch o = (.error (.invalidAppend f), w) := by
  simp [commit, Logs.commit, Logs.record, mapError_checkBatch_of_error h, bind, Except.bind]

theorem record_of_expected {r : Revision} (h : checkBatch batch = .ok ())
    (he : o.expected = some r) (hr : r ≠ headRevision (w.log a)) :
    w.store.logs.record a batch o w.read.timestamp w.draws =
      .error (.unexpectedRevision a r (headRevision (w.log a))) := by
  have hne : w.store.logs.head a ≠ r := fun heq => hr heq.symm
  simp only [Logs.record, mapError_checkBatch_of_ok h, bind, Except.bind, he, ne_eq, hne,
    not_false_eq_true, if_true]
  rfl

theorem record_of_allows (h : checkBatch batch = .ok ()) (ho : o.Allows (headRevision (w.log a))) :
    w.store.logs.record a batch o w.read.timestamp w.draws =
      match w.recorded? a batch o with
      | some recorded => .ok recorded
      | none => .error (.transient .revisionsExhausted) := by
  cases he : o.expected with
  | none =>
      simp only [Logs.record, mapError_checkBatch_of_ok h, bind, Except.bind, he]
      rfl
  | some r =>
      have hr : w.store.logs.head a = r := (ho r he).symm
      simp only [Logs.record, mapError_checkBatch_of_ok h, bind, Except.bind, he, hr, ne_eq, not_true,
        if_false, recorded?]
      rw [← hr]
      rfl

theorem commit_of_unexpected {r : Revision} (h : checkBatch batch = .ok ())
    (he : o.expected = some r) (hr : r ≠ headRevision (w.log a)) :
    w.commit a batch o =
      (.error (.unexpectedRevision a r (headRevision (w.log a))), w.count .conflicts) := by
  rw [commit, Logs.commit, record_of_expected h he hr]

theorem commit_of_exhausted (h : checkBatch batch = .ok ())
    (ho : o.Allows (headRevision (w.log a))) (hn : w.recorded? a batch o = none) :
    w.commit a batch o = (.error (.transient .revisionsExhausted), w) := by
  rw [commit, Logs.commit, record_of_allows h ho, hn]

theorem commit_of_recorded {recorded : List RecordedEvent} (h : checkBatch batch = .ok ())
    (ho : o.Allows (headRevision (w.log a))) (hr : w.recorded? a batch o = some recorded) :
    w.commit a batch o = (.ok (headRevision recorded), w.extend a recorded) := by
  rw [commit, Logs.commit, record_of_allows h ho, hr]
  rfl

end Cases

/-- How an append ends, and what it leaves behind. -/
theorem commit_cases (w : World) (a : AggregateId) (batch : List DomainEvent)
    (o : AppendOptions) :
    (∃ f, checkBatch batch = .error f ∧
      w.commit a batch o = (.error (.invalidAppend f), w)) ∨
    (∃ r, checkBatch batch = .ok () ∧ o.expected = some r ∧ r ≠ headRevision (w.log a) ∧
      w.commit a batch o =
        (.error (.unexpectedRevision a r (headRevision (w.log a))), w.count .conflicts)) ∨
    (checkBatch batch = .ok () ∧ o.Allows (headRevision (w.log a)) ∧
      w.recorded? a batch o = none ∧
      w.commit a batch o = (.error (.transient .revisionsExhausted), w)) ∨
    (∃ recorded, checkBatch batch = .ok () ∧ o.Allows (headRevision (w.log a)) ∧
      w.recorded? a batch o = some recorded ∧
      w.commit a batch o = (.ok (headRevision recorded), w.extend a recorded)) := by
  cases hc : checkBatch batch with
  | error f => exact .inl ⟨f, rfl, commit_of_fault hc⟩
  | ok u =>
      obtain ho | ⟨r, he, hr⟩ := o.allows_or (headRevision (w.log a))
      · cases hn : w.recorded? a batch o with
        | none => exact .inr (.inr (.inl ⟨rfl, ho, rfl, commit_of_exhausted hc ho hn⟩))
        | some recorded =>
            exact .inr (.inr (.inr ⟨recorded, rfl, ho, rfl, commit_of_recorded hc ho hn⟩))
      · exact .inr (.inl ⟨r, rfl, he, hr, commit_of_unexpected hc he hr⟩)

end World

namespace World
variable {w : World} {a : AggregateId} {batch : List DomainEvent} {o : AppendOptions}

theorem recorded?_toDomain {recorded : List RecordedEvent}
    (h : w.recorded? a batch o = some recorded) :
    recorded.map RecordedEvent.toDomain = batch :=
  recordBatch_toDomain h

theorem recorded?_ne_nil {recorded : List RecordedEvent} (hc : checkBatch batch = .ok ())
    (h : w.recorded? a batch o = some recorded) : recorded ≠ [] := by
  rintro rfl
  exact (checkBatch_eq_ok.1 hc).1 (recorded?_toDomain h).symm

/-- A failed append leaves the world as it is, apart from the count of conflicts. -/
theorem commit_error {e : StoreError} (h : (w.commit a batch o).1 = .error e) :
    (w.commit a batch o).2 = w ∨ (w.commit a batch o).2 = w.count .conflicts := by
  obtain ⟨f, _, heq⟩ | ⟨r, _, _, _, heq⟩ | ⟨_, _, _, heq⟩ | ⟨recorded, _, _, _, heq⟩ :=
    w.commit_cases a batch o
  · exact .inl (by rw [heq])
  · exact .inr (by rw [heq])
  · exact .inl (by rw [heq])
  · rw [heq] at h
    cases h

theorem log_commit_error {e : StoreError} (h : (w.commit a batch o).1 = .error e)
    (b : AggregateId) : (w.commit a batch o).2.log b = w.log b := by
  obtain heq | heq := commit_error h <;> rw [heq]
  rfl

theorem commit_ok {r : Revision} (h : (w.commit a batch o).1 = .ok r) :
    ∃ recorded, checkBatch batch = .ok () ∧ o.Allows (headRevision (w.log a)) ∧
      w.recorded? a batch o = some recorded ∧ r = headRevision recorded ∧
      (w.commit a batch o).2 = w.extend a recorded := by
  obtain ⟨f, _, heq⟩ | ⟨r, _, _, _, heq⟩ | ⟨_, _, _, heq⟩ | ⟨recorded, hc, ho, hr, heq⟩ :=
    w.commit_cases a batch o
  · rw [heq] at h
    cases h
  · rw [heq] at h
    cases h
  · rw [heq] at h
    cases h
  · rw [heq] at h ⊢
    cases h
    exact ⟨recorded, hc, ho, hr, rfl, rfl⟩

theorem commit_ok_or_error (w : World) (a : AggregateId) (batch : List DomainEvent)
    (o : AppendOptions) :
    (∃ r, (w.commit a batch o).1 = .ok r) ∨ ∃ e, (w.commit a batch o).1 = .error e := by
  cases (w.commit a batch o).1 with
  | ok r => exact .inl ⟨r, rfl⟩
  | error e => exact .inr ⟨e, rfl⟩

/-- Whatever comes of an append, logs only grow. -/
theorem log_prefix_commit (w : World) (a b : AggregateId) (batch : List DomainEvent)
    (o : AppendOptions) : w.log b <+: (w.commit a batch o).2.log b := by
  obtain ⟨r, h⟩ | ⟨e, h⟩ := w.commit_ok_or_error a batch o
  · obtain ⟨recorded, _, _, _, _, heq⟩ := commit_ok h
    rw [heq, log_extend]
    split
    · rename_i hab
      subst hab
      exact List.prefix_append _ _
    · exact List.prefix_refl _
  · exact (log_commit_error h b).symm ▸ List.prefix_refl _

theorem link_commit : (w.commit a batch o).2.link = w.link := by
  obtain ⟨r, hr⟩ | ⟨e, he⟩ := w.commit_ok_or_error a batch o
  · obtain ⟨recorded, _, _, _, _, heq⟩ := commit_ok hr
    rw [heq, link_extend]
  · obtain heq | heq := commit_error he <;> rw [heq]
    rfl

theorem ordered_commit (h : ∀ b, Ordered (w.log b)) (b : AggregateId) :
    Ordered ((w.commit a batch o).2.log b) := by
  obtain ⟨r, hr⟩ | ⟨e, he⟩ := w.commit_ok_or_error a batch o
  · obtain ⟨recorded, _, _, hrec, _, heq⟩ := commit_ok hr
    rw [heq, log_extend]
    split
    · exact (h a).append (recordBatch_ascending hrec)
    · exact h b
  · rw [log_commit_error he]
    exact h b

/-- The world after a load that went through. -/
def loaded (w : World) : World := { w with link.loads := w.link.loads + 1 }

/-- The world when an append has reached the store. -/
def appending (w : World) : World := { w with link.appends := w.link.appends + 1 }

section Clear
variable (clear : w.link.IsClear)
include clear

theorem isClear_loaded : w.loaded.link.IsClear :=
  ⟨clear.loadFaults, clear.appendFaults, clear.rivals⟩

theorem isClear_appending : w.appending.link.IsClear :=
  ⟨clear.loadFaults, clear.appendFaults, clear.rivals⟩

theorem load_of_isClear : w.load a = (.ok (w.log a), w.loaded) := by
  obtain ⟨store, link⟩ := w
  obtain ⟨loads, appends, loadFaults, appendFaults, rivals⟩ := link
  obtain ⟨rfl, rfl, rfl⟩ := clear
  rfl

theorem append_of_isClear : w.append a batch o = w.appending.commit a batch o := by
  obtain ⟨store, link⟩ := w
  obtain ⟨loads, appends, loadFaults, appendFaults, rivals⟩ := link
  obtain ⟨rfl, rfl, rfl⟩ := clear
  rfl

end Clear
end World
end EventSourcing
