import EventSourcing.Store.Log

/-!
The order of logs.
A log is ordered if its revisions strictly increase from the one before the first event. Recording a
batch behind the head of an ordered log keeps it ordered, since each event gets a revision greater
than the one before it, whatever the clock shows. In an ordered log a head is never seen twice, so
that a part of the log from its start is known by its head.
-/
namespace EventSourcing

namespace Revision

theorem lt_irrefl (r : Revision) : ¬ r < r := Nat.lt_irrefl r.ulid.toNat

theorem lt_trans {a b c : Revision} (h : a < b) (h' : b < c) : a < c := Nat.lt_trans h h'

theorem lt_of_le_of_lt {a b c : Revision} (h : a ≤ b) (h' : b < c) : a < c :=
  Nat.lt_of_le_of_lt h h'

theorem le_of_lt {a b : Revision} (h : a < b) : a ≤ b := Nat.le_of_lt h

theorem le_refl (r : Revision) : r ≤ r := Nat.le_refl r.ulid.toNat

theorem initial_le (r : Revision) : initial ≤ r := Nat.zero_le r.ulid.toNat

theorem next?_eq_none {fresh : Ulid} {previous : Revision} :
    next? fresh previous = none ↔
      ¬ previous.ulid < fresh ∧ previous.ulid.random = Ulid.randomSize - 1 := by
  unfold next?
  split
  · rename_i h
    simp [h]
  · rename_i h
    simp [h, Ulid.increment?_eq_none]

end Revision

theorem headRevision_concat (log : List RecordedEvent) (e : RecordedEvent) :
    headRevision (log ++ [e]) = e.revision := by
  simp [headRevision]

theorem headRevision_append (log : List RecordedEvent) {recorded : List RecordedEvent}
    (h : recorded ≠ []) : headRevision (log ++ recorded) = headRevision recorded := by
  obtain ⟨init, last, rfl⟩ := List.eq_nil_or_concat recorded |>.resolve_left h
  rw [List.concat_eq_append, ← List.append_assoc, headRevision_concat, headRevision_concat]

/-- A place in a list with one more element is its end or a place before. -/
theorem concat_eq_append_cons {α : Type} {xs before after : List α} {x y : α}
    (h : xs ++ [x] = before ++ y :: after) :
    (after = [] ∧ y = x ∧ before = xs) ∨
      ∃ init, after = init ++ [x] ∧ xs = before ++ y :: init := by
  obtain rfl | ⟨init, last, rfl⟩ := List.eq_nil_or_concat after
  · obtain ⟨rfl, hx⟩ := List.append_inj' h rfl
    cases hx
    exact .inl ⟨rfl, rfl, rfl⟩
  · rw [List.concat_eq_append, ← List.cons_append, ← List.append_assoc] at h
    obtain ⟨rfl, hx⟩ := List.append_inj' h rfl
    cases hx
    exact .inr ⟨init, List.concat_eq_append, rfl⟩

/-- The revision of the last of some events, or the one that comes before them all. -/
def headAfter (previous : Revision) (events : List RecordedEvent) : Revision :=
  (events.getLast?.map RecordedEvent.revision).getD previous

theorem headAfter_cons (previous : Revision) (e : RecordedEvent) (rest : List RecordedEvent) :
    headAfter previous (e :: rest) = headAfter e.revision rest := by
  cases rest with
  | nil => rfl
  | cons f more => simp [headAfter, List.getLast?_cons]

theorem headAfter_append (r : Revision) (xs ys : List RecordedEvent) :
    headAfter r (xs ++ ys) = headAfter (headAfter r xs) ys := by
  induction xs generalizing r with
  | nil => rfl
  | cons e rest ih => rw [List.cons_append, headAfter_cons, headAfter_cons, ih]

theorem headAfter_headRevision (log events : List RecordedEvent) :
    headAfter (headRevision log) events = headRevision (log ++ events) := by
  by_cases h : events = []
  · subst h
    rw [List.append_nil]
    rfl
  · rw [headRevision_append log h]
    obtain ⟨init, last, rfl⟩ := List.eq_nil_or_concat events |>.resolve_left h
    simp [headAfter, headRevision]

/-- Revisions strictly increase from the one that comes before the events. -/
def Ascending (previous : Revision) (log : List RecordedEvent) : Prop :=
  (previous :: log.map RecordedEvent.revision).Pairwise (· < ·)

/-- Revisions strictly increase from the first event on, which comes after the initial one. -/
def Ordered (log : List RecordedEvent) : Prop := Ascending .initial log

theorem ordered_nil : Ordered [] := List.pairwise_singleton _ _

theorem Ordered.le_head {log : List RecordedEvent} (h : Ordered log) {e : RecordedEvent}
    (he : e ∈ log) : e.revision ≤ headRevision log := by
  obtain rfl | ⟨init, last, rfl⟩ := List.eq_nil_or_concat log
  · cases he
  · rw [List.concat_eq_append] at h he ⊢
    rw [headRevision_concat]
    obtain hi | hl := List.mem_append.1 he
    · simp only [Ordered, Ascending, List.map_append, List.pairwise_cons,
        List.pairwise_append] at h
      have below := h.2.2.2 e.revision (List.mem_map_of_mem hi) last.revision (by simp)
      exact Revision.le_of_lt below
    · rw [List.mem_singleton.1 hl]
      exact Revision.le_refl _

theorem Ordered.initial_lt {log : List RecordedEvent} (h : Ordered log) {e : RecordedEvent}
    (he : e ∈ log) : .initial < e.revision :=
  (List.pairwise_cons.1 h).1 _ (List.mem_map_of_mem he)

theorem Ordered.head_eq_initial {log : List RecordedEvent} (h : Ordered log) :
    headRevision log = .initial ↔ log = [] := by
  constructor
  · intro hr
    obtain rfl | ⟨init, last, rfl⟩ := List.eq_nil_or_concat log
    · rfl
    · rw [List.concat_eq_append] at h hr
      have first := h.initial_lt (e := last) (by simp)
      rw [headRevision_concat] at hr
      exact absurd (hr ▸ first) (Revision.lt_irrefl _)
  · rintro rfl
    rfl

/-- Events that ascend from the head of an ordered log can follow it. -/
theorem Ordered.append {log recorded : List RecordedEvent} (h : Ordered log)
    (hr : Ascending (headRevision log) recorded) : Ordered (log ++ recorded) := by
  have above := List.pairwise_cons.1 hr
  have cut : Revision.initial :: (log ++ recorded).map RecordedEvent.revision =
      (Revision.initial :: log.map RecordedEvent.revision) ++
        recorded.map RecordedEvent.revision := by simp
  rw [Ordered, Ascending, cut, List.pairwise_append]
  refine ⟨h, above.2, ?_⟩
  intro r hlog s hs
  have hle : r ≤ headRevision log := by
    obtain rfl | hmem := List.mem_cons.1 hlog
    · exact Revision.initial_le _
    · obtain ⟨e, he, rfl⟩ := List.mem_map.1 hmem
      exact h.le_head he
  exact Revision.lt_of_le_of_lt hle (above.1 s hs)

/-- Whatever follows in an ordered log lies above the head before it. -/
theorem Ordered.head_lt_of_append {log rest : List RecordedEvent} (h : Ordered (log ++ rest))
    {e : RecordedEvent} (he : e ∈ rest) : headRevision log < e.revision := by
  obtain rfl | ⟨init, last, rfl⟩ := List.eq_nil_or_concat log
  · exact h.initial_lt (by simpa using he)
  · rw [List.concat_eq_append] at h ⊢
    rw [headRevision_concat]
    simp only [Ordered, Ascending, List.map_append, List.pairwise_cons,
      List.pairwise_append] at h
    exact h.2.2.2 last.revision (by simp) e.revision (List.mem_map_of_mem he)

theorem Ordered.head_lt {log rest : List RecordedEvent} (h : Ordered (log ++ rest))
    (hr : rest ≠ []) : headRevision log < headRevision (log ++ rest) := by
  obtain ⟨init, last, rfl⟩ := List.eq_nil_or_concat rest |>.resolve_left hr
  rw [List.concat_eq_append] at h ⊢
  rw [← List.append_assoc, headRevision_concat]
  exact h.head_lt_of_append (by simp)

theorem Ordered.head_le_of_part {part log : List RecordedEvent} (h : Ordered log)
    (hp : part <+: log) : headRevision part ≤ headRevision log := by
  obtain ⟨rest, rfl⟩ := hp
  by_cases hr : rest = []
  · subst hr
    rw [List.append_nil]
    exact Revision.le_refl _
  · exact Revision.le_of_lt (h.head_lt hr)

/-- A head is seen once: a part of a log with the head of the whole is the whole. -/
theorem Ordered.eq_of_head_eq {part log : List RecordedEvent} (h : Ordered log)
    (hp : part <+: log) (heq : headRevision part = headRevision log) : part = log := by
  obtain ⟨rest, rfl⟩ := hp
  by_cases hr : rest = []
  · rw [hr, List.append_nil]
  · have below := h.head_lt hr
    rw [heq] at below
    exact absurd below (Revision.lt_irrefl _)

section Recording
variable {a : AggregateId} {m : Metadata} {t : Timestamp} {draw : Nat → EventDraw}

theorem recordBatch_cons (i : Nat) (previous : Revision) (e : DomainEvent)
    (rest : List DomainEvent) :
    recordBatch a m t draw i previous (e :: rest) =
      (Revision.next? (draw i).revision previous).bind fun r =>
        (recordBatch a m t draw (i + 1) r rest).map fun tail =>
          ⟨⟨(draw i).id⟩, a, e.type, e.data, r, t, m⟩ :: tail := by
  rw [recordBatch]
  cases Revision.next? (draw i).revision previous with
  | none => rfl
  | some r => cases h : recordBatch a m t draw (i + 1) r rest <;> simp [h]

theorem recordBatch_cons_eq_some {i : Nat} {previous : Revision} {e : DomainEvent}
    {rest : List DomainEvent} {recorded : List RecordedEvent} :
    recordBatch a m t draw i previous (e :: rest) = some recorded ↔
      ∃ r tail, Revision.next? (draw i).revision previous = some r ∧
        recordBatch a m t draw (i + 1) r rest = some tail ∧
        recorded = ⟨⟨(draw i).id⟩, a, e.type, e.data, r, t, m⟩ :: tail := by
  rw [recordBatch_cons, Option.bind_eq_some_iff]
  constructor
  · rintro ⟨r, hr, h⟩
    obtain ⟨tail, ht, rfl⟩ := Option.map_eq_some_iff.1 h
    exact ⟨r, tail, hr, ht, rfl⟩
  · rintro ⟨r, tail, hr, ht, rfl⟩
    exact ⟨r, hr, by rw [ht]; rfl⟩

theorem recordBatch_toDomain {i : Nat} {previous : Revision} {batch : List DomainEvent}
    {recorded : List RecordedEvent}
    (h : recordBatch a m t draw i previous batch = some recorded) :
    recorded.map RecordedEvent.toDomain = batch := by
  induction batch generalizing i previous recorded with
  | nil =>
      cases h
      rfl
  | cons e rest ih =>
      obtain ⟨r, tail, _, htail, rfl⟩ := recordBatch_cons_eq_some.1 h
      rw [List.map_cons, ih htail, RecordedEvent.toDomain]

theorem recordBatch_ascending {i : Nat} {previous : Revision} {batch : List DomainEvent}
    {recorded : List RecordedEvent}
    (h : recordBatch a m t draw i previous batch = some recorded) :
    Ascending previous recorded := by
  induction batch generalizing i previous recorded with
  | nil =>
      cases h
      exact List.pairwise_singleton _ _
  | cons e rest ih =>
      obtain ⟨r, tail, hr, htail, rfl⟩ := recordBatch_cons_eq_some.1 h
      have later := ih htail
      have hlt := Revision.lt_of_next? hr
      refine List.pairwise_cons.2 ⟨?_, later⟩
      intro s hs
      obtain rfl | hmem := List.mem_cons.1 hs
      · exact hlt
      · exact Revision.lt_trans hlt ((List.pairwise_cons.1 later).1 s hmem)

/-- A batch cannot be recorded exactly where one of its events finds no revision: the fresh
identifier is not greater than the revision before it, and that one has no successor. -/
theorem recordBatch_eq_none {i : Nat} {previous : Revision} {batch : List DomainEvent} :
    recordBatch a m t draw i previous batch = none ↔
      ∃ k before, k < batch.length ∧
        recordBatch a m t draw i previous (batch.take k) = some before ∧
        ¬ (headAfter previous before).ulid < (draw (i + k)).revision ∧
        (headAfter previous before).ulid.random = Ulid.randomSize - 1 := by
  induction batch generalizing i previous with
  | nil => simp [recordBatch]
  | cons e rest ih =>
      cases hn : Revision.next? (draw i).revision previous with
      | none =>
          refine iff_of_true (by rw [recordBatch_cons, hn]; rfl) ⟨0, [], by simp, rfl, ?_⟩
          exact Revision.next?_eq_none.1 hn
      | some r =>
          have hstep : recordBatch a m t draw i previous (e :: rest) = none ↔
              recordBatch a m t draw (i + 1) r rest = none := by
            rw [recordBatch_cons, hn]
            simp
          rw [hstep, ih]
          constructor
          · rintro ⟨k, before, hk, hb, hlast⟩
            refine ⟨k + 1, _ :: before, by simpa using hk,
              recordBatch_cons_eq_some.2 ⟨r, before, hn, hb, rfl⟩, ?_⟩
            rw [headAfter_cons, ← Nat.add_assoc, Nat.add_right_comm]
            exact hlast
          · rintro ⟨k, before, hk, hb, hlast⟩
            cases k with
            | zero =>
                cases hb
                have none := hn.symm.trans (Revision.next?_eq_none.2 hlast)
                cases none
            | succ k =>
                obtain ⟨r', tail, hr', htail, rfl⟩ := recordBatch_cons_eq_some.1 hb
                cases hn.symm.trans hr'
                refine ⟨k, tail, by simpa using hk, htail, ?_⟩
                rw [headAfter_cons, ← Nat.add_assoc, Nat.add_right_comm] at hlast
                exact hlast

end Recording
end EventSourcing
