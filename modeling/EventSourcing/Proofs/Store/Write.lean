import EventSourcing.Proofs.Store.Commit

/-!
What a successful append writes.
Its batch stands behind the head of one log, with revisions that increase from there, and no other
log changes. Over a clear link that is all there is to know about an append that went through.
-/
namespace EventSourcing

namespace World
variable {w v : World} {a : AggregateId} {batch : List DomainEvent} {r : Revision}

/-- A batch was recorded behind the head of one log, and nothing else changed in the logs. -/
def Wrote (w : World) (a : AggregateId) (batch : List DomainEvent) (r : Revision)
    (v : World) : Prop :=
  ∃ recorded, recorded ≠ [] ∧ Ascending (headRevision (w.log a)) recorded ∧
    recorded.map RecordedEvent.toDomain = batch ∧ r = headRevision recorded ∧
    ∀ b, v.log b = if a = b then w.log a ++ recorded else w.log b

theorem wrote_commit {o : AppendOptions} (h : (w.commit a batch o).1 = .ok r) :
    o.Allows (headRevision (w.log a)) ∧ w.Wrote a batch r (w.commit a batch o).2 := by
  obtain ⟨recorded, hc, ho, hrec, hr, heq⟩ := commit_ok h
  refine ⟨ho, recorded, recorded?_ne_nil hc hrec, recordBatch_ascending hrec,
    recorded?_toDomain hrec, hr, ?_⟩
  intro b
  rw [heq, log_extend]

section Clear
variable (clear : w.link.IsClear) {o : AppendOptions}
include clear

theorem wrote_append (h : (w.append a batch o).1 = .ok r) :
    o.Allows (headRevision (w.log a)) ∧ w.Wrote a batch r (w.append a batch o).2 := by
  rw [append_of_isClear clear] at h ⊢
  exact wrote_commit h

theorem log_append_error {e : StoreError} (h : (w.append a batch o).1 = .error e)
    (b : AggregateId) : (w.append a batch o).2.log b = w.log b := by
  rw [append_of_isClear clear] at h ⊢
  exact log_commit_error h b

theorem isClear_append : (w.append a batch o).2.link.IsClear := by
  rw [append_of_isClear clear, link_commit]
  exact isClear_appending clear

end Clear

theorem Wrote.ordered (h : w.Wrote a batch r v) (ordered : ∀ b, Ordered (w.log b))
    (b : AggregateId) : Ordered (v.log b) := by
  obtain ⟨recorded, _, ascending, _, _, hlog⟩ := h
  rw [hlog]
  split
  · exact (ordered a).append ascending
  · exact ordered b

theorem Wrote.grows (h : w.Wrote a batch r v) (b : AggregateId) : w.log b <+: v.log b := by
  obtain ⟨recorded, _, _, _, _, hlog⟩ := h
  rw [hlog]
  split
  · rename_i hab
    subst hab
    exact List.prefix_append _ _
  · exact List.prefix_rfl

theorem Wrote.head_eq (h : w.Wrote a batch r v) : headRevision (v.log a) = r := by
  obtain ⟨recorded, hne, _, _, hr, hlog⟩ := h
  rw [hlog, if_pos rfl, headRevision_append _ hne, hr]

theorem Wrote.head_lt (h : w.Wrote a batch r v) (ordered : ∀ b, Ordered (w.log b)) :
    headRevision (w.log a) < headRevision (v.log a) := by
  have after := h.ordered ordered a
  obtain ⟨recorded, hne, _, _, _, hlog⟩ := h
  rw [hlog, if_pos rfl] at after ⊢
  exact after.head_lt hne

end World

end EventSourcing
