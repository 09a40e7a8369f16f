import EventSourcing.Store.Access
import EventSourcing.Proofs.Store.Commit

/-!
Histories of a store.
A history is any sequence of appends and clearings, in which the clock and the source of random bits
may turn to anything at any time. Through all of it every log stays ordered, so that the head of a
log is the revision of its last event and is initial only for an empty log.
-/
namespace EventSourcing

/-- What can happen to a store. -/
inductive StoreOp where
  | append (a : AggregateId) (batch : List DomainEvent) (o : AppendOptions)
  | clear
  /-- From now on the clock and the source of random bits show something else. -/
  | turn (readings : Nat → Reading)

namespace World

def perform (w : World) : StoreOp → World
  | .append a batch o => (w.commit a batch o).2
  | .clear => w.clear
  | .turn readings => w.turn readings

/-- The world after a history. -/
def after (w : World) (history : List StoreOp) : World := history.foldl perform w

theorem ordered_perform {w : World} (h : ∀ a, Ordered (w.log a)) (op : StoreOp)
    (a : AggregateId) : Ordered ((w.perform op).log a) := by
  cases op with
  | append b batch o => exact ordered_commit h a
  | clear => exact ordered_nil
  | turn readings => exact h a

theorem link_perform (w : World) (op : StoreOp) : (w.perform op).link = w.link := by
  cases op with
  | append a batch o => exact link_commit
  | clear | turn readings => rfl

theorem ordered_after {w : World} (h : ∀ a, Ordered (w.log a)) (history : List StoreOp)
    (a : AggregateId) : Ordered ((w.after history).log a) := by
  induction history generalizing w with
  | nil => exact h a
  | cons op rest ih => exact ih (fun b => ordered_perform h op b)

theorem link_after (w : World) (history : List StoreOp) : (w.after history).link = w.link := by
  induction history generalizing w with
  | nil => rfl
  | cons op rest ih =>
      rw [after, List.foldl_cons]
      exact (ih (w.perform op)).trans (link_perform w op)

end World

namespace StoreAccess
variable {w : World} {a : AggregateId}

/-- The latest revision is the head of the log. -/
theorem run_latest (h : w.link.IsClear) :
    (((direct.latest a).run w).1 : Option (Except StoreError Revision)) =
      some (.ok (headRevision (w.log a))) := by
  change ((Activity.load a fun r => .done (r.map headRevision)).run w).1 = _
  rw [Activity.run, World.load_of_isClear h]
  rfl

theorem run_holdsEvents (h : w.link.IsClear) :
    (((direct.holdsEvents a).run w).1 : Option (Except StoreError Bool)) =
      some (.ok !(headRevision (w.log a)).isInitial) := by
  change ((Activity.load a fun r =>
    .done ((r.map headRevision).map fun r => !r.isInitial)).run w).1 = _
  rw [Activity.run, World.load_of_isClear h]
  rfl

end StoreAccess

theorem Ordered.isInitial_head {log : List RecordedEvent} (h : Ordered log) :
    (headRevision log).isInitial = decide (log = []) := by
  have iff : headRevision log = .initial ↔ log = [] := h.head_eq_initial
  have same : (headRevision log).isInitial = decide (headRevision log = .initial) := by
    rw [Revision.isInitial]
    congr 1
    exact propext ⟨fun hu => congrArg Revision.mk hu, fun hr => congrArg Revision.ulid hr⟩
  rw [same]
  exact decide_eq_decide.2 iff

/-- Every log of a store that began empty is ordered. -/
theorem ordered_of_empty {w : World} (empty : w.store.logs = ∅) (history : List StoreOp)
    (a : AggregateId) : Ordered ((w.after history).log a) := by
  refine World.ordered_after (fun b => ?_) history a
  rw [World.log, Logs.log, empty]
  exact ordered_nil

/-- Where the head is allowed, a batch fails only for want of a revision. -/
theorem World.commit_error_iff {w : World} {a : AggregateId} {batch : List DomainEvent}
    {o : AppendOptions} (hc : checkBatch batch = .ok ())
    (ho : o.Allows (headRevision (w.log a))) :
    (∀ e, (w.commit a batch o).1 = .error e → e = .transient .revisionsExhausted) ∧
      ((∃ e, (w.commit a batch o).1 = .error e) ↔ w.RunsOut a batch o) := by
  rw [← World.recorded?_eq_none]
  cases hr : w.recorded? a batch o with
  | none =>
      rw [World.commit_of_exhausted hc ho hr]
      refine ⟨fun e he => ?_, iff_of_true ⟨_, rfl⟩ rfl⟩
      cases he
      rfl
  | some recorded =>
      rw [World.commit_of_recorded hc ho hr]
      refine ⟨fun e he => ?_, iff_of_false ?_ ?_⟩
      · cases he
      · rintro ⟨e, he⟩
        cases he
      · intro h
        cases h

/-- Whatever the clock shows through a history of a store, revisions increase in every log and lie
above the initial one; an append returns the revision of the last event it wrote, which is then the
latest one; an aggregate exists where its log is not empty; and where the head is as expected, a
valid batch fails only when one of its events finds no revision. -/
theorem revisions_increase_under_any_clock (w : World) (empty : w.store.logs = ∅)
    (clear : w.link.IsClear) (history : List StoreOp) :
    let v := w.after history
    (∀ a, ((v.log a).map RecordedEvent.revision).Pairwise (· < ·) ∧
      ∀ e ∈ v.log a, Revision.initial < e.revision) ∧
    (∀ a batch o r, (v.commit a batch o).1 = .ok r →
      ∃ init last, (v.commit a batch o).2.log a = v.log a ++ (init ++ [last]) ∧
        (init ++ [last]).map RecordedEvent.toDomain = batch ∧ last.revision = r ∧
        ((StoreAccess.direct.latest a).run (v.commit a batch o).2).1 = some (.ok r)) ∧
    (∀ a, ((StoreAccess.direct.holdsEvents a).run v).1 = some (.ok (decide (v.log a ≠ [])))) ∧
    (∀ a batch o, batch ≠ [] → (∀ e ∈ batch, e.type ≠ "") →
      o.Allows (headRevision (v.log a)) →
      (∀ e, (v.commit a batch o).1 = .error e → e = .transient .revisionsExhausted) ∧
        ((∃ e, (v.commit a batch o).1 = .error e) ↔ v.RunsOut a batch o)) := by
  intro v
  have ordered (a : AggregateId) : Ordered (v.log a) := ordered_of_empty empty history a
  have link : v.link.IsClear := by
    rw [World.link_after]
    exact clear
  refine ⟨?_, ?_, ?_, ?_⟩
  · intro a
    exact ⟨(List.pairwise_cons.1 (ordered a)).2, fun e he => (ordered a).initial_lt he⟩
  · intro a batch o r hr
    obtain ⟨recorded, hc, ho, hrec, rfl, heq⟩ := World.commit_ok hr
    have hne := World.recorded?_ne_nil hc hrec
    have hlog : (v.commit a batch o).2.log a = v.log a ++ recorded := by
      rw [heq, World.log_extend, if_pos rfl]
    have hlatest : ((StoreAccess.direct.latest a).run (v.commit a batch o).2).1 =
        some (.ok (headRevision recorded)) := by
      have linkAfter : (v.commit a batch o).2.link.IsClear := by
        rw [World.link_commit]
        exact link
      rw [StoreAccess.run_latest linkAfter, hlog, headRevision_append _ hne]
    obtain ⟨init, last, rfl⟩ := List.eq_nil_or_concat recorded |>.resolve_left hne
    rw [List.concat_eq_append] at *
    exact ⟨init, last, hlog, World.recorded?_toDomain hrec, (headRevision_concat _ _).symm,
      hlatest⟩
  · intro a
    rw [StoreAccess.run_holdsEvents link, (ordered a).isInitial_head]
    by_cases h : v.log a = [] <;> simp [h]
  · intro a batch o hne hnamed ho
    exact World.commit_error_iff (checkBatch_eq_ok.2 ⟨hne, hnamed⟩) ho

/-- A clock that stands still with all random bits but the last set: the second revision of the
batch is the last one there is, and the next append fails. -/
theorem revisions_increase_until_used_up :
    let w : World := { readings := fun _ => ⟨5, Ulid.randomSize - 2⟩, shares := fun _ => 0 }
    let a : AggregateId := ⟨"account", "1"⟩
    let e : DomainEvent := ⟨"noted", .null⟩
    let v := w.after [.append a [e, e] {}]
    ((v.log a).map RecordedEvent.revision).Pairwise (· < ·) ∧ (v.log a).length = 2 ∧
      (v.commit a [e] {}).1 = .error (.transient .revisionsExhausted) := by
  intro w a e v
  have law := revisions_increase_under_any_clock w rfl ⟨rfl, rfl, rfl⟩ [.append a [e, e] {}]
  obtain ⟨err, herr⟩ := exists_error (x := (v.commit a [e] {}).1) (by decide +kernel)
  have allowed : ({} : AppendOptions).Allows (headRevision (v.log a)) := fun r hr => by cases hr
  refine ⟨(law.1 a).1, by decide +kernel, ?_⟩
  rw [herr, (law.2.2.2 a [e] {} (by simp) (by simp [e]) allowed).1 err herr]

end EventSourcing
