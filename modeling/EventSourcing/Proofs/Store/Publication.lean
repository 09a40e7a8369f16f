import Mathlib.Data.List.Nodup
import EventSourcing.Proofs.Store.Contents

/-!
Commits and their publication.
An append commits its whole batch to the log in one step. It publishes what it has committed only
afterwards, one event at a time, and other appends may commit and publish in between. So the logs
stay ordered and hold exactly what is published or under way; but the feed carries the events of one
aggregate in the order of its log only where its appends do not overtake each other.
-/
namespace EventSourcing

theorem Logs.log_extend (l : Logs) (a b : AggregateId) (recorded : List RecordedEvent) :
    (l.extend a recorded).log b = if a = b then l.log a ++ recorded else l.log b := by
  rw [extend, log, Assoc.get?_put]
  split <;> rfl

theorem Logs.record_eq_ok {l : Logs} {a : AggregateId} {batch : List DomainEvent}
    {o : AppendOptions} {t : Timestamp} {draw : Nat → EventDraw} {recorded : List RecordedEvent}
    (h : l.record a batch o t draw = .ok recorded) :
    recordBatch a o.metadata t draw 0 (l.head a) batch = some recorded := by
  cases hc : checkBatch batch with
  | error f =>
      simp only [record, World.mapError_checkBatch_of_error hc, bind, Except.bind] at h
      cases h
  | ok u =>
      simp only [record, World.mapError_checkBatch_of_ok hc, bind, Except.bind] at h
      repeat' split at h
      all_goals cases h
      all_goals assumption

/-- A commit fails and leaves the logs as they are, or it puts events of one aggregate behind the
head of its log. -/
theorem Logs.commit_cases (l : Logs) (a : AggregateId) (batch : List DomainEvent)
    (o : AppendOptions) (t : Timestamp) (draw : Nat → EventDraw) :
    (∃ e, l.commit a batch o t draw = (.error e, l)) ∨
      ∃ recorded, l.commit a batch o t draw = (.ok recorded, l.extend a recorded) ∧
        Ascending (headRevision (l.log a)) recorded ∧ ∀ e ∈ recorded, e.aggregate = a := by
  rw [commit]
  cases h : l.record a batch o t draw with
  | error e => exact .inl ⟨e, rfl⟩
  | ok recorded =>
      have hrec := record_eq_ok h
      refine .inr ⟨recorded, rfl, recordBatch_ascending hrec, fun e he => ?_⟩
      have details := recordBatch_details hrec
      have mem := List.mem_map_of_mem
        (f := fun e => (e.aggregate, e.toDomain, e.metadata, e.timestamp)) he
      rw [details] at mem
      obtain ⟨_, _, heq⟩ := List.mem_map.1 mem
      exact (congrArg Prod.fst heq).symm

/-- A store whose appends publish what they have committed only afterwards. -/
structure Publication where
  logs : Logs := ∅
  feed : Feed := {}
  /-- What each append has committed and not yet published. -/
  outboxes : List (List RecordedEvent) := []

namespace Publication

/-- What can happen to a store, as far as it is neither cleared nor dropped. -/
inductive Op where
  /-- An append commits its batch at the time and with the identifiers that it finds. -/
  | commit (a : AggregateId) (batch : List DomainEvent) (o : AppendOptions) (t : Timestamp)
      (draw : Nat → EventDraw)
  /-- An append publishes the next of its events. -/
  | publish (i : Nat)

def perform (p : Publication) : Op → Publication
  | .commit a batch o t draw =>
    match p.logs.commit a batch o t draw with
    | (.ok recorded, logs) => { p with logs, outboxes := p.outboxes ++ [recorded] }
    | (.error _, _) => p
  | .publish i =>
    match p.outboxes[i]? with
    | some (e :: rest) => { p with feed := p.feed.publish e, outboxes := p.outboxes.set i rest }
    | _ => p

def after (p : Publication) (history : List Op) : Publication := history.foldl perform p

/-- The events that are committed and not yet published. -/
def underway (p : Publication) : List RecordedEvent := p.outboxes.flatten

/-- The feed carries the events of an aggregate in the order of its log. -/
def Carries (p : Publication) (a : AggregateId) : Prop :=
  (p.feed.published.filter fun e => e.aggregate = a) <+: p.logs.log a

/-- What holds of every store that began empty. -/
structure Consistent (p : Publication) : Prop where
  ordered : ∀ a, Ordered (p.logs.log a)
  own : ∀ a, ∀ e ∈ p.logs.log a, e.aggregate = a
  stored : ∀ e, e ∈ p.logs.log e.aggregate ↔ e ∈ p.feed.published ∨ e ∈ p.underway

theorem consistent_empty (f : Feed) (h : f.published = []) : Consistent { feed := f } where
  ordered _ := ordered_nil
  own _ _ he := by cases he
  stored e := by simp [h, underway, Logs.log]

/-- The events that one operation leaves under way, with the one that it publishes. -/
theorem mem_flatten_set {outboxes : List (List RecordedEvent)} {i : Nat} {e : RecordedEvent}
    {rest : List RecordedEvent} (h : outboxes[i]? = some (e :: rest)) (x : RecordedEvent) :
    x ∈ outboxes.flatten ↔ x = e ∨ x ∈ (outboxes.set i rest).flatten := by
  induction outboxes generalizing i with
  | nil => cases h
  | cons box boxes ih =>
      cases i with
      | zero =>
          cases h
          simp
      | succ i =>
          have later := ih (i := i) h
          rw [List.set_cons_succ, List.flatten_cons, List.flatten_cons, List.mem_append,
            List.mem_append, later, or_left_comm]

theorem Consistent.perform {p : Publication} (h : p.Consistent) (op : Op) :
    (p.perform op).Consistent := by
  cases op with
  | commit a batch o t draw =>
      rw [Publication.perform]
      obtain ⟨e, he⟩ | ⟨recorded, hc, ascending, own⟩ := p.logs.commit_cases a batch o t draw
      · rw [he]
        exact h
      · rw [hc]
        refine ⟨fun b => ?_, fun b e he => ?_, fun e => ?_⟩
        · rw [Logs.log_extend]
          split
          · exact (h.ordered a).append ascending
          · exact h.ordered b
        · rw [Logs.log_extend] at he
          split at he
          · rename_i hab
            obtain old | new := List.mem_append.1 he
            · rw [← hab]
              exact h.own a e old
            · rw [← hab]
              exact own e new
          · exact h.own b e he
        · have elsewhere (hne : ¬ a = e.aggregate) : e ∉ recorded := fun he =>
            hne (own e he).symm
          have old := h.stored e
          simp only [underway, List.flatten_append, List.mem_append, List.flatten_singleton]
          rw [Logs.log_extend]
          split
          · rename_i ha
            rw [List.mem_append, ha, old, underway, or_assoc]
          · rename_i hne
            simp [old, underway, elsewhere hne]
  | publish i =>
      rw [Publication.perform]
      split
      · rename_i e rest hi
        refine ⟨h.ordered, h.own, fun x => ?_⟩
        have moved := mem_flatten_set hi x
        simp only [underway, Feed.publish, List.mem_append, List.mem_singleton]
        rw [h.stored x, underway, moved, or_assoc]
      · exact h

theorem Consistent.after {p : Publication} (h : p.Consistent) (history : List Op) :
    (p.after history).Consistent := by
  induction history generalizing p with
  | nil => exact h
  | cons op rest ih => exact ih (h.perform op)

/-- In a list of increasing revisions an event is known by its revision, so that the feed carries
an aggregate if the revisions it has published of it are the first ones of the log. -/
theorem Consistent.carries {p : Publication} (h : p.Consistent) {a : AggregateId}
    (revisions : (p.feed.published.filter fun e => e.aggregate = a).map RecordedEvent.revision <+:
      (p.logs.log a).map RecordedEvent.revision) : p.Carries a := by
  have nodup : ((p.logs.log a).map RecordedEvent.revision).Nodup := by
    refine (List.pairwise_cons.1 (h.ordered a)).2.imp ?_
    intro r s less same
    rw [same] at less
    exact Revision.lt_irrefl s less
  have stored : ∀ e ∈ p.feed.published.filter (fun e => e.aggregate = a), e ∈ p.logs.log a := by
    intro e he
    obtain ⟨published, own⟩ := List.mem_filter.1 he
    have old := (h.stored e).2 (.inl published)
    rw [of_decide_eq_true own] at old
    exact old
  obtain ⟨rest, heq⟩ := revisions
  obtain ⟨first, more, hlog, hfirst, _⟩ := List.map_eq_append_iff.1 heq.symm
  have same : p.feed.published.filter (fun e => e.aggregate = a) = first := by
    have lengths := congrArg List.length hfirst
    rw [List.length_map, List.length_map] at lengths
    refine List.ext_getElem lengths.symm fun i hi hj => ?_
    refine List.inj_on_of_nodup_map nodup (stored _ (List.getElem_mem hi)) ?_ ?_
    · rw [hlog]
      exact List.mem_append_left _ (List.getElem_mem hj)
    · have at_i := congrArg (fun l => l[i]?) hfirst
      simpa [hi, hj] using at_i.symm
  rw [Carries, same, hlog]
  exact List.prefix_append _ _

/-- Logs and feed only grow. -/
structure Grows (p q : Publication) : Prop where
  log : ∀ a, p.logs.log a <+: q.logs.log a
  published : p.feed.published <+: q.feed.published

theorem Grows.refl (p : Publication) : p.Grows p := ⟨fun _ => List.prefix_rfl, List.prefix_rfl⟩

theorem Grows.trans {p q s : Publication} (h : p.Grows q) (h' : q.Grows s) : p.Grows s :=
  ⟨fun a => (h.log a).trans (h'.log a), h.published.trans h'.published⟩

theorem grows_perform (p : Publication) (op : Op) : p.Grows (p.perform op) := by
  cases op with
  | commit a batch o t draw =>
      rw [perform]
      obtain ⟨e, he⟩ | ⟨recorded, hc, _, _⟩ := p.logs.commit_cases a batch o t draw
      · rw [he]
        exact .refl p
      · rw [hc]
        refine ⟨fun b => ?_, List.prefix_rfl⟩
        rw [Logs.log_extend]
        split
        · rename_i hab
          rw [hab]
          exact List.prefix_append _ _
        · exact List.prefix_rfl
  | publish i =>
      rw [perform]
      split
      · exact ⟨fun _ => List.prefix_rfl, List.prefix_append _ _⟩
      · exact .refl p

theorem grows_after (p : Publication) (history : List Op) : p.Grows (p.after history) := by
  induction history generalizing p with
  | nil => exact .refl p
  | cons op rest ih => exact (p.grows_perform op).trans (ih _)

end Publication
end EventSourcing
