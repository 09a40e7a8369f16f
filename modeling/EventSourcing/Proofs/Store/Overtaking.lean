import EventSourcing.Proofs.Store.Watching

/-!
Events that overtake each other.
An append holds the lock while it commits and no longer while it publishes, so that a later append
to the same aggregate can publish before it. Each event is published all the same, and once; but the
feed is then not in the order of the log. A subscriber takes an event that is not above the last one
it has seen for one that it knows, so it misses, without a lag, every event that it finds behind a
later one of its aggregate. It misses no other.
-/
namespace EventSourcing

theorem Revision.lt_of_not_lt {a b : Revision} (h : ¬ b < a) (hne : a ≠ b) : a < b := by
  refine Nat.lt_of_le_of_ne (Nat.le_of_not_lt h) fun same => hne ?_
  cases a
  cases b
  exact congrArg Revision.mk (Ulid.ext_toNat same)

/-- An event stands behind a later one of its aggregate. -/
def Overtaken (events : List RecordedEvent) (e : RecordedEvent) : Prop :=
  ∃ x, x.aggregate = e.aggregate ∧ e.revision < x.revision ∧ [x, e].Sublist events

/-- No two events of one aggregate have one revision. -/
def Distinct (events : List RecordedEvent) : Prop :=
  events.Pairwise fun x y => x.aggregate = y.aggregate → x.revision ≠ y.revision

/-- What is new among some events to one who has seen an aggregate up to a revision: those of the
aggregate that are above the revision and above all that is new before them. -/
def newerEvents (a : AggregateId) (r : Revision) : List RecordedEvent → List RecordedEvent
  | [] => []
  | e :: rest =>
    if e.aggregate = a ∧ r < e.revision then e :: newerEvents a e.revision rest
    else newerEvents a r rest

section Newer
variable {a : AggregateId} {r : Revision} {e y : RecordedEvent} {xs ys : List RecordedEvent}

theorem overtaken_cons : Overtaken (y :: xs) e ↔
    Overtaken xs e ∨ e ∈ xs ∧ y.aggregate = e.aggregate ∧ e.revision < y.revision := by
  constructor
  · rintro ⟨x, own, later, hx⟩
    obtain deep | ⟨_, heq, hrest⟩ := List.sublist_cons_iff.1 hx
    · exact .inl ⟨x, own, later, deep⟩
    · cases heq
      exact .inr ⟨List.singleton_sublist.1 hrest, own, later⟩
  · rintro (⟨x, own, later, hx⟩ | ⟨he, own, later⟩)
    · exact ⟨x, own, later, hx.cons y⟩
    · exact ⟨y, own, later, (List.singleton_sublist.2 he).cons_cons y⟩

theorem newerEvents_append (xs ys : List RecordedEvent) :
    newerEvents a r (xs ++ ys) =
      newerEvents a r xs ++ newerEvents a (headAfter r (newerEvents a r xs)) ys := by
  induction xs generalizing r with
  | nil => rfl
  | cons x rest ih =>
      rw [List.cons_append, newerEvents, newerEvents]
      split
      · rw [ih, headAfter_cons, List.cons_append]
      · exact ih

theorem newerEvents_eq_nil (h : ∀ x ∈ xs, ¬ (x.aggregate = a ∧ r < x.revision)) :
    newerEvents a r xs = [] := by
  induction xs with
  | nil => rfl
  | cons x rest ih =>
      obtain ⟨first, later⟩ := List.forall_mem_cons.1 h
      rw [newerEvents, if_neg first]
      exact ih later

/-- Of distinct events those are new that are above the revision and not overtaken. -/
theorem mem_newerEvents (distinct : Distinct xs) :
    e ∈ newerEvents a r xs ↔ e ∈ xs ∧ e.aggregate = a ∧ r < e.revision ∧ ¬ Overtaken xs e := by
  induction xs generalizing r with
  | nil => simp [newerEvents]
  | cons y rest ih =>
      obtain ⟨apart, more⟩ := List.pairwise_cons.1 distinct
      have once : ¬ Overtaken rest y ∧ y ∉ rest := by
        have absent : y ∉ rest := fun hy => apart y hy rfl rfl
        exact ⟨fun ⟨x, _, _, hx⟩ => absent (hx.subset (by simp)), absent⟩
      rw [newerEvents, overtaken_cons, List.mem_cons]
      split
      · rename_i new
        rw [List.mem_cons, ih more]
        constructor
        · rintro (rfl | ⟨he, own, above, free⟩)
          · exact ⟨.inl rfl, new.1, new.2, not_or.2 ⟨once.1, fun h => once.2 h.1⟩⟩
          · refine ⟨.inr he, own, Revision.lt_trans new.2 above, not_or.2 ⟨free, fun h => ?_⟩⟩
            exact Revision.lt_irrefl _ (Revision.lt_trans above h.2.2)
        · rintro ⟨rfl | he, own, above, free⟩
          · exact .inl rfl
          · have same : y.aggregate = e.aggregate := new.1.trans own.symm
            obtain ⟨deep, first⟩ := not_or.1 free
            exact .inr ⟨he, own,
              Revision.lt_of_not_lt (fun h => first ⟨he, same, h⟩) (apart e he same), deep⟩
      · rename_i known
        rw [ih more]
        constructor
        · rintro ⟨he, own, above, free⟩
          refine ⟨.inr he, own, above, not_or.2 ⟨free, fun h => known ⟨h.2.1.trans own, ?_⟩⟩⟩
          exact Revision.lt_trans above h.2.2
        · rintro ⟨rfl | he, own, above, free⟩
          · exact absurd ⟨own, above⟩ known
          · exact ⟨he, own, above, (not_or.1 free).1⟩

end Newer

namespace Publication
variable {p : Publication} {a : AggregateId}

/-- What is published or under way of an aggregate are the events of its log, each of them once. -/
def Whole (p : Publication) : Prop :=
  ∀ a, ((p.feed.published ++ p.underway).filter fun e => e.aggregate = a).Perm (p.logs.log a)

theorem whole_empty (f : Feed) (h : f.published = []) : Whole { feed := f } := by
  intro a
  rw [h]
  exact .refl _

theorem flatten_set_perm {outboxes : List (List RecordedEvent)} {i : Nat} {e : RecordedEvent}
    {rest : List RecordedEvent} (h : outboxes[i]? = some (e :: rest)) :
    outboxes.flatten.Perm (e :: (outboxes.set i rest).flatten) := by
  induction outboxes generalizing i with
  | nil => cases h
  | cons box boxes ih =>
      cases i with
      | zero =>
          cases h
          exact .refl _
      | succ i =>
          rw [List.set_cons_succ, List.flatten_cons, List.flatten_cons]
          exact ((ih (i := i) h).append_left box).trans List.perm_middle

theorem Whole.perform (h : p.Whole) (op : Op) : (p.perform op).Whole := by
  intro b
  cases op with
  | commit a batch o t draw =>
      rw [Publication.perform]
      obtain ⟨e, he⟩ | ⟨recorded, hc, _, own⟩ := p.logs.commit_cases a batch o t draw
      · rw [he]
        exact h b
      · rw [hc]
        simp only [underway, List.flatten_append, List.flatten_singleton]
        rw [← List.append_assoc, List.filter_append, Logs.log_extend]
        split
        · rename_i hab
          have all : recorded.filter (fun e => e.aggregate = b) = recorded :=
            List.filter_eq_self.2 fun e he => decide_eq_true ((own e he).trans hab)
          rw [all, hab]
          exact (h b).append_right recorded
        · rename_i hab
          have none : recorded.filter (fun e => e.aggregate = b) = [] :=
            List.filter_eq_nil_iff.2 fun e he => by simpa [own e he] using hab
          rw [none, List.append_nil]
          exact h b
  | publish i =>
      rw [Publication.perform]
      split
      · rename_i e rest hi
        refine List.Perm.trans (List.Perm.filter _ ?_) (h b)
        simp only [Feed.publish, underway, List.append_assoc, List.singleton_append]
        exact (flatten_set_perm hi).symm.append_left _
      · exact h b

theorem Whole.after (h : p.Whole) (history : List Op) : (p.after history).Whole := by
  induction history generalizing p with
  | nil => exact h
  | cons op rest ih => exact ih (h.perform op)

theorem Whole.distinct (h : p.Whole) (consistent : p.Consistent) :
    Distinct (p.feed.published ++ p.underway) := by
  refine List.pairwise_iff_forall_sublist.2 fun {x y} both same => ?_
  have own := both.filter fun e => e.aggregate = y.aggregate
  rw [List.filter_eq_self.2 (by simp [same])] at own
  have apart : (p.logs.log y.aggregate).Pairwise fun x y => x.revision ≠ y.revision := by
    refine (consistent.ordered y.aggregate).pairwise.imp fun {x y} less heq => ?_
    rw [heq] at less
    exact Revision.lt_irrefl _ less
  have shuffled := ((h y.aggregate).pairwise_iff fun hne => Ne.symm hne).2 apart
  exact List.pairwise_iff_forall_sublist.1 shuffled own

/-- The feed is a log as it is where nothing of the log is under way and nothing is overtaken. -/
theorem Whole.published_eq_log_iff (h : p.Whole) (consistent : p.Consistent) :
    (p.feed.published.filter fun e => e.aggregate = a) = p.logs.log a ↔
      ∀ e ∈ p.logs.log a, e ∉ p.underway ∧ ¬ Overtaken p.feed.published e := by
  have whole := h a
  rw [List.filter_append] at whole
  constructor
  · intro same e he
    rw [same] at whole
    have idle : p.underway.filter (fun e => e.aggregate = a) = [] := by
      have lengths := whole.length_eq
      rw [List.length_append] at lengths
      exact List.length_eq_zero_iff.1 (by omega)
    have own := consistent.own a e he
    refine ⟨fun under => ?_, fun ⟨x, hx, later, both⟩ => ?_⟩
    · exact List.filter_eq_nil_iff.1 idle e under (decide_eq_true own)
    · have both := both.filter fun e => e.aggregate = a
      rw [List.filter_eq_self.2 (by simp [own, hx]), same] at both
      have less := List.pairwise_iff_forall_sublist.1 (consistent.ordered a).pairwise both
      exact Revision.lt_irrefl _ (Revision.lt_trans less later)
  · intro free
    have idle : p.underway.filter (fun e => e.aggregate = a) = [] := by
      refine List.filter_eq_nil_iff.2 fun e under own => ?_
      have own := of_decide_eq_true own
      have stored := (consistent.stored e).2 (.inr under)
      rw [own] at stored
      exact (free e stored).1 under
    rw [idle, List.append_nil] at whole
    have rising : (p.feed.published.filter fun e => e.aggregate = a).Pairwise
        fun x y => x.revision < y.revision := by
      refine List.pairwise_iff_forall_sublist.2 fun {x y} both => ?_
      have own : ∀ z ∈ [x, y], z.aggregate = a := fun z hz =>
        of_decide_eq_true (List.mem_filter.1 (both.subset hz)).2
      have same : x.aggregate = y.aggregate := (own x (by simp)).trans (own y (by simp)).symm
      have live := both.trans List.filter_sublist
      have stored := whole.subset (both.subset (by simp : y ∈ [x, y]))
      have apart := List.pairwise_iff_forall_sublist.1 (h.distinct consistent)
        (live.trans (List.sublist_append_left _ _)) same
      exact Revision.lt_of_not_lt (fun less => (free y stored).2 ⟨x, same, less, live⟩) apart
    refine whole.eq_of_pairwise (fun x y _ _ less more => ?_) rising
      (consistent.ordered a).pairwise
    exact absurd (Revision.lt_trans less more) (Revision.lt_irrefl _)

end Publication

namespace Watch
variable {a : AggregateId} {r : Revision} {w : Watch} {backlog : List RecordedEvent} {place : Nat}

theorem whole_after (h : w.store.Whole) (course : List Op) : (w.after course).store.Whole := by
  induction course generalizing w with
  | nil => exact h
  | cons op rest ih =>
      refine ih ?_
      cases op with
      | meanwhile op => exact h.perform op
      | next | pass => exact h

/-- What is known is what was read of the log, and what the feed has shown since that was new. -/
structure Informed (a : AggregateId) (r : Revision) (backlog : List RecordedEvent) (place : Nat)
    (w : Watch) : Prop where
  known : w.known = backlog ++
    newerEvents a (headAfter r backlog) (w.store.feed.between place w.sub.position)
  within : place ≤ w.sub.position ∧ w.sub.position ≤ w.store.feed.published.length

/-- What a subscriber does not want is not new to one who has seen all that it knows. -/
theorem Steady.newerEvents_of_seen (h : w.Steady a r) {xs : List RecordedEvent}
    (skipped : ∀ x ∈ xs, w.sub.wants x = false) : newerEvents a (headAfter r w.known) xs = [] := by
  refine newerEvents_eq_nil fun x hx ⟨own, above⟩ => Bool.eq_false_iff.1 (skipped x hx) ?_
  refine (wants_eq h.aggregate x).2 ⟨own, Revision.lt_of_le_of_lt ?_ above⟩
  rw [h.lastSeen, known, headAfter_append]
  exact (ascending_append.1 h.ascending).2.le_headAfter.1

namespace Informed

/-- The subscriber has gone on by some events of the feed. -/
theorem moved (h : w.Informed a r backlog place) {n : Nat} {v : Watch} (store : v.store = w.store)
    (position : v.sub.position = w.sub.position + n)
    (within : w.sub.position + n ≤ w.store.feed.published.length)
    (known : v.known = w.known ++
      newerEvents a (headAfter r w.known) ((w.store.feed.published.drop w.sub.position).take n)) :
    v.Informed a r backlog place where
  known := by
    rw [known, store, position, Feed.between_add _ n h.within.1 h.within.2, newerEvents_append,
      ← List.append_assoc, ← h.known, h.known, headAfter_append]
  within := by
    rw [store, position]
    exact ⟨Nat.le_add_right_of_le h.within.1, within⟩

section Live
variable (h : w.Informed a r backlog place) (steady : w.Steady a r)
include h steady

theorem found {d : Delivery} {s : Subscription} (next : w.sub.Next w.store.feed d s)
    (lagless : d.isLagged = false) : (w.found d s).Informed a r backlog place := by
  cases next with
  | @stored e rest hb =>
      refine ⟨?_, h.within⟩
      have same := h.known
      rw [Watch.known, hb] at same
      rw [known_event]
      exact same
  | lagged => cases lagless
  | idle hb skipped =>
      refine h.moved (n := (w.store.feed.published.drop w.sub.position).length) rfl rfl
        ?_ ?_
      · rw [List.length_drop]
        have := h.within
        omega
      · refine (known_quiet (event?_idle _) rfl).trans ?_
        rw [List.take_length, steady.newerEvents_of_seen skipped, List.append_nil]
  | @live passed e rest hb hf skipped wanted =>
      obtain ⟨own, above⟩ := (wants_eq steady.aggregate e).1 wanted
      have read : w.known = w.events := by rw [Watch.known, hb, List.append_nil]
      rw [see_eq (s := { w.sub with position := w.sub.position + passed.length + 1 })
        steady.aggregate]
      refine h.moved (n := passed.length + 1) rfl rfl ?_ ?_
      · have length := congrArg List.length hf
        rw [List.length_drop, List.length_append, List.length_cons] at length
        omega
      · have first : (passed ++ e :: rest).take (passed.length + 1) = passed ++ [e] := by
          rw [List.take_length_add_append]
          rfl
        rw [known_event, hf, first, newerEvents_append, steady.newerEvents_of_seen skipped,
          List.nil_append]
        rw [steady.lastSeen, ← read] at above
        change w.events ++ e :: w.sub.backlog = w.known ++ newerEvents a (headAfter r w.known) [e]
        rw [newerEvents, if_pos ⟨own, above⟩, hb, read]
        rfl

theorem perform (op : Op) (lagless : ¬ (w.perform op).HasLagged) :
    (w.perform op).Informed a r backlog place := by
  cases op with
  | next =>
      refine h.found steady (w.sub.next_cases w.store.feed)
        (Bool.eq_false_iff.2 fun lagged => lagless ?_)
      exact ⟨_, List.mem_append_right _ (List.mem_singleton_self _), lagged⟩
  | pass =>
      rw [Watch.perform]
      obtain same | ⟨e, rest, hf, skipped, moved⟩ := w.sub.pass_cases w.store.feed
      · rw [same]
        exact h
      · rw [moved]
        refine h.moved (n := 1) rfl rfl ?_ ?_
        · have length := congrArg List.length hf
          rw [List.length_drop, List.length_cons] at length
          omega
        · rw [hf, steady.newerEvents_of_seen (by simpa using skipped), List.append_nil]
          rfl
  | meanwhile op =>
      have grows := (w.store.grows_perform op).published
      refine ⟨?_, h.within.1, h.within.2.trans grows.length_le⟩
      change w.known = backlog ++
        newerEvents a (headAfter r backlog) ((w.store.perform op).feed.between place w.sub.position)
      rw [Feed.between_of_part grows h.within.2]
      exact h.known

end Live

theorem after (h : w.Informed a r backlog place) (steady : w.Steady a r) (course : List Op)
    (lagless : ¬ (w.after course).HasLagged) : (w.after course).Informed a r backlog place := by
  induction course generalizing w with
  | nil => exact h
  | cons op rest ih =>
      obtain ⟨_, more⟩ := (w.perform op).grows_after rest
      have quiet : ¬ (w.perform op).HasLagged := fun ⟨d, hd, lagged⟩ =>
        lagless ⟨d, more.subset hd, lagged⟩
      exact ih (h.perform steady op quiet) (steady.perform op) lagless

theorem start (a : AggregateId) (r : Revision) {taken read : Publication}
    (later : taken.Grows read) : (start a r taken read).Informed a r
      ((read.logs.log a).filter fun e => r < e.revision) taken.feed.published.length where
  known := by
    change [] ++ _ = _ ++ newerEvents _ _ (read.feed.between _ taken.feed.published.length)
    rw [Feed.between_self, List.nil_append]
    exact (List.append_nil _).symm
  within := ⟨Nat.le_refl _, later.published.length_le⟩

/-- All that a subscriber has been delivered when it finds nothing more. -/
theorem events_of_waits (h : w.Informed a r backlog place) (steady : w.Steady a r)
    (waits : (w.sub.next w.store.feed).1.isPending) :
    w.events =
      backlog ++ newerEvents a (headAfter r backlog) (w.store.feed.published.drop place) := by
  obtain ⟨read, unwanted⟩ := (w.sub.next_cases w.store.feed).waits waits
  have known := h.known
  have rest := steady.newerEvents_of_seen unwanted
  have whole : w.store.feed.published.drop place =
      w.store.feed.between place w.sub.position ++ w.store.feed.published.drop w.sub.position := by
    have cut := w.store.feed.between_add (w.store.feed.published.length - w.sub.position)
      h.within.1 h.within.2
    rw [Nat.add_sub_cancel' h.within.2, Feed.between_end] at cut
    rw [cut, List.take_of_length_le (by rw [List.length_drop])]
  rw [known, headAfter_append] at rest
  rw [whole, newerEvents_append, rest, List.append_nil, ← known, Watch.known, read, List.append_nil]

end Informed

/-- A subscription to one aggregate, taken at any time of a store that began empty and with the log
read at any later time, while appends commit and publish in any order. In the end each event of the
aggregate is published or under way once, and the feed is the log as it is if and only if nothing of
it is under way and nothing overtaken. A subscriber that has not lagged and finds nothing more has
been delivered the events of the log after the revision but for those that were not yet in the log
when it was read and are under way, or overtaken behind the place that it took in the feed. -/
theorem only_overtaken_events_are_missed (n : Nat) (a : AggregateId) (r : Revision)
    (before between : List Publication.Op) (course : List Op) :
    let taken := Publication.after { feed := .ofCapacity n } before
    let read := taken.after between
    let w := (start a r taken read).after course
    ((w.store.feed.published ++ w.store.underway).filter fun e => e.aggregate = a).Perm
        (w.store.logs.log a) ∧
    ((w.store.feed.published.filter fun e => e.aggregate = a) = w.store.logs.log a ↔
      ∀ e ∈ w.store.logs.log a, e ∉ w.store.underway ∧ ¬ Overtaken w.store.feed.published e) ∧
    (¬ w.HasLagged → (w.sub.next w.store.feed).1.isPending →
      ∀ e ∈ w.store.logs.log a, r < e.revision →
        (e ∈ w.events ↔ e ∈ read.logs.log a ∨ e ∉ w.store.underway ∧
          ¬ Overtaken (w.store.feed.published.drop taken.feed.published.length) e)) := by
  intro taken read w
  have began : taken.Consistent := (Publication.consistent_empty _ rfl).after before
  have readConsistent : read.Consistent := began.after between
  have ends : w.store.Consistent := consistent_after readConsistent course
  have whole : w.store.Whole := whole_after
    (((Publication.whole_empty _ rfl).after before).after between) course
  refine ⟨whole a, whole.published_eq_log_iff ends, fun lagless waits e he later => ?_⟩
  have grows := taken.grows_after between
  have steady := Steady.start a r taken readConsistent
  have events := ((Informed.start a r grows).after steady course lagless).events_of_waits
    (steady.after course) waits
  have log := ((start a r taken read).grows_after course).1.log a
  have distinct := whole.distinct ends
  have own := ends.own a e he
  have live : Distinct (w.store.feed.published.drop taken.feed.published.length) :=
    distinct.sublist ((List.drop_sublist ..).trans (List.sublist_append_left ..))
  rw [events, List.mem_append, List.mem_filter, mem_newerEvents live]
  constructor
  · rintro (⟨stored, _⟩ | ⟨he, _, _, free⟩)
    · exact .inl stored
    · exact .inr ⟨fun under => (List.pairwise_append.1 distinct).2.2 e
        (List.mem_of_mem_drop he) e under rfl rfl, free⟩
  · intro h
    by_cases stored : e ∈ read.logs.log a
    · exact .inl ⟨stored, decide_eq_true later⟩
    · obtain ⟨apart, free⟩ := h.resolve_left stored
      have kept := ends.stored e
      rw [own] at kept
      have published := (kept.1 he).resolve_right apart
      have above : headAfter r ((read.logs.log a).filter fun e => r < e.revision) < e.revision := by
        by_contra below
        have reached := ((ends.ordered a).ascending_after r).mem_of_part (log.filter _)
          (List.mem_filter.2 ⟨he, decide_eq_true later⟩) below
        exact stored (List.mem_filter.1 reached).1
      refine .inr ⟨?_, own, above, free⟩
      obtain ⟨more, hmore⟩ := (grows.trans ((start a r taken read).grows_after course).1).published
      rw [← hmore] at published ⊢
      rw [List.drop_left]
      refine (List.mem_append.1 published).resolve_left fun old => stored ?_
      refine (grows.log a).subset ?_
      rw [← own]
      exact (began.stored e).2 (.inl old)

/-- Two appends to one aggregate beside a subscriber, of which the second one publishes first. -/
def overtaking : List Op :=
  let commit : Publication.Op :=
    .commit ⟨"account", "1"⟩ [⟨"noted", .null⟩] {} (.ofMillis 0) fun _ => ⟨.nil, .nil⟩
  [.meanwhile commit, .meanwhile commit, .meanwhile (.publish 1), .next, .meanwhile (.publish 0)]

/-- The subscriber of the two appends is delivered what is not overtaken. -/
theorem only_the_first_of_two_is_missed :
    let a : AggregateId := ⟨"account", "1"⟩
    let w := (start a .initial { feed := .ofCapacity 4 } { feed := .ofCapacity 4 }).after overtaking
    ¬ w.HasLagged ∧ (w.sub.next w.store.feed).1.isPending ∧
      ∀ e ∈ w.store.logs.log a, .initial < e.revision →
        (e ∈ w.events ↔ e ∈ Logs.log ∅ a ∨ e ∉ w.store.underway ∧
          ¬ Overtaken (w.store.feed.published.drop 0) e) := by
  intro a w
  have lagless : ¬ w.HasLagged := by decide +kernel
  have waits : (w.sub.next w.store.feed).1.isPending := by decide +kernel
  exact ⟨lagless, waits,
    (only_overtaken_events_are_missed 4 a .initial [] [] overtaking).2.2 lagless waits⟩

/-- So a subscriber can miss an event for good: all is published, the feed is not in the order of
the log, and the subscriber has not lagged and waits, but has not been delivered the first of two
events. -/
theorem overtaken_event_is_missed :
    let a : AggregateId := ⟨"account", "1"⟩
    let w := (start a .initial { feed := .ofCapacity 4 } { feed := .ofCapacity 4 }).after overtaking
    w.store.underway = [] ∧ ¬ w.store.Carries a ∧ ¬ w.HasLagged ∧
      (w.sub.next w.store.feed).1.isPending ∧
      ∃ e ∈ w.store.logs.log a, .initial < e.revision ∧ e ∉ w.events := by
  intro a w
  have two : (w.store.logs.log a).map RecordedEvent.revision =
      [⟨⟨1, by decide⟩⟩, ⟨⟨2, by decide⟩⟩] := by decide +kernel
  have one : w.events.map RecordedEvent.revision = [⟨⟨2, by decide⟩⟩] := by decide +kernel
  have idle : w.store.underway.length = 0 := by decide +kernel
  have lagless : ¬ w.HasLagged := by decide +kernel
  have waits : (w.sub.next w.store.feed).1.isPending := by decide +kernel
  refine ⟨List.length_eq_zero_iff.1 idle, fun carries => ?_, lagless, waits, ?_⟩
  · have order := carries.map RecordedEvent.revision
    rw [two] at order
    revert order
    decide +kernel
  · obtain ⟨e, he, first⟩ := List.mem_map.1 (two ▸ List.mem_cons_self)
    refine ⟨e, he, ?_, fun seen => ?_⟩
    · rw [first]
      decide
    · have known := List.mem_map_of_mem (f := RecordedEvent.revision) seen
      rw [one, first] at known
      revert known
      decide

end Watch
end EventSourcing
