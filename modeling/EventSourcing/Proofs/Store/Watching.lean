import EventSourcing.Proofs.Store.Publication

/-!
Subscriptions to one aggregate.
A subscriber takes its place in the feed before it reads the log, so that an event can be both in
what it has read and in the feed. What it has seen is told apart by revisions alone: what is
delivered increases strictly whatever happens, also after a lag, and without a lag it is the log of
the aggregate, event by event, as far as the feed carries the log in its order.
-/
namespace EventSourcing

theorem Revision.lt_of_lt_of_le {a b c : Revision} (h : a < b) (h' : b ≤ c) : a < c :=
  Nat.lt_of_lt_of_le h h'

section Ascending
variable {r : Revision} {e : RecordedEvent} {xs ys : List RecordedEvent}

theorem ascending_cons :
    Ascending r (e :: xs) ↔ r < e.revision ∧ Ascending e.revision xs := by
  constructor
  · intro h
    have cut := List.pairwise_cons.1 h
    exact ⟨cut.1 _ (by simp), cut.2⟩
  · rintro ⟨first, rest⟩
    refine List.pairwise_cons.2 ⟨fun s hs => ?_, rest⟩
    obtain rfl | later := List.mem_cons.1 hs
    · exact first
    · exact Revision.lt_trans first ((List.pairwise_cons.1 rest).1 s later)

theorem ascending_append :
    Ascending r (xs ++ ys) ↔ Ascending r xs ∧ Ascending (headAfter r xs) ys := by
  induction xs generalizing r with
  | nil => exact ⟨fun h => ⟨List.pairwise_singleton _ _, h⟩, fun h => h.2⟩
  | cons e rest ih =>
      rw [List.cons_append, ascending_cons, ascending_cons, ih, headAfter_cons, and_assoc]

theorem Ascending.of_part (h : Ascending r ys) (part : xs <+: ys) : Ascending r xs := by
  obtain ⟨_, rfl⟩ := part
  exact (ascending_append.1 h).1

theorem Ascending.above (h : Ascending r xs) (he : e ∈ xs) : r < e.revision :=
  (List.pairwise_cons.1 h).1 _ (List.mem_map_of_mem he)

theorem Ascending.pairwise (h : Ascending r xs) :
    xs.Pairwise fun x y => x.revision < y.revision :=
  List.pairwise_map.1 (List.pairwise_cons.1 h).2

theorem Ascending.le_headAfter (h : Ascending r xs) :
    r ≤ headAfter r xs ∧ ∀ e ∈ xs, e.revision ≤ headAfter r xs := by
  induction xs generalizing r with
  | nil => exact ⟨Revision.le_refl r, List.forall_mem_nil _⟩
  | cons e rest ih =>
      obtain ⟨first, later⟩ := ascending_cons.1 h
      obtain ⟨start, all⟩ := ih later
      rw [headAfter_cons]
      refine ⟨Revision.le_of_lt (Revision.lt_of_lt_of_le first start), fun x hx => ?_⟩
      obtain rfl | hx := List.mem_cons.1 hx
      · exact start
      · exact all x hx

/-- The events of an ordered log after a revision ascend from there. -/
theorem Ordered.ascending_after (h : Ordered xs) (r : Revision) :
    Ascending r (xs.filter fun e => r < e.revision) := by
  refine List.pairwise_cons.2 ⟨fun s hs => ?_, ?_⟩
  · obtain ⟨e, he, rfl⟩ := List.mem_map.1 hs
    simpa using (List.mem_filter.1 he).2
  · exact List.pairwise_map.2 (h.pairwise.filter _)

/-- In an ascending list whatever is not above the last of its first events is one of them. -/
theorem Ascending.mem_of_part (h : Ascending r ys) (part : xs <+: ys) (he : e ∈ ys)
    (below : ¬ headAfter r xs < e.revision) : e ∈ xs := by
  obtain ⟨rest, rfl⟩ := part
  obtain first | later := List.mem_append.1 he
  · exact first
  · exact absurd ((ascending_append.1 h).2.above later) below

end Ascending

/-- The events of a feed between two places. -/
def Feed.between (f : Feed) (p q : Nat) : List RecordedEvent := (f.published.take q).drop p

theorem Feed.between_self (f : Feed) (p : Nat) : f.between p p = [] :=
  List.drop_eq_nil_of_le (List.length_take_le ..)

theorem Feed.between_end (f : Feed) (p : Nat) :
    f.between p f.published.length = f.published.drop p := by
  rw [between, List.take_length]

theorem Feed.between_add (f : Feed) {p q : Nat} (n : Nat) (h : p ≤ q)
    (within : q ≤ f.published.length) :
    f.between p (q + n) = f.between p q ++ (f.published.drop q).take n := by
  rw [between, List.take_add, List.drop_append_of_le_length, between]
  rw [List.length_take]
  omega

theorem Feed.between_of_part {f g : Feed} {p q : Nat} (h : f.published <+: g.published)
    (within : q ≤ f.published.length) : g.between p q = f.between p q := by
  obtain ⟨more, hmore⟩ := h
  rw [between, ← hmore, List.take_append_of_le_length within, between]

namespace Delivery

def event? : Delivery → Option RecordedEvent
  | .event e => some e
  | _ => none

def isLagged : Delivery → Bool
  | .lagged _ => true
  | _ => false

def isPending : Delivery → Bool
  | .pending => true
  | _ => false

end Delivery

namespace Subscription
variable {s : Subscription} {f : Feed}

/-- What a subscriber finds when it looks at the feed. -/
inductive Next (s : Subscription) (f : Feed) : Delivery → Subscription → Prop where
  | stored {e : RecordedEvent} {rest : List RecordedEvent} (h : s.backlog = e :: rest) :
      Next s f (.event e) { s with backlog := rest, lastSeen := e.revision }
  | lagged (h : s.backlog = []) (behind : s.position < f.lost) :
      Next s f (.lagged (f.lost - s.position)) { s with position := f.lost }
  | live {passed : List RecordedEvent} {e : RecordedEvent} {rest : List RecordedEvent}
      (h : s.backlog = []) (hf : f.published.drop s.position = passed ++ e :: rest)
      (skipped : ∀ x ∈ passed, s.wants x = false) (wanted : s.wants e = true) :
      Next s f (.event e) ({ s with position := s.position + passed.length + 1 }.see e)
  | idle (h : s.backlog = [])
      (skipped : ∀ x ∈ f.published.drop s.position, s.wants x = false) :
      Next s f (if f.closed then .closed else .pending)
        { s with position := s.position + (f.published.drop s.position).length }

theorem scan_cases (closed : Bool) (s : Subscription) (es : List RecordedEvent) :
    (∃ passed e rest, es = passed ++ e :: rest ∧ (∀ x ∈ passed, s.wants x = false) ∧
      s.wants e = true ∧ s.scan closed es =
        (.event e, { s with position := s.position + passed.length + 1 }.see e)) ∨
    ((∀ x ∈ es, s.wants x = false) ∧ s.scan closed es =
      (if closed then .closed else .pending,
        { s with position := s.position + es.length })) := by
  induction es generalizing s with
  | nil => exact .inr ⟨List.forall_mem_nil _, rfl⟩
  | cons e rest ih =>
      by_cases wanted : s.wants e = true
      · refine .inl ⟨[], e, rest, rfl, List.forall_mem_nil _, wanted, ?_⟩
        rw [scan, if_pos wanted]
        rfl
      · have skipped : s.wants e = false := Bool.eq_false_iff.2 wanted
        have later := ih { s with position := s.position + 1 }
        rw [scan, if_neg wanted]
        obtain ⟨passed, x, more, rfl, hpassed, hx, heq⟩ | ⟨hrest, heq⟩ := later
        · refine .inl ⟨e :: passed, x, more, rfl, ?_, hx, ?_⟩
          · exact List.forall_mem_cons.2 ⟨skipped, hpassed⟩
          · rw [heq, List.length_cons, Nat.add_right_comm s.position 1]
            rfl
        · refine .inr ⟨List.forall_mem_cons.2 ⟨skipped, hrest⟩, ?_⟩
          rw [heq, List.length_cons, Nat.add_assoc, Nat.add_comm 1]

theorem next_cases (s : Subscription) (f : Feed) : Next s f (s.next f).1 (s.next f).2 := by
  rw [next]
  split
  · rename_i e rest h
    exact .stored h
  · rename_i h
    split
    · rename_i behind
      exact .lagged h behind
    · obtain ⟨passed, e, rest, hf, skipped, wanted, heq⟩ | ⟨skipped, heq⟩ :=
        scan_cases f.closed s (f.published.drop s.position)
      · rw [heq]
        exact .live h hf skipped wanted
      · rw [heq]
        exact .idle h skipped

/-- A subscriber waits only where all that it has read is delivered and nothing in the feed is for
it. -/
theorem Next.waits {d : Delivery} {s' : Subscription} (h : Next s f d s') (hd : d.isPending) :
    s.backlog = [] ∧ ∀ x ∈ f.published.drop s.position, s.wants x = false := by
  cases h with
  | stored | lagged | live => cases hd
  | idle h skipped => exact ⟨h, skipped⟩

/-- While it waits, a subscriber passes over an event that is not for it. -/
def pass (s : Subscription) (f : Feed) : Subscription :=
  match s.backlog, f.published.drop s.position with
  | [], e :: _ =>
    if s.position < f.lost ∨ s.wants e then s else { s with position := s.position + 1 }
  | _, _ => s

theorem pass_cases (s : Subscription) (f : Feed) : s.pass f = s ∨ ∃ e rest,
    f.published.drop s.position = e :: rest ∧ s.wants e = false ∧
      s.pass f = { s with position := s.position + 1 } := by
  rw [pass]
  split
  · rename_i e rest _ hf
    split
    · exact .inl rfl
    · rename_i hpass
      exact .inr ⟨e, rest, hf, Bool.eq_false_iff.2 fun h => hpass (.inr h), rfl⟩
  · exact .inl rfl

end Subscription

/-- A subscription beside the store that it watches, with all that it was delivered. -/
structure Watch where
  store : Publication
  sub : Subscription
  seen : List Delivery := []

namespace Watch

/-- What can happen while a subscription is watched. -/
inductive Op where
  | meanwhile (op : Publication.Op)
  /-- The subscriber asks for the next event. -/
  | next
  /-- The subscriber waits and passes over an event that is not for it. -/
  | pass

/-- The subscriber has found something in the feed. -/
def found (w : Watch) (d : Delivery) (s : Subscription) : Watch :=
  { w with sub := s, seen := w.seen ++ [d] }

def perform (w : Watch) : Op → Watch
  | .meanwhile op => { w with store := w.store.perform op }
  | .next => w.found (w.sub.next w.store.feed).1 (w.sub.next w.store.feed).2
  | .pass => { w with sub := w.sub.pass w.store.feed }

def after (w : Watch) (course : List Op) : Watch := course.foldl perform w

/-- The events that were delivered, in order. -/
def events (w : Watch) : List RecordedEvent := w.seen.filterMap Delivery.event?

/-- The subscriber was told that it missed events. -/
def HasLagged (w : Watch) : Prop := ∃ d ∈ w.seen, d.isLagged = true

instance (w : Watch) : Decidable w.HasLagged :=
  inferInstanceAs (Decidable (∃ d ∈ w.seen, d.isLagged = true))

/-- What was delivered and what was read but not yet delivered. -/
def known (w : Watch) : List RecordedEvent := w.events ++ w.sub.backlog

/-- A subscription to an aggregate from a revision on, taken at one time of the store and with the
log read at a later one. -/
def start (a : AggregateId) (r : Revision) (taken read : Publication) : Watch :=
  ⟨read, .after a r (read.logs.log a) taken.feed.published.length, []⟩

variable {a : AggregateId} {r : Revision} {w : Watch}

/-- What is known increases from the revision on, lag or no lag. -/
structure Steady (a : AggregateId) (r : Revision) (w : Watch) : Prop where
  aggregate : w.sub.aggregate = some a
  ascending : Ascending r w.known
  own : ∀ e ∈ w.known, e.aggregate = a
  lastSeen : w.sub.lastSeen = headAfter r w.events

theorem events_found (w : Watch) (d : Delivery) (s : Subscription) :
    (w.found d s).events = w.events ++ d.event?.toList := by
  rw [events, found, List.filterMap_append, events]
  cases h : d.event? <;> simp [h]

theorem event?_idle (closed : Bool) :
    (if closed then Delivery.closed else .pending).event? = none := by
  cases closed <;> rfl

theorem known_event (w : Watch) (e : RecordedEvent) (s : Subscription) :
    (w.found (.event e) s).known = w.events ++ e :: s.backlog := by
  rw [known, events_found]
  exact List.append_assoc ..

/-- What is found changes nothing in what is known unless it is an event. -/
theorem known_quiet {d : Delivery} {s : Subscription} (hd : d.event? = none)
    (hs : s.backlog = w.sub.backlog) : (w.found d s).known = w.known := by
  rw [known, events_found, hd, Option.toList_none, List.append_nil, known, ← hs]
  rfl

theorem wants_eq {s : Subscription} (h : s.aggregate = some a) (e : RecordedEvent) :
    s.wants e = true ↔ e.aggregate = a ∧ s.lastSeen < e.revision := by
  simp [Subscription.wants, h]

theorem see_eq {s : Subscription} (h : s.aggregate = some a) (e : RecordedEvent) :
    s.see e = { s with lastSeen := e.revision } := by
  rw [Subscription.see, h]

theorem headAfter_concat (r : Revision) (xs : List RecordedEvent) (e : RecordedEvent) :
    headAfter r (xs ++ [e]) = e.revision := by
  simp [headAfter]

namespace Steady

theorem quiet (h : w.Steady a r) {d : Delivery} {s : Subscription} (hd : d.event? = none)
    (aggregate : s.aggregate = w.sub.aggregate) (backlog : s.backlog = w.sub.backlog)
    (lastSeen : s.lastSeen = w.sub.lastSeen) : (w.found d s).Steady a r where
  aggregate := aggregate.trans h.aggregate
  ascending := by
    rw [known_quiet hd backlog]
    exact h.ascending
  own := by
    rw [known_quiet hd backlog]
    exact h.own
  lastSeen := by
    rw [events_found, hd, Option.toList_none, List.append_nil, ← h.lastSeen]
    exact lastSeen

theorem event {e : RecordedEvent} {s : Subscription} (aggregate : s.aggregate = some a)
    (ascending : Ascending r (w.events ++ e :: s.backlog))
    (own : ∀ x ∈ w.events ++ e :: s.backlog, x.aggregate = a)
    (lastSeen : s.lastSeen = e.revision) : (w.found (.event e) s).Steady a r where
  aggregate := aggregate
  ascending := by
    rw [known_event]
    exact ascending
  own := by
    rw [known_event]
    exact own
  lastSeen := by
    rw [events_found]
    exact lastSeen.trans (headAfter_concat r w.events e).symm

theorem found (h : w.Steady a r) {d : Delivery} {s : Subscription}
    (next : w.sub.Next w.store.feed d s) : (w.found d s).Steady a r := by
  have ascending := h.ascending
  have own := h.own
  cases next with
  | stored hb =>
      rw [known, hb] at ascending own
      exact event h.aggregate ascending own rfl
  | lagged => exact h.quiet rfl rfl rfl rfl
  | idle => exact h.quiet (event?_idle _) rfl rfl rfl
  | @live passed e rest hb hf skipped wanted =>
      obtain ⟨he, above⟩ := (wants_eq h.aggregate e).1 wanted
      rw [known, hb, List.append_nil] at ascending own
      rw [h.lastSeen] at above
      rw [see_eq (s := { w.sub with position := w.sub.position + passed.length + 1 }) h.aggregate]
      refine event h.aggregate ?_ ?_ rfl
      · rw [hb, ascending_append]
        exact ⟨ascending, ascending_cons.2 ⟨above, List.pairwise_singleton _ _⟩⟩
      · rw [hb]
        intro x hx
        obtain old | new := List.mem_append.1 hx
        · exact own x old
        · rw [List.mem_singleton.1 new]
          exact he

theorem perform (h : w.Steady a r) (op : Op) : (w.perform op).Steady a r := by
  cases op with
  | meanwhile op => exact ⟨h.aggregate, h.ascending, h.own, h.lastSeen⟩
  | next => exact h.found (w.sub.next_cases w.store.feed)
  | pass =>
      rw [Watch.perform]
      obtain same | ⟨e, rest, _, _, moved⟩ := w.sub.pass_cases w.store.feed
      · rw [same]
        exact ⟨h.aggregate, h.ascending, h.own, h.lastSeen⟩
      · rw [moved]
        exact ⟨h.aggregate, h.ascending, h.own, h.lastSeen⟩

theorem after (h : w.Steady a r) (course : List Op) : (w.after course).Steady a r := by
  induction course generalizing w with
  | nil => exact h
  | cons op rest ih => exact ih (h.perform op)

theorem start (a : AggregateId) (r : Revision) (taken : Publication) {read : Publication}
    (h : read.Consistent) : (start a r taken read).Steady a r where
  aggregate := rfl
  ascending := (h.ordered a).ascending_after r
  own e he := h.own a e (List.mem_filter.1 he).1
  lastSeen := rfl

end Steady

/-- What is known begins the events of a log after the revision, and the subscriber has passed over
none of them that it does not know. -/
structure Faithful (a : AggregateId) (r : Revision) (log : List RecordedEvent) (w : Watch) :
    Prop where
  part : w.known <+: log.filter fun e => r < e.revision
  passed : ∀ e ∈ w.store.feed.published.take w.sub.position, e.aggregate = a → r < e.revision →
    e ∈ w.known
  within : w.sub.position ≤ w.store.feed.published.length

/-- The first event of a log that a part of it does not know is the one that follows the part. -/
theorem part_concat {log got before : List RecordedEvent} {e : RecordedEvent}
    (ordered : Ordered log) (part : got <+: log.filter fun e => r < e.revision)
    (carried : before ++ [e] <+: log) (known : ∀ x ∈ before, r < x.revision → x ∈ got)
    (above : headAfter r got < e.revision) :
    got ++ [e] <+: log.filter fun e => r < e.revision := by
  have ascending := ordered.ascending_after r
  obtain ⟨start, below⟩ := (ascending.of_part part).le_headAfter
  have new : e ∉ got := fun he =>
    Revision.lt_irrefl _ (Revision.lt_of_le_of_lt (below e he) above)
  have later : r < e.revision := Revision.lt_of_le_of_lt start above
  have next : before.filter (fun e => r < e.revision) ++ [e] <+:
      log.filter fun e => r < e.revision := by
    have filtered := carried.filter fun e => decide (r < e.revision)
    simpa [List.filter_append, later] using filtered
  have same : before.filter (fun e => r < e.revision) = got := by
    obtain first | first := List.prefix_or_prefix_of_prefix part next
    · obtain heq | ⟨extra, heq⟩ := List.prefix_concat_iff.1 first
      · exact absurd (heq ▸ by simp) new
      · cases extra with
        | nil => rw [← heq, List.append_nil]
        | cons x more =>
            have inside : x ∈ before.filter fun e => r < e.revision := heq ▸ by simp
            obtain ⟨mem, hx⟩ := List.mem_filter.1 inside
            have reached := known x mem (of_decide_eq_true hx)
            have cut := ascending.of_part ((List.prefix_append _ [e]).trans next)
            rw [← heq, ascending_append, ascending_cons] at cut
            exact absurd (Revision.lt_of_lt_of_le cut.2.1 (below x reached))
              (Revision.lt_irrefl _)
    · exact absurd (first.subset (by simp)) new
  rw [← same]
  exact next

theorem Steady.mem_of_unwanted (h : w.Steady a r) {log : List RecordedEvent}
    (ordered : Ordered log) (part : w.known <+: log.filter fun e => r < e.revision)
    {x : RecordedEvent} (hx : x ∈ log) (own : x.aggregate = a) (later : r < x.revision)
    (unwanted : w.sub.wants x = false) : x ∈ w.known := by
  refine List.mem_append_left _ ((ordered.ascending_after r).mem_of_part
    ((List.prefix_append _ _).trans part) (List.mem_filter.2 ⟨hx, decide_eq_true later⟩) ?_)
  intro above
  rw [← h.lastSeen] at above
  exact Bool.eq_false_iff.1 unwanted ((wants_eq h.aggregate x).2 ⟨own, above⟩)

namespace Faithful
variable {log : List RecordedEvent}

section Carried
variable (h : w.Faithful a r log) (steady : w.Steady a r) (ordered : Ordered log)
  (carried : (w.store.feed.published.filter fun e => e.aggregate = a) <+: log)
include h steady ordered carried

/-- Passing over events that are not wanted loses nothing. -/
theorem passed_over {n : Nat}
    (skipped : ∀ x ∈ (w.store.feed.published.drop w.sub.position).take n, w.sub.wants x = false) :
    ∀ x ∈ w.store.feed.published.take (w.sub.position + n), x.aggregate = a →
      r < x.revision → x ∈ w.known := by
  intro x hx own later
  rw [List.take_add] at hx
  obtain old | new := List.mem_append.1 hx
  · exact h.passed x old own later
  · have published := List.mem_of_mem_drop (List.mem_of_mem_take new)
    have stored := carried.subset (List.mem_filter.2 ⟨published, decide_eq_true own⟩)
    exact steady.mem_of_unwanted ordered h.part stored own later (skipped x new)

theorem moved {d : Delivery} {s : Subscription} {n : Nat} (hd : d.event? = none)
    (backlog : s.backlog = w.sub.backlog) (position : s.position = w.sub.position + n)
    (skipped : ∀ x ∈ (w.store.feed.published.drop w.sub.position).take n, w.sub.wants x = false)
    (within : w.sub.position + n ≤ w.store.feed.published.length) :
    (w.found d s).Faithful a r log where
  part := by
    rw [known_quiet hd backlog]
    exact h.part
  passed := by
    rw [known_quiet hd backlog]
    intro x hx
    refine h.passed_over steady ordered carried skipped x ?_
    rw [← position]
    exact hx
  within := by
    rw [← position] at within
    exact within

theorem found {d : Delivery} {s : Subscription} (next : w.sub.Next w.store.feed d s)
    (lagless : d.isLagged = false) : (w.found d s).Faithful a r log := by
  cases next with
  | @stored e rest hb =>
      have same : (w.found (.event e) { w.sub with backlog := rest, lastSeen := e.revision }).known
          = w.known := by rw [known_event, known, hb]
      refine ⟨?_, ?_, h.within⟩
      · rw [same]
        exact h.part
      · rw [same]
        exact h.passed
  | lagged => cases lagless
  | idle hb skipped =>
      refine h.moved steady ordered carried (event?_idle _) rfl rfl ?_ ?_
      · rw [List.take_length]
        exact skipped
      · rw [List.length_drop]
        have within := h.within
        omega
  | @live passed e rest hb hf skipped wanted =>
      obtain ⟨own, above⟩ := (wants_eq steady.aggregate e).1 wanted
      have read : w.known = w.events := by rw [known, hb, List.append_nil]
      have known := h.passed_over steady ordered carried (n := passed.length) (by
        rw [hf, List.take_left]
        exact skipped)
      have part := h.part
      rw [read] at known part
      have follows : w.store.feed.published.drop (w.sub.position + passed.length) = e :: rest := by
        rw [← List.drop_drop, hf, List.drop_left]
      have whole := List.take_append_drop (w.sub.position + passed.length) w.store.feed.published
      rw [follows] at whole
      have begins : ((w.store.feed.published.take (w.sub.position + passed.length)).filter
          fun e => e.aggregate = a) ++ [e] <+: log := by
        rw [← whole, List.filter_append, List.filter_cons, if_pos (decide_eq_true own)] at carried
        refine List.IsPrefix.trans ?_ carried
        exact (List.prefix_append_right_inj _).2 (List.prefix_append [e] _)
      have next : w.events ++ [e] <+: log.filter fun e => r < e.revision := by
        refine part_concat ordered part begins (fun x hx later => ?_) (steady.lastSeen ▸ above)
        obtain ⟨mem, hown⟩ := List.mem_filter.1 hx
        exact known x mem (of_decide_eq_true hown) later
      rw [see_eq (s := { w.sub with position := w.sub.position + passed.length + 1 })
        steady.aggregate]
      refine ⟨?_, fun x hx hown later => ?_, ?_⟩
      · rw [known_event]
        change w.events ++ e :: w.sub.backlog <+: _
        rw [hb]
        exact next
      · change x ∈ w.store.feed.published.take (w.sub.position + passed.length + 1) at hx
        rw [List.take_add, follows] at hx
        rw [known_event]
        obtain old | new := List.mem_append.1 hx
        · exact List.mem_append_left _ (known x old hown later)
        · rw [List.mem_singleton.1 new]
          exact List.mem_append_right _ List.mem_cons_self
      · have length := congrArg List.length whole
        rw [List.length_append, List.length_cons, List.length_take] at length
        change w.sub.position + passed.length + 1 ≤ w.store.feed.published.length
        omega

theorem perform (op : Op) (lagless : ¬ (w.perform op).HasLagged) :
    (w.perform op).Faithful a r log := by
  cases op with
  | next =>
      refine h.found steady ordered carried (w.sub.next_cases w.store.feed)
        (Bool.eq_false_iff.2 fun lagged => lagless ?_)
      exact ⟨_, List.mem_append_right _ (List.mem_singleton_self _), lagged⟩
  | pass =>
      rw [Watch.perform]
      obtain same | ⟨e, rest, hf, skipped, moved⟩ := w.sub.pass_cases w.store.feed
      · rw [same]
        exact h
      · rw [moved]
        have length := congrArg List.length hf
        rw [List.length_drop, List.length_cons] at length
        refine ⟨h.part, h.passed_over steady ordered carried (n := 1) ?_, ?_⟩
        · rw [hf]
          simpa using skipped
        · change w.sub.position + 1 ≤ w.store.feed.published.length
          omega
  | meanwhile op =>
      obtain ⟨more, hmore⟩ := (w.store.grows_perform op).published
      have within := h.within
      refine ⟨h.part, ?_, ?_⟩
      · change ∀ e ∈ (w.store.perform op).feed.published.take w.sub.position, _
        rw [← hmore, List.take_append_of_le_length within]
        exact h.passed
      · change w.sub.position ≤ (w.store.perform op).feed.published.length
        rw [← hmore, List.length_append]
        omega

end Carried
end Faithful

theorem grows_perform (w : Watch) (op : Op) :
    w.store.Grows (w.perform op).store ∧ w.seen <+: (w.perform op).seen := by
  cases op with
  | meanwhile op => exact ⟨w.store.grows_perform op, List.prefix_rfl⟩
  | next => exact ⟨.refl _, List.prefix_append _ _⟩
  | pass => exact ⟨.refl _, List.prefix_rfl⟩

theorem grows_after (w : Watch) (course : List Op) :
    w.store.Grows (w.after course).store ∧ w.seen <+: (w.after course).seen := by
  induction course generalizing w with
  | nil => exact ⟨.refl _, List.prefix_rfl⟩
  | cons op rest ih =>
      obtain ⟨store, seen⟩ := w.grows_perform op
      obtain ⟨later, more⟩ := ih (w.perform op)
      exact ⟨store.trans later, seen.trans more⟩

theorem consistent_after (h : w.store.Consistent) (course : List Op) :
    (w.after course).store.Consistent := by
  induction course generalizing w with
  | nil => exact h
  | cons op rest ih =>
      refine ih ?_
      cases op with
      | meanwhile op => exact h.perform op
      | next | pass => exact h

/-- Without a lag a subscription stays faithful to any log that the feed carries in the end. -/
theorem Faithful.after {log : List RecordedEvent} (h : w.Faithful a r log)
    (steady : w.Steady a r) (ordered : Ordered log) (course : List Op)
    (carried : ((w.after course).store.feed.published.filter fun e => e.aggregate = a) <+: log)
    (lagless : ¬ (w.after course).HasLagged) : (w.after course).Faithful a r log := by
  induction course generalizing w with
  | nil => exact h
  | cons op rest ih =>
      obtain ⟨later, more⟩ := (w.perform op).grows_after rest
      have now := ((w.grows_perform op).1.trans later).published.filter
        fun e => decide (e.aggregate = a)
      have quiet : ¬ (w.perform op).HasLagged := fun ⟨d, hd, lagged⟩ =>
        lagless ⟨d, more.subset hd, lagged⟩
      exact ih (h.perform steady ordered (now.trans carried) op quiet) (steady.perform op)
        carried lagless

theorem Faithful.start {taken read : Publication} (consistent : taken.Consistent)
    (later : taken.Grows read) {log : List RecordedEvent} (part : read.logs.log a <+: log) :
    (start a r taken read).Faithful a r log where
  part := part.filter _
  passed e he own after := by
    refine List.mem_filter.2 ⟨?_, decide_eq_true after⟩
    obtain ⟨more, hmore⟩ := later.published
    change e ∈ read.feed.published.take taken.feed.published.length at he
    rw [← hmore, List.take_left] at he
    refine (later.log a).subset ?_
    rw [← own]
    exact (consistent.stored e).2 (.inl he)
  within := later.published.length_le

/-- A subscriber that finds nothing has seen all that its aggregate has published. -/
theorem Faithful.all_seen (h : w.Faithful a r (w.store.logs.log a)) (steady : w.Steady a r)
    (consistent : w.store.Consistent) (waits : (w.sub.next w.store.feed).1.isPending)
    {e : RecordedEvent} (he : e ∈ w.store.logs.log a) (later : r < e.revision) :
    e ∈ w.events ∨ e ∈ w.store.underway := by
  have own := consistent.own a e he
  obtain ⟨read, unwanted⟩ := (w.sub.next_cases w.store.feed).waits waits
  have stored := consistent.stored e
  rw [own] at stored
  obtain published | underway := stored.1 he
  · refine .inl ?_
    have known : e ∈ w.known := by
      rw [← List.take_append_drop w.sub.position w.store.feed.published] at published
      obtain before | behind := List.mem_append.1 published
      · exact h.passed e before own later
      · exact steady.mem_of_unwanted (consistent.ordered a) h.part he own later (unwanted e behind)
    rw [Watch.known, read, List.append_nil] at known
    exact known
  · exact .inr underway

/-- A subscription to one aggregate, taken at any time of a store that began empty and with the log
read at any later time, while appends to this and other aggregates commit and publish beside it. What
it delivers are events of the aggregate after the revision, in increasing order, also where it has
lagged; and where the feed carries the aggregate in the order of its log, a subscriber that has not
lagged has been delivered a first part of the events of the log after the revision, and all of them
that were published once it finds nothing more. -/
theorem subscribers_see_the_log (n : Nat) (a : AggregateId) (r : Revision)
    (before between : List Publication.Op) (course : List Op) :
    let taken := Publication.after { feed := .ofCapacity n } before
    let w := (start a r taken (taken.after between)).after course
    (∀ e ∈ w.events, e.aggregate = a ∧ r < e.revision) ∧
    (w.events.Pairwise fun e f => e.revision < f.revision) ∧
    (w.store.Carries a → ¬ w.HasLagged →
      w.events <+: ((w.store.logs.log a).filter fun e => r < e.revision) ∧
        ((w.sub.next w.store.feed).1.isPending → ∀ e ∈ w.store.logs.log a, r < e.revision →
          e ∈ w.events ∨ e ∈ w.store.underway)) := by
  intro taken w
  have began : taken.Consistent := (Publication.consistent_empty _ rfl).after before
  have read : (taken.after between).Consistent := began.after between
  have steady : w.Steady a r := (Steady.start a r taken read).after course
  have ends : w.store.Consistent := consistent_after read course
  have sorted := steady.ascending.of_part (List.prefix_append w.events w.sub.backlog)
  refine ⟨fun e he => ⟨steady.own e (List.mem_append_left _ he), sorted.above he⟩,
    sorted.pairwise, fun carries lagless => ?_⟩
  have faithful : w.Faithful a r (w.store.logs.log a) :=
    (Faithful.start began (taken.grows_after between)
      (((start a r taken _).grows_after course).1.log a)).after
      (Steady.start a r taken read) (ends.ordered a) course carries lagless
  exact ⟨(List.prefix_append _ _).trans faithful.part,
    fun waits e he later => faithful.all_seen steady ends waits he later⟩

/-- Two events of an aggregate are committed before its log is read, the first of them published
only after the subscription has taken its place, and a third one follows beside an event of another
aggregate: each of the three is delivered once. -/
theorem overlap_is_delivered_once :
    let a : AggregateId := ⟨"account", "1"⟩
    let commit (b : AggregateId) : Publication.Op :=
      .commit b [⟨"noted", .null⟩] {} (.ofMillis 0) fun _ => ⟨.nil, .nil⟩
    let taken := Publication.after { feed := .ofCapacity 4 } [commit a]
    let w := (start a .initial taken (taken.after [.publish 0, commit a])).after
      [.next, .meanwhile (.publish 1), .meanwhile (commit ⟨"account", "2"⟩),
        .meanwhile (.publish 2), .next, .meanwhile (commit a), .pass, .meanwhile (.publish 3),
        .next, .next]
    w.store.Carries a ∧ ¬ w.HasLagged ∧ w.events.length = 3 ∧
      w.events <+: ((w.store.logs.log a).filter fun e => .initial < e.revision) ∧
      ∀ e ∈ w.store.logs.log a, .initial < e.revision → e ∈ w.events ∨ e ∈ w.store.underway := by
  intro a commit taken w
  have carries : w.store.Carries a := by
    refine Publication.Consistent.carries (consistent_after
      ((Publication.consistent_empty _ rfl).after [commit a, .publish 0, commit a]) _) ?_
    decide +kernel
  have lagless : ¬ w.HasLagged := by decide +kernel
  have three : w.events.length = 3 := by decide +kernel
  have waits : (w.sub.next w.store.feed).1.isPending := by decide +kernel
  have laws := (subscribers_see_the_log 4 a .initial [commit a] [.publish 0, commit a]
    [.next, .meanwhile (.publish 1), .meanwhile (commit ⟨"account", "2"⟩),
      .meanwhile (.publish 2), .next, .meanwhile (commit a), .pass, .meanwhile (.publish 3),
      .next, .next]).2.2 carries lagless
  exact ⟨carries, lagless, three, laws.1, laws.2 waits⟩

end Watch
end EventSourcing
