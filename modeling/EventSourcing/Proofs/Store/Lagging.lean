import EventSourcing.Proofs.Store.Watching

/-!
Subscribers that lag.
A feed keeps its latest events, as many as the first power of two that is enough for what it was
asked to keep, so that a subscriber can be overrun between two looks, and more than once. What it is
delivered accounts for the feed all the same: each event is delivered, or it is one of the events in
a row that one lag counts. A subscriber to one aggregate leaves out only what it does not want.
-/
namespace EventSourcing

/-- Among enough powers of two the first one that is large enough is found. -/
theorem nextPowerOfTwo_spec (n tries p : Nat) (h : n ≤ p * 2 ^ tries) :
    ∃ k, nextPowerOfTwo n tries p = p * 2 ^ k ∧ n ≤ p * 2 ^ k ∧ ∀ j < k, p * 2 ^ j < n := by
  induction tries generalizing p with
  | zero => exact ⟨0, (Nat.mul_one p).symm, h, fun j hj => absurd hj (Nat.not_lt_zero j)⟩
  | succ tries ih =>
      rw [nextPowerOfTwo]
      split
      · rename_i enough
        exact ⟨0, (Nat.mul_one p).symm, by simpa using enough, fun j hj =>
          absurd hj (Nat.not_lt_zero j)⟩
      · rename_i small
        have room : n ≤ p * 2 * 2 ^ tries := by
          rw [Nat.mul_assoc, ← Nat.pow_succ']
          exact h
        obtain ⟨k, same, enough, least⟩ := ih (p * 2) room
        rw [Nat.mul_assoc, ← Nat.pow_succ'] at same enough
        refine ⟨k + 1, same, enough, fun j hj => ?_⟩
        cases j with
        | zero => simpa using small
        | succ j =>
            rw [Nat.pow_succ', ← Nat.mul_assoc]
            exact least j (Nat.lt_of_succ_lt_succ hj)

theorem le_nextPowerOfTwo (n tries p : Nat) : p ≤ nextPowerOfTwo n tries p := by
  induction tries generalizing p with
  | zero => exact Nat.le_refl p
  | succ tries ih =>
      rw [nextPowerOfTwo]
      split
      · exact Nat.le_refl p
      · exact Nat.le_trans (Nat.le_mul_of_pos_right p Nat.two_pos) (ih (p * 2))

namespace Feed

theorem capacity_ofCapacity {n : Nat} (h : n ≤ 2 ^ 64) :
    ∃ k, (ofCapacity n).capacity = 2 ^ k ∧ n ≤ 2 ^ k ∧ ∀ j < k, 2 ^ j < n := by
  have spec := nextPowerOfTwo_spec n 64 1 (by rw [Nat.one_mul]; exact h)
  simp only [Nat.one_mul] at spec
  exact spec

theorem capacity_pos (n : Nat) : 0 < (ofCapacity n).capacity :=
  le_nextPowerOfTwo n 64 1

/-- The events that are still in the feed. -/
def kept (f : Feed) : List RecordedEvent := f.published.drop f.lost

end Feed

namespace Delivery

/-- The events of the feed that a delivery stands for. -/
def StandsFor : Delivery → List RecordedEvent → Prop
  | .event e, part => part = [e]
  | .lagged count, part => part.length = count ∧ 0 < count
  | .pending, part | .closed, part => part = []

theorem eq_event {d : Delivery} {e : RecordedEvent} (h : d.event? = some e) : d = .event e := by
  cases d with
  | event x =>
      cases h
      rfl
  | lagged | pending | closed => cases h

end Delivery

/-- Whether an event is for a subscriber that has seen its aggregate, if it is about one, up to a
revision. -/
def wanted (o : Option AggregateId) (r : Revision) (e : RecordedEvent) : Bool :=
  match o with
  | none => true
  | some a => e.aggregate = a && decide (r < e.revision)

/-- Deliveries account for events of the feed, one after the other: each of the events is delivered,
or counted by a lag together with its neighbours, or it is not wanted after what was delivered
before. -/
inductive Covers (o : Option AggregateId) :
    Revision → List RecordedEvent → List Delivery → Prop where
  | nil (r : Revision) : Covers o r [] []
  | unwanted {r : Revision} {e : RecordedEvent} {events : List RecordedEvent}
      {found : List Delivery} (h : wanted o r e = false) (rest : Covers o r events found) :
      Covers o r (e :: events) found
  | event {r : Revision} {e : RecordedEvent} {events : List RecordedEvent} {found : List Delivery}
      (h : wanted o r e = true) (rest : Covers o e.revision events found) :
      Covers o r (e :: events) (.event e :: found)
  | lagged {r : Revision} {missed events : List RecordedEvent} {found : List Delivery}
      (h : missed ≠ []) (rest : Covers o r events found) :
      Covers o r (missed ++ events) (.lagged missed.length :: found)
  | pending {r : Revision} {events : List RecordedEvent} {found : List Delivery}
      (rest : Covers o r events found) : Covers o r events (.pending :: found)
  | closed {r : Revision} {events : List RecordedEvent} {found : List Delivery}
      (rest : Covers o r events found) : Covers o r events (.closed :: found)

namespace Covers
variable {o : Option AggregateId} {r r' : Revision} {xs ys : List RecordedEvent}
  {ds ds' : List Delivery}

/-- A subscriber to all aggregates does not care for revisions. -/
theorem of_all (h : Covers none r xs ds) : Covers none r' xs ds := by
  induction h generalizing r' with
  | nil => exact .nil r'
  | unwanted h => cases h
  | event _ _ ih => exact .event rfl ih
  | lagged h _ ih => exact .lagged h ih
  | pending _ ih => exact .pending ih
  | closed _ ih => exact .closed ih

theorem skip (skipped : ∀ x ∈ xs, wanted o r x = false) (h : Covers o r ys ds) :
    Covers o r (xs ++ ys) ds := by
  induction xs with
  | nil => exact h
  | cons x rest ih =>
      obtain ⟨first, later⟩ := List.forall_mem_cons.1 skipped
      exact .unwanted first (ih later)

theorem append (h : Covers o r xs ds) (h' : Covers o r' ys ds')
    (follows : o = none ∨ r' = headAfter r (ds.filterMap Delivery.event?)) :
    Covers o r (xs ++ ys) (ds ++ ds') := by
  induction h with
  | nil =>
      obtain rfl | rfl := follows
      · exact h'.of_all
      · exact h'
  | unwanted h _ ih => exact .unwanted h (ih follows)
  | @event r e events found h _ ih =>
      have seen : (Delivery.event e :: found).filterMap Delivery.event? =
          e :: found.filterMap Delivery.event? := rfl
      rw [seen, headAfter_cons] at follows
      exact .event h (ih follows)
  | lagged h _ ih =>
      rw [List.append_assoc]
      exact .lagged h (ih follows)
  | pending _ ih => exact .pending (ih follows)
  | closed _ ih => exact .closed (ih follows)

/-- The deliveries to a subscriber to all aggregates cut the events into one part for each. -/
theorem parts (h : Covers none r xs ds) :
    ∃ parts, List.Forall₂ Delivery.StandsFor ds parts ∧ parts.flatten = xs := by
  induction h with
  | nil => exact ⟨[], .nil, rfl⟩
  | unwanted h => cases h
  | @event r e events found _ _ ih =>
      obtain ⟨parts, stand, rfl⟩ := ih
      exact ⟨[e] :: parts, .cons rfl stand, rfl⟩
  | @lagged r missed events found h _ ih =>
      obtain ⟨parts, stand, rfl⟩ := ih
      exact ⟨missed :: parts, .cons ⟨rfl, List.length_pos_iff.2 h⟩ stand, rfl⟩
  | pending _ ih | closed _ ih =>
      obtain ⟨parts, stand, rfl⟩ := ih
      exact ⟨[] :: parts, .cons rfl stand, rfl⟩

end Covers

namespace Subscription
variable {s : Subscription} {f : Feed}

theorem wants_eq_wanted (s : Subscription) : s.wants = wanted s.aggregate s.lastSeen := rfl

/-- A subscriber is told of a lag where it is further behind than the feed keeps, and how much. -/
theorem next_eq_lagged_iff {k : Nat} : (s.next f).1 = .lagged k ↔
    s.backlog = [] ∧ 0 < k ∧ s.position + f.capacity + k = f.published.length := by
  have cases := s.next_cases f
  generalize hd : (s.next f).1 = d at cases
  generalize (s.next f).2 = s' at cases
  have lost : f.lost = f.published.length - f.capacity := rfl
  constructor
  · rintro rfl
    generalize hl : Delivery.lagged k = d at cases
    cases cases with
    | stored | live => cases hl
    | lagged h behind =>
        cases hl
        exact ⟨h, by omega, by omega⟩
    | idle => split at hl <;> cases hl
  · rintro ⟨h, positive, behind⟩
    rw [← hd, next, h]
    have gone : s.position < f.lost := by omega
    simp only [if_pos gone]
    congr 1
    omega

/-- A feed that has lost events still keeps some. -/
theorem kept_of_lagged (room : 0 < f.capacity) (h : (s.next f).1.isLagged) : f.kept ≠ [] := by
  cases hd : (s.next f).1 with
  | event | pending | closed =>
      rw [hd] at h
      cases h
  | lagged count =>
      obtain ⟨_, _, behind⟩ := next_eq_lagged_iff.1 hd
      rw [Feed.kept, Feed.lost, Ne, List.drop_eq_nil_iff]
      omega

theorem scan_event? (closed : Bool) (s : Subscription) (es : List RecordedEvent) :
    (s.scan closed es).1.event? = es.find? s.wants := by
  obtain ⟨passed, e, rest, rfl, skipped, found, heq⟩ | ⟨skipped, heq⟩ := s.scan_cases closed es
  · rw [heq, List.find?_append, List.find?_eq_none.2 fun x hx => by simp [skipped x hx],
      List.find?_cons_of_pos found]
    rfl
  · rw [heq, List.find?_eq_none.2 fun x hx => by simp [skipped x hx]]
    exact Watch.event?_idle closed

/-- After a lag a subscriber goes on with the oldest event that is kept and that it wants. -/
theorem next_after_lag (h : (s.next f).1.isLagged) :
    ((s.next f).2.next f).1.event? = f.kept.find? s.wants := by
  have cases := s.next_cases f
  generalize (s.next f).1 = d at h cases
  generalize (s.next f).2 = s' at cases
  cases cases with
  | stored | live => cases h
  | idle => split at h <;> cases h
  | lagged empty behind =>
      rw [next]
      simp only [empty, Nat.lt_irrefl, if_false]
      exact scan_event? ..

theorem pass_of_backlog (h : s.backlog ≠ []) : s.pass f = s := by
  rw [pass]
  split
  · contradiction
  · rfl

/-- What a look at the feed finds stands for the events that it passes over. -/
theorem Next.covers {d : Delivery} {s' : Subscription} (h : s.Next f d s')
    (empty : s.backlog = []) (within : s.position ≤ f.published.length) :
    s'.backlog = [] ∧ s'.aggregate = s.aggregate ∧ ∃ n, s'.position = s.position + n ∧
      s.position + n ≤ f.published.length ∧
      Covers s.aggregate s.lastSeen ((f.published.drop s.position).take n) [d] := by
  cases h with
  | stored h =>
      rw [empty] at h
      cases h
  | lagged _ behind =>
      have lost : f.lost = f.published.length - f.capacity := rfl
      refine ⟨empty, rfl, f.lost - s.position, by simp only; omega, by omega, ?_⟩
      have count : ((f.published.drop s.position).take (f.lost - s.position)).length =
          f.lost - s.position := by
        rw [List.length_take, List.length_drop]
        omega
      have some : (f.published.drop s.position).take (f.lost - s.position) ≠ [] := fun none => by
        rw [none, List.length_nil] at count
        omega
      have covered := Covers.lagged (o := s.aggregate) some (.nil s.lastSeen)
      rw [count, List.append_nil] at covered
      exact covered
  | @live passed e rest _ hf skipped found =>
      have length := congrArg List.length hf
      rw [List.length_drop, List.length_append, List.length_cons] at length
      have first : (passed ++ e :: rest).take (passed.length + 1) = passed ++ [e] := by
        rw [List.take_length_add_append]
        rfl
      have seen (v : Subscription) : (v.see e).backlog = v.backlog ∧
          (v.see e).aggregate = v.aggregate ∧ (v.see e).position = v.position := by
        rw [see]
        split <;> exact ⟨rfl, rfl, rfl⟩
      obtain ⟨backlog, aggregate, position⟩ :=
        seen { s with position := s.position + passed.length + 1 }
      refine ⟨backlog.trans empty, aggregate, passed.length + 1, position, by omega, ?_⟩
      rw [hf, first]
      exact Covers.skip skipped (.event found (.nil _))
  | idle _ skipped =>
      refine ⟨empty, rfl, (f.published.drop s.position).length, rfl, ?_, ?_⟩
      · rw [List.length_drop]
        omega
      · rw [List.take_length]
        rw [← List.append_nil (f.published.drop s.position)]
        refine Covers.skip skipped ?_
        split
        · exact .closed (.nil _)
        · exact .pending (.nil _)

end Subscription

namespace Publication

theorem capacity_after (p : Publication) (history : List Op) :
    (p.after history).feed.capacity = p.feed.capacity := by
  induction history generalizing p with
  | nil => rfl
  | cons op rest ih =>
      refine (ih (p.perform op)).trans ?_
      cases op <;> rw [perform] <;> split <;> rfl

end Publication

namespace Watch
variable {o : Option AggregateId} {r : Revision} {w : Watch} {backlog : List RecordedEvent}
  {place : Nat}

/-- A subscription to all aggregates, taken now. -/
def startAll (taken : Publication) : Watch := ⟨taken, .all taken.feed, []⟩

theorem capacity_after (w : Watch) (course : List Op) :
    (w.after course).store.feed.capacity = w.store.feed.capacity := by
  induction course generalizing w with
  | nil => rfl
  | cons op rest ih =>
      refine (ih (w.perform op)).trans ?_
      cases op with
      | meanwhile op => exact w.store.capacity_after [op]
      | next | pass => rfl

/-- A subscriber has been delivered first what was read for it and then what accounts for the feed
from its place on. -/
structure Consumes (o : Option AggregateId) (r : Revision) (backlog : List RecordedEvent)
    (place : Nat) (w : Watch) : Prop where
  aggregate : w.sub.aggregate = o
  within : place ≤ w.sub.position ∧ w.sub.position ≤ w.store.feed.published.length
  covers : ∃ stored live, w.seen = stored.map .event ++ live ∧ backlog = stored ++ w.sub.backlog ∧
    (w.sub.backlog ≠ [] → live = []) ∧
    Covers o (headAfter r backlog) (w.store.feed.between place w.sub.position) live

/-- A subscriber to one aggregate remembers the last revision that it was delivered. -/
def Remembers (o : Option AggregateId) (r : Revision) (w : Watch) : Prop :=
  o = none ∨ w.sub.lastSeen = headAfter r w.events

/-- Once it has been delivered all that was read, that is the last one of the feed. -/
theorem Remembers.follows (h : w.Remembers o r) {stored : List RecordedEvent}
    {live : List Delivery} (seen : w.seen = stored.map .event ++ live) (read : backlog = stored) :
    o = none ∨
      w.sub.lastSeen = headAfter (headAfter r backlog) (live.filterMap Delivery.event?) := by
  refine h.imp_right fun last => ?_
  have first : (stored.map Delivery.event).filterMap Delivery.event? = stored := by
    rw [List.filterMap_map]
    exact List.filterMap_some
  rw [last, events, seen, List.filterMap_append, first, headAfter_append, read]

namespace Consumes

theorem next (h : w.Consumes o r backlog place) (remembers : w.Remembers o r) :
    (w.perform .next).Consumes o r backlog place := by
  obtain ⟨stored, live, seen, read, waits, covers⟩ := h.covers
  have found := w.sub.next_cases w.store.feed
  by_cases empty : w.sub.backlog = []
  · obtain ⟨backlog', aggregate, n, position, within, covered⟩ := found.covers empty h.within.2
    rw [empty, List.append_nil] at read
    refine ⟨aggregate.trans h.aggregate, ?_, stored, live ++ [(w.sub.next w.store.feed).1], ?_, ?_,
      fun more => absurd backlog' more, ?_⟩
    · change place ≤ (w.sub.next w.store.feed).2.position ∧
        (w.sub.next w.store.feed).2.position ≤ w.store.feed.published.length
      rw [position]
      exact ⟨Nat.le_add_right_of_le h.within.1, within⟩
    · change w.seen ++ _ = _
      rw [seen, List.append_assoc]
    · change backlog = stored ++ (w.sub.next w.store.feed).2.backlog
      rw [backlog', read, List.append_nil]
    · change Covers o _ (w.store.feed.between place (w.sub.next w.store.feed).2.position) _
      rw [position, Feed.between_add _ n h.within.1 h.within.2]
      rw [h.aggregate] at covered
      exact covers.append covered (remembers.follows seen read)
  · cases hb : w.sub.backlog with
    | nil => exact absurd hb empty
    | cons e rest =>
        have heq : w.sub.next w.store.feed =
            (.event e, { w.sub with backlog := rest, lastSeen := e.revision }) := by
          rw [Subscription.next, hb]
        have quiet := waits empty
        rw [perform, heq]
        refine ⟨h.aggregate, h.within, stored ++ [e], [], ?_, ?_, fun _ => rfl, quiet ▸ covers⟩
        · change w.seen ++ [.event e] = _
          rw [seen, quiet, List.append_nil, List.append_nil, List.map_append]
          rfl
        · rw [read, hb, List.append_assoc]
          rfl

theorem pass (h : w.Consumes o r backlog place) (remembers : w.Remembers o r) :
    (w.perform .pass).Consumes o r backlog place := by
  obtain ⟨stored, live, seen, read, waits, covers⟩ := h.covers
  rw [perform]
  obtain same | ⟨e, rest, hf, skipped, moved⟩ := w.sub.pass_cases w.store.feed
  · rw [same]
    exact h
  · by_cases empty : w.sub.backlog = []
    · have length := congrArg List.length hf
      rw [List.length_drop, List.length_cons] at length
      have within := h.within
      rw [moved]
      refine ⟨h.aggregate, ⟨by simp only; omega, by simp only; omega⟩, stored, live, seen, read,
        waits, ?_⟩
      change Covers o _ (w.store.feed.between place (w.sub.position + 1)) _
      rw [Feed.between_add _ 1 within.1 within.2, hf, ← List.append_nil live]
      rw [Subscription.wants_eq_wanted, h.aggregate] at skipped
      rw [empty, List.append_nil] at read
      exact covers.append (.unwanted skipped (.nil _)) (remembers.follows seen read)
    · rw [Subscription.pass_of_backlog empty]
      exact h

theorem perform (h : w.Consumes o r backlog place) (remembers : w.Remembers o r) (op : Op) :
    (w.perform op).Consumes o r backlog place := by
  cases op with
  | next => exact h.next remembers
  | pass => exact h.pass remembers
  | meanwhile op =>
      obtain ⟨stored, live, seen, read, waits, covers⟩ := h.covers
      have grows := (w.store.grows_perform op).published
      refine ⟨h.aggregate, ⟨h.within.1, h.within.2.trans grows.length_le⟩, stored, live, seen, read,
        waits, ?_⟩
      change Covers o _ ((w.store.perform op).feed.between place w.sub.position) live
      rw [Feed.between_of_part grows h.within.2]
      exact covers

theorem after (h : w.Consumes o r backlog place) (course : List Op)
    (remembers : ∀ before, before <+: course → (w.after before).Remembers o r) :
    (w.after course).Consumes o r backlog place := by
  induction course generalizing w with
  | nil => exact h
  | cons op rest ih =>
      refine ih (h.perform (remembers [] (List.nil_prefix)) op) fun before part => ?_
      exact remembers (op :: before) (List.cons_prefix_cons.2 ⟨rfl, part⟩)

theorem startAll (taken : Publication) : (startAll taken).Consumes none .initial []
    taken.feed.published.length where
  aggregate := rfl
  within := ⟨Nat.le_refl _, Nat.le_refl _⟩
  covers := by
    refine ⟨[], [], rfl, rfl, fun _ => rfl, ?_⟩
    rw [Watch.startAll, Subscription.all, Feed.between_self]
    exact .nil _

theorem start (a : AggregateId) (r : Revision) {taken read : Publication}
    (later : taken.Grows read) : (start a r taken read).Consumes (some a) r
      ((read.logs.log a).filter fun e => r < e.revision) taken.feed.published.length where
  aggregate := rfl
  within := ⟨Nat.le_refl _, later.published.length_le⟩
  covers := by
    refine ⟨[], [], rfl, rfl, fun _ => rfl, ?_⟩
    rw [Watch.start, Subscription.after, Feed.between_self]
    exact .nil _

end Consumes

/-- What a subscriber to a feed for some number of events finds next. It is told of a lag where it
is further behind than the feed keeps, so never as long as it is behind by that number or less, and
then of all that it has lost; and it goes on with the oldest event that is kept and that it wants.
It waits only where nothing that it wants is left. -/
structure Exact (n : Nat) (w : Watch) : Prop where
  capacity : n ≤ 2 ^ 64 →
    ∃ k, w.store.feed.capacity = 2 ^ k ∧ n ≤ 2 ^ k ∧ ∀ j < k, 2 ^ j < n
  lagged (k : Nat) : (w.sub.next w.store.feed).1 = .lagged k ↔ w.sub.backlog = [] ∧ 0 < k ∧
    w.sub.position + w.store.feed.capacity + k = w.store.feed.published.length
  near : n ≤ 2 ^ 64 → w.store.feed.published.length ≤ w.sub.position + max n 1 →
    (w.sub.next w.store.feed).1.isLagged = false
  onward : (w.sub.next w.store.feed).1.isLagged →
    ((w.sub.next w.store.feed).2.next w.store.feed).1.event? =
      w.store.feed.kept.find? w.sub.wants
  waits : (w.sub.next w.store.feed).1.isPending →
    ∀ x ∈ w.store.feed.published.drop w.sub.position, w.sub.wants x = false

theorem exact_of_capacity {n : Nat} (h : w.store.feed.capacity = (Feed.ofCapacity n).capacity) :
    w.Exact n where
  capacity small := by
    rw [h]
    exact Feed.capacity_ofCapacity small
  lagged k := Subscription.next_eq_lagged_iff
  near small close := by
    obtain ⟨k, same, enough, _⟩ := Feed.capacity_ofCapacity small
    cases hd : (w.sub.next w.store.feed).1 with
    | event | pending | closed => rfl
    | lagged count =>
        obtain ⟨_, positive, behind⟩ := Subscription.next_eq_lagged_iff.1 hd
        have one : 0 < 2 ^ k := Nat.two_pow_pos k
        omega
  onward := Subscription.next_after_lag
  waits pending := ((w.sub.next_cases w.store.feed).waits pending).2

/-- A subscription to all aggregates, and one to a single aggregate from a revision on, whose log is
read after it has taken its place, to a feed for any number of events, while appends commit and
publish beside them. What the first one is delivered cuts the feed, from the place of the
subscription to where it has got, into parts in a row, one for each delivery: an event stands for
itself and a lag for just as many events as it counts. When it finds nothing more it is at the end
of the feed, and after a lag it goes on with the oldest event that is kept. The second one is
delivered what was read and then goes through the feed in the same way, except that it leaves out
events that it does not want; what it is delivered, before and after a lag, strictly increases. -/
theorem each_event_is_delivered_or_counted (n : Nat) (a : AggregateId) (r : Revision)
    (before between : List Publication.Op) (course : List Op) :
    let taken := Publication.after { feed := .ofCapacity n } before
    let place := taken.feed.published.length
    (let w := (startAll taken).after course
     w.Exact n ∧ place ≤ w.sub.position ∧ w.sub.position ≤ w.store.feed.published.length ∧
      (∃ parts, List.Forall₂ Delivery.StandsFor w.seen parts ∧
        parts.flatten = w.store.feed.between place w.sub.position) ∧
      ((w.sub.next w.store.feed).1.isPending →
        w.sub.position = w.store.feed.published.length) ∧
      ((w.sub.next w.store.feed).1.isLagged → ∃ e, w.store.feed.kept.head? = some e ∧
        ((w.sub.next w.store.feed).2.next w.store.feed).1 = .event e)) ∧
    (let read := taken.after between
     let w := (start a r taken read).after course
     w.Exact n ∧
      w.Consumes (some a) r ((read.logs.log a).filter fun e => r < e.revision) place ∧
      w.events.Pairwise fun e f => e.revision < f.revision) := by
  intro taken place
  have capacity : taken.feed.capacity = (Feed.ofCapacity n).capacity :=
    Publication.capacity_after ..
  refine ⟨?_, ?_⟩
  · intro w
    have same : w.store.feed.capacity = (Feed.ofCapacity n).capacity :=
      (capacity_after _ course).trans capacity
    have finds := exact_of_capacity same
    have consumes : w.Consumes none .initial [] place :=
      (Consumes.startAll taken).after course fun _ _ => .inl rfl
    have all (e : RecordedEvent) : w.sub.wants e = true := by
      rw [Subscription.wants_eq_wanted, consumes.aggregate]
      rfl
    obtain ⟨stored, live, seen, nothing, _, covers⟩ := consumes.covers
    obtain ⟨rfl, -⟩ := List.append_eq_nil_iff.1 nothing.symm
    rw [List.map_nil, List.nil_append] at seen
    rw [← seen] at covers
    refine ⟨finds, consumes.within.1, consumes.within.2, covers.parts, fun waits => ?_,
      fun lagged => ?_⟩
    · have left : w.store.feed.published.drop w.sub.position = [] :=
        List.eq_nil_iff_forall_not_mem.2 fun x hx => by
          have unwanted := finds.waits waits x hx
          rw [all] at unwanted
          cases unwanted
      exact Nat.le_antisymm consumes.within.2 (List.drop_eq_nil_iff.1 left)
    · have onward := finds.onward lagged
      obtain ⟨e, rest, hk⟩ := List.exists_cons_of_ne_nil
        (Subscription.kept_of_lagged (same ▸ Feed.capacity_pos n) lagged)
      rw [hk, List.find?_cons_of_pos (all e)] at onward
      exact ⟨e, by rw [hk, List.head?_cons], Delivery.eq_event onward⟩
  · intro read w
    have grows := taken.grows_after between
    have same : w.store.feed.capacity = (Feed.ofCapacity n).capacity :=
      (capacity_after _ course).trans ((Publication.capacity_after taken between).trans capacity)
    have steady (course : List Op) : ((start a r taken read).after course).Steady a r :=
      (Steady.start a r taken (((Publication.consistent_empty _ rfl).after before).after
        between)).after course
    refine ⟨exact_of_capacity same, (Consumes.start a r grows).after course fun before _ =>
      .inr (steady before).lastSeen, ?_⟩
    exact ((steady course).ascending.of_part (List.prefix_append _ _)).pairwise

/-- Five events are published for a subscriber to a feed for two, and one more when it has been told
of a lag: it is told of the three that were lost, and then of one more. -/
theorem four_of_six_are_counted :
    let commit (a : AggregateId) (count : Nat) : Publication.Op :=
      .commit a (.replicate count ⟨"noted", .null⟩) {} (.ofMillis 0) fun _ => ⟨.nil, .nil⟩
    let course : List Op := .meanwhile (commit ⟨"account", "1"⟩ 5) ::
      .replicate 5 (.meanwhile (.publish 0)) ++ [.next, .meanwhile (commit ⟨"account", "2"⟩ 1),
        .meanwhile (.publish 1), .next, .next, .next]
    let w := (startAll (Publication.after { feed := .ofCapacity 2 } [])).after course
    (w.sub.next w.store.feed).1.isPending ∧
      w.seen.map Delivery.isLagged = [true, true, false, false] ∧
      w.sub.position = w.store.feed.published.length ∧
      ∃ parts, List.Forall₂ Delivery.StandsFor w.seen parts ∧
        parts.flatten = w.store.feed.between 0 w.sub.position := by
  intro commit course
  have laws := (each_event_is_delivered_or_counted 2 ⟨"account", "1"⟩ .initial [] [] course).1
  exact ⟨by decide +kernel, by decide +kernel, laws.2.2.2.2.1 (by decide +kernel), laws.2.2.2.1⟩

end Watch
end EventSourcing
