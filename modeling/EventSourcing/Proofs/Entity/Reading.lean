import EventSourcing.Proofs.Entity.Replay

/-!
Replays as folds.
Each event of a log is looked up in one table, which one depends on whether there is a state by then.
An event that the table knows is read and makes the next state; any other is skipped unread. A replay
is this and no more: it ends at the first event that is known but cannot be read, and it can be
continued from where it has come.
-/
namespace EventSourcing.Folding
variable {S : Type}

/-- What reads the payload of an event of some type: an initializer as long as there is no state, a
reducer once there is. -/
def reader? (f : Folding S) : Option S → String → Option (Decoder S)
  | none, type => f.initializers.get? type
  | some s, type => (f.reducers.get? type).map fun reduce => reduce s

/-- From a first state some events are read, one after the other, and the others are skipped; with
the events that were read and the last state. -/
inductive Reads (f : Folding S) :
    Option S → List RecordedEvent → List RecordedEvent → Option S → Prop where
  | nil (s : Option S) : Reads f s [] [] s
  | read {s t : Option S} {u : S} {e : RecordedEvent} {log applied : List RecordedEvent}
      {read : Decoder S} (known : f.reader? s e.type = some read) (here : read e.data = .ok u)
      (rest : Reads f (some u) log applied t) : Reads f s (e :: log) (e :: applied) t
  | skip {s t : Option S} {e : RecordedEvent} {log applied : List RecordedEvent}
      (unknown : f.reader? s e.type = none) (rest : Reads f s log applied t) :
      Reads f s (e :: log) applied t

/-- Some events are read or skipped, and the next one is known but cannot be read. -/
def Stumbles (f : Folding S) (s : Option S) (log : List RecordedEvent) (err : DecodeError) : Prop :=
  ∃ before e after applied t read, log = before ++ e :: after ∧ f.Reads s before applied t ∧
    f.reader? t e.type = some read ∧ read e.data = .error err

/-- A replay goes on over some events, of which these are applied, up to another replay. -/
structure Continues (f : Folding S) (r : Replay S) (log applied : List RecordedEvent)
    (r' : Replay S) : Prop where
  aggregate : r'.aggregate = r.aggregate
  type : r'.type = r.type
  reads : f.Reads r.state log applied r'.state
  count : r'.applied = r.applied + applied.length
  all : r'.applied + r'.skipped = r.applied + r.skipped + log.length
  revision : r'.revision = headAfter r.revision applied
  head : r'.head = headAfter r.head log

variable {f : Folding S} {a : AggregateId} {s t : Option S} {r r' : Replay S} {e : RecordedEvent}
  {log applied : List RecordedEvent} {read : Decoder S} {err : DecodeError}

theorem Reads.sublist (h : f.Reads s log applied t) : applied.Sublist log := by
  induction h with
  | nil => exact .slnil
  | read _ _ _ ih => exact ih.cons_cons _
  | skip _ _ ih => exact ih.cons _

section Steps

theorem step_of_known (known : f.reader? r.state e.type = some read) :
    f.step r e = (read e.data).map fun u =>
      { r with state := some u, revision := e.revision, head := e.revision,
               applied := r.applied + 1 } := by
  have applies : f.apply r.state e = (read e.data).map some := by
    cases hs : r.state with
    | none =>
        rw [hs] at known
        have found : f.initializers.get? e.type = some read := known
        rw [apply, found]
    | some s =>
        rw [hs] at known
        obtain ⟨reduce, found, rfl⟩ := Option.map_eq_some_iff.1 known
        rw [apply, found]
  rw [step, applies]
  cases read e.data <;> rfl

theorem step_of_unknown (unknown : f.reader? r.state e.type = none) :
    f.step r e = .ok { r with head := e.revision, skipped := r.skipped + 1 } := by
  have passes : f.apply r.state e = .ok none := by
    cases hs : r.state with
    | none =>
        rw [hs] at unknown
        have lacking : f.initializers.get? e.type = none := unknown
        rw [apply, lacking]
    | some s =>
        rw [hs] at unknown
        rw [apply, Option.map_eq_none_iff.1 unknown]
  rw [step, passes]
  rfl

end Steps

/-- A replay that went on without an error has read some events and skipped the others. -/
theorem continues_of_foldlM (h : log.foldlM f.step r = .ok r') :
    ∃ applied, f.Continues r log applied r' := by
  induction log generalizing r with
  | nil =>
      cases h
      exact ⟨[], rfl, rfl, .nil _, rfl, rfl, rfl, rfl⟩
  | cons e rest ih =>
      rw [List.foldlM_cons] at h
      cases hr : f.reader? r.state e.type with
      | none =>
          rw [step_of_unknown hr] at h
          obtain ⟨applied, more⟩ := ih h
          refine ⟨applied, more.aggregate, more.type, .skip hr more.reads, more.count, ?_,
            more.revision, ?_⟩
          · have all := more.all
            simp only [List.length_cons] at all ⊢
            omega
          · rw [headAfter_cons]
            exact more.head
      | some read =>
          rw [step_of_known hr] at h
          cases hd : read e.data with
          | error err =>
              rw [hd] at h
              cases h
          | ok u =>
              rw [hd] at h
              obtain ⟨applied, more⟩ := ih h
              refine ⟨e :: applied, more.aggregate, more.type, .read hr hd more.reads, ?_, ?_, ?_, ?_⟩
              · have count := more.count
                simp only [List.length_cons] at count ⊢
                omega
              · have all := more.all
                simp only [List.length_cons] at all ⊢
                omega
              · rw [headAfter_cons]
                exact more.revision
              · rw [headAfter_cons]
                exact more.head

/-- Events that can be read or skipped do not end a replay, which goes on to the last state. -/
theorem Reads.foldlM (h : f.Reads s log applied t) (r : Replay S) (hr : r.state = s) :
    ∃ r', log.foldlM f.step r = .ok r' ∧ r'.state = t ∧ r'.applied = r.applied + applied.length ∧
      r'.revision = headAfter r.revision applied := by
  induction h generalizing r with
  | nil => exact ⟨r, rfl, hr, rfl, rfl⟩
  | @read s t u e log applied read known here rest ih =>
      subst hr
      obtain ⟨r', whole, state, count, revision⟩ := ih { r with
        state := some u, revision := e.revision, head := e.revision, applied := r.applied + 1 } rfl
      refine ⟨r', ?_, state, ?_, ?_⟩
      · rw [List.foldlM_cons, step_of_known known, here]
        exact whole
      · have count : r'.applied = r.applied + 1 + applied.length := count
        rw [count, List.length_cons, Nat.add_right_comm, Nat.add_assoc]
      · rw [revision, headAfter_cons]
  | @skip s t e log applied unknown rest ih =>
      subst hr
      obtain ⟨r', whole, others⟩ :=
        ih { r with head := e.revision, skipped := r.skipped + 1 } rfl
      refine ⟨r', ?_, others⟩
      rw [List.foldlM_cons, step_of_unknown unknown]
      exact whole

theorem foldlM_step_eq_ok_iff :
    log.foldlM f.step r = .ok r' ↔ ∃ applied, f.Continues r log applied r' := by
  refine ⟨continues_of_foldlM, ?_⟩
  rintro ⟨applied, h⟩
  obtain ⟨r₁, whole, state, count, revision⟩ := h.reads.foldlM r rfl
  obtain ⟨_, more⟩ := continues_of_foldlM whole
  have same : r₁ = r' := by
    obtain ⟨_, _, _, _, _, _, _⟩ := r₁
    obtain ⟨_, _, _, _, _, _, _⟩ := r'
    have passed := more.all.trans h.all.symm
    have aggregate := more.aggregate.trans h.aggregate.symm
    have type := more.type.trans h.type.symm
    have head := more.head.trans h.head.symm
    have revision := revision.trans h.revision.symm
    have count := count.trans h.count.symm
    dsimp only at *
    subst aggregate type state revision head count
    rw [Nat.add_left_cancel passed]
  rw [whole, same]

theorem foldlM_step_eq_error_iff :
    log.foldlM f.step r = .error err ↔ f.Stumbles r.state log err := by
  constructor
  · intro h
    induction log generalizing r with
    | nil => cases h
    | cons e rest ih =>
        rw [List.foldlM_cons] at h
        cases hr : f.reader? r.state e.type with
        | none =>
            rw [step_of_unknown hr] at h
            obtain ⟨before, e', after, applied, t, read, rfl, reads, stops⟩ := ih h
            exact ⟨e :: before, e', after, applied, t, read, rfl, .skip hr reads, stops⟩
        | some read =>
            rw [step_of_known hr] at h
            cases hd : read e.data with
            | error err' =>
                rw [hd] at h
                cases h
                exact ⟨[], e, rest, [], r.state, read, rfl, .nil _, hr, hd⟩
            | ok u =>
                rw [hd] at h
                obtain ⟨before, e', after, applied, t, read', rfl, reads, stops⟩ := ih h
                exact ⟨e :: before, e', after, e :: applied, t, read', rfl, .read hr hd reads, stops⟩
  · rintro ⟨before, e, after, applied, t, read, rfl, reads, known, bad⟩
    obtain ⟨r', whole, state, _⟩ := reads.foldlM r rfl
    rw [← state] at known
    rw [List.foldlM_append, whole]
    change List.foldlM f.step r' (e :: after) = .error err
    rw [List.foldlM_cons, step_of_known known, bad]
    rfl

/-- Where revisions increase, none is above that of the last event. -/
theorem le_headRevision_of_pairwise
    (ascending : log.Pairwise fun x y => x.revision < y.revision) (he : e ∈ log) :
    e.revision ≤ headRevision log := by
  obtain rfl | ⟨init, last, rfl⟩ := List.eq_nil_or_concat log
  · cases he
  · rw [List.concat_eq_append] at ascending he ⊢
    rw [headRevision_concat]
    obtain early | here := List.mem_append.1 he
    · exact Revision.le_of_lt ((List.pairwise_append.1 ascending).2.2 e early last (by simp))
    · rw [List.mem_singleton.1 here]
      exact Revision.le_refl _

theorem headRevision_le_of_sublist (h : applied.Sublist log)
    (ascending : log.Pairwise fun x y => x.revision < y.revision) :
    headRevision applied ≤ headRevision log := by
  obtain rfl | ⟨init, last, rfl⟩ := List.eq_nil_or_concat applied
  · exact Revision.initial_le _
  · rw [List.concat_eq_append] at h ⊢
    rw [headRevision_concat]
    exact le_headRevision_of_pairwise ascending (h.subset (by simp))

/-- Once there is a state, initializers make no difference. -/
theorem foldlM_step_of_state (table : Assoc String (Decoder S)) (stands : r.state.isSome) :
    log.foldlM { f with initializers := table }.step r = log.foldlM f.step r := by
  induction log generalizing r with
  | nil => rfl
  | cons e rest ih =>
      obtain ⟨s, hs⟩ := Option.isSome_iff_exists.1 stands
      have same : { f with initializers := table }.reader? r.state e.type =
          f.reader? r.state e.type := by
        rw [hs]
        rfl
      rw [List.foldlM_cons, List.foldlM_cons]
      cases hr : f.reader? r.state e.type with
      | none =>
          rw [step_of_unknown hr, step_of_unknown (same.trans hr)]
          exact ih (r := { r with head := e.revision, skipped := r.skipped + 1 }) stands
      | some read =>
          rw [step_of_known hr, step_of_known (same.trans hr)]
          cases read e.data with
          | error err => rfl
          | ok u =>
              exact ih (r := { r with
                state := some u, revision := e.revision, head := e.revision,
                applied := r.applied + 1 }) rfl

/-- A replay is the fold of a log from the seed, if there is one: it ends with the state that the
events come to which their table knows, with the revision of the last of these and that of the last
event of all, and each event is counted once. It fails where the first event that is known cannot be
read, with what is wrong there. Events behind a log continue its replay. -/
theorem replay_is_the_fold (f : Folding S) (a : AggregateId) (log : List RecordedEvent) :
    let first := f.seed.map fun seed => seed a
    (∀ r, f.replay a log = .ok r ↔ r.aggregate = a ∧ r.type = f.type ∧
      ∃ applied, f.Reads first log applied r.state ∧ r.applied = applied.length ∧
        r.applied + r.skipped = log.length ∧ r.revision = headRevision applied ∧
        r.head = headRevision log) ∧
    (∀ x, (f.replay a log).mapError EntityError.deserialization = .error x ↔
      ∃ err, x = .deserialization err ∧ f.Stumbles first log err) ∧
    (log.Pairwise (fun x y => x.revision < y.revision) → ∀ r, f.replay a log = .ok r →
      r.revision ≤ r.head) ∧
    (f.seed.isSome → ∀ table, { f with initializers := table }.replay a log = f.replay a log) ∧
    ∀ more,
      (∀ err, f.replay a log = .error err → f.replay a (log ++ more) = .error err) ∧
      ∀ r, f.replay a log = .ok r →
        (∀ r', f.replay a (log ++ more) = .ok r' ↔ ∃ applied, f.Continues r more applied r') ∧
        ∀ err, f.replay a (log ++ more) = .error err ↔ f.Stumbles r.state more err := by
  intro first
  have ends (r : Replay S) : f.replay a log = .ok r ↔ r.aggregate = a ∧ r.type = f.type ∧
      ∃ applied, f.Reads first log applied r.state ∧ r.applied = applied.length ∧
        r.applied + r.skipped = log.length ∧ r.revision = headRevision applied ∧
        r.head = headRevision log := by
    rw [replay, foldlM_step_eq_ok_iff]
    constructor
    · rintro ⟨applied, aggregate, type, reads, count, all, revision, head⟩
      exact ⟨aggregate, type, applied, reads, count.trans (Nat.zero_add _),
        all.trans (Nat.zero_add _), revision, head⟩
    · rintro ⟨aggregate, type, applied, reads, count, all, revision, head⟩
      exact ⟨applied, aggregate, type, reads, count.trans (Nat.zero_add _).symm,
        all.trans (Nat.zero_add _).symm, revision, head⟩
  refine ⟨ends, fun x => ?_, fun ascending r hr => ?_, fun seeded table => ?_,
    fun more => ⟨fun err hr => ?_, fun r hr => ?_⟩⟩
  · have fails (err : DecodeError) : f.replay a log = .error err ↔ f.Stumbles first log err :=
      foldlM_step_eq_error_iff
    cases hr : f.replay a log with
    | ok r =>
        constructor
        · intro h
          cases h
        · rintro ⟨err, rfl, stumbles⟩
          cases hr.symm.trans ((fails err).2 stumbles)
    | error err =>
        constructor
        · intro h
          cases h
          exact ⟨err, rfl, (fails err).1 hr⟩
        · rintro ⟨err', rfl, stumbles⟩
          cases hr.symm.trans ((fails err').2 stumbles)
          rfl
  · obtain ⟨_, _, applied, reads, _, _, revision, head⟩ := (ends r).1 hr
    rw [revision, head]
    exact headRevision_le_of_sublist reads.sublist ascending
  · refine foldlM_step_of_state table ?_
    rw [start, Option.isSome_map]
    exact seeded
  · rw [replay_append, hr]
    rfl
  · have goesOn : f.replay a (log ++ more) = more.foldlM f.step r := by
      rw [replay_append, hr]
      rfl
    rw [goesOn]
    exact ⟨fun _ => foldlM_step_eq_ok_iff, fun _ => foldlM_step_eq_error_iff⟩

/-- What cannot be read is skipped where its table does not know it: a sum before the first opening
and a second opening. A sum that is known ends the replay. -/
theorem sum_among_unread_events :
    let a : AggregateId := ⟨"tally", "1"⟩
    let f : Folding Int := {
      type := "tally"
      initializers := Assoc.put ∅ "opened" Decoder.int64
      reducers := Assoc.put ∅ "added" fun s j => (Decoder.int64 j).map (s + ·) }
    let event (type : String) (data : Json) (n : Nat) : RecordedEvent :=
      ⟨⟨.nil⟩, a, type, data, ⟨.ofNat n⟩, .ofMillis 0, {}⟩
    let log := [event "added" (.str "x") 1, event "opened" (.int 5) 2, event "opened" .null 3,
      event "added" (.int 3) 4, event "noted" .null 5]
    let r : Replay Int := ⟨a, "tally", some 8, ⟨.ofNat 4⟩, ⟨.ofNat 5⟩, 2, 3⟩
    let last := event "added" (.str "x") 6
    let seeded := { f with seed := some fun _ => 0 }
    f.replay a log = .ok r ∧ r.revision ≤ r.head ∧
      f.replay a (log ++ [last]) = .error (.wrongKind (.str "x") "i64") ∧
      seeded.replay a [last] = { seeded with initializers := ∅ }.replay a [last] := by
  intro a f event log r last seeded
  have replayed : f.replay a log = .ok r := by rfl
  have laws := replay_is_the_fold f a log
  have stumbles : f.Stumbles r.state [last] (.wrongKind (.str "x") "i64") :=
    ⟨[], last, [], [], some 8, _, rfl, .nil _, rfl, rfl⟩
  refine ⟨replayed, laws.2.2.1 (by decide +kernel) r replayed, ?_, ?_⟩
  · exact ((laws.2.2.2.2 [last]).2 r replayed).2 _ |>.2 stumbles
  · exact ((replay_is_the_fold seeded a [last]).2.2.2.1 rfl ∅).symm

end EventSourcing.Folding
