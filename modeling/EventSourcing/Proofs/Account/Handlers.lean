import EventSourcing.Command.Dispatch
import EventSourcing.Proofs.Account.Lawful
import EventSourcing.Proofs.Guarantee
import EventSourcing.Proofs.Handler.Execution

/-!
What the handlers of accounts guarantee.
A handler appends at most one event, which the rules allow in the state that it was given. Since it
appends at the head that was found with that state, the event is recorded only where nothing has been
written since, so that a dispatch keeps all logs lawful whatever others append under the same law.
-/
namespace EventSourcing.Account

/-- A program that does nothing, or appends one event that the rules allow in a state. -/
inductive Fair (s : Option Account) : Program Refusal → Prop where
  | done : Fair s .done
  | stop (e : CommandError Refusal) (h : e.isConflict = false) : Fair s (.stop e)
  | event (type : String) (data : Json)
      (h : ∀ e : RecordedEvent, e.toDomain = ⟨type, data⟩ → ∃ s', Allowed s e s') :
      Fair s (.appendEvent type data)

section Programs
variable (e : Entity Account)

theorem fair_open (found : Option (Entity Account)) {c : Open}
    (h : Word.isInt64 c.initialDeposit = true) :
    Fair (found.map Entity.state) (openProgram found c) := by
  rw [openProgram]
  split
  · exact .stop _ rfl
  · rename_i hnone
    split
    · exact .stop _ rfl
    · rename_i owner
      split
      · exact .stop _ rfl
      · rename_i least
        have none : found = none := by simpa using hnone
        rw [none]
        refine .event _ _ fun e he => ⟨_, .opened he ?_ ?_ ?_⟩
        · simpa using owner
        · exact Int.not_lt.1 least
        · simp only [Word.isInt64, decide_eq_true_eq, Bool.and_eq_true] at h
          exact h.2

theorem fair_deposit (c : Change) : Fair (some e.state) (depositProgram e c) := by
  rw [depositProgram]
  split
  · exact .stop _ rfl
  · rename_i status
    split
    · exact .stop _ rfl
    · split
      · exact .done
      · split
        · exact .stop _ rfl
        · refine .event _ _ fun x hx => ⟨_, .deposited hx ?_ (by omega) (by omega)⟩
          simpa [isOpen] using status

theorem fair_withdraw (c : Change) : Fair (some e.state) (withdrawProgram e c) := by
  rw [withdrawProgram]
  split
  · exact .stop _ rfl
  · rename_i status
    split
    · exact .stop _ rfl
    · split
      · exact .done
      · split
        · exact .stop _ rfl
        · refine .event _ _ fun x hx => ⟨_, .withdrawn hx ?_ (by omega) (by omega)⟩
          simpa [isOpen] using status

theorem fair_close (c : Close) : Fair (some e.state) (closeProgram e c) := by
  rw [closeProgram]
  split
  · exact .done
  · rename_i status
    split
    · exact .stop _ rfl
    · rename_i empty
      refine .event _ _ fun x hx => ⟨_, .closed hx ?_ (by simpa using empty)⟩
      simpa [isOpen] using status

end Programs

theorem command?_eq (name : String) :
    description.commands.get? name =
      if "close" = name then
        some ⟨closeSchema, .existing fun j => (Close.decode j).map fun c e => closeProgram e c⟩
      else if "withdraw" = name then
        some ⟨changeSchema, .existing fun j => (Change.decode j).map fun c e => withdrawProgram e c⟩
      else if "deposit" = name then
        some ⟨changeSchema, .existing fun j => (Change.decode j).map fun c e => depositProgram e c⟩
      else if "open" = name then
        some ⟨openSchema, .creating fun j => (Open.decode j).map fun c found => openProgram found c⟩
      else none := by
  simp only [description, Description.withCommand, Description.withCreation,
    Description.withReducer, Description.withInitializer, Folding.withReducer,
    Folding.withInitializer, Description.withEvent, Description.withState, Description.ofType,
    Assoc.get?_put, Assoc.get?_empty]

section Prepare
variable {P : Type} {schema : Schema} {decode : Decoder P} {a : AggregateId} {payload : Json}
  {program : Option (Entity Account) → Program Refusal}

theorem prepare_existing {handle : Entity Account → P → Program Refusal}
    (h : Command.prepare ⟨schema, .existing fun j => (decode j).map fun p e => handle e p⟩ a payload =
      .ok program) :
    ∃ p, decode payload = .ok p ∧ (∀ e, program (some e) = handle e p) ∧
      program none = .stop (.notAvailable a) := by
  rw [Command.prepare] at h
  cases hp : decode payload with
  | error err =>
      simp only [hp] at h
      cases h
  | ok p =>
      simp only [hp] at h
      cases h
      exact ⟨p, rfl, fun _ => rfl, rfl⟩

theorem prepare_creating {handle : Option (Entity Account) → P → Program Refusal}
    (h : Command.prepare ⟨schema, .creating fun j => (decode j).map fun p e => handle e p⟩ a payload =
      .ok program) :
    ∃ p, decode payload = .ok p ∧ ∀ found, program found = handle found p := by
  rw [Command.prepare] at h
  cases hp : decode payload with
  | error err =>
      simp only [hp] at h
      cases h
  | ok p =>
      simp only [hp] at h
      cases h
      exact ⟨p, rfl, fun _ => rfl⟩

theorem fair_existing {handle : Entity Account → P → Program Refusal}
    (fair : ∀ e p, Fair (some e.state) (handle e p))
    (h : Command.prepare ⟨schema, .existing fun j => (decode j).map fun p e => handle e p⟩ a payload =
      .ok program) (found : Option (Entity Account)) :
    Fair (found.map Entity.state) (program found) := by
  obtain ⟨p, _, present, absent⟩ := prepare_existing h
  cases found with
  | none =>
      rw [absent]
      exact .stop _ rfl
  | some e =>
      rw [present]
      exact fair e p

end Prepare

/-- Whatever is asked of an account, its handler only appends what the rules allow. -/
theorem fair_command {name : String} {c : Command Account Refusal} {a : AggregateId}
    {payload : Json} {program : Option (Entity Account) → Program Refusal}
    (hc : description.commands.get? name = some c) (prepared : c.prepare a payload = .ok program)
    (found : Option (Entity Account)) : Fair (found.map Entity.state) (program found) := by
  rw [command?_eq] at hc
  split at hc
  · cases hc
    exact fair_existing (fun e c => fair_close e c) prepared found
  · split at hc
    · cases hc
      exact fair_existing (fun e c => fair_withdraw e c) prepared found
    · split at hc
      · cases hc
        exact fair_existing (fun e c => fair_deposit e c) prepared found
      · split at hc
        · cases hc
          obtain ⟨c, hd, program_eq⟩ := prepare_creating prepared
          rw [program_eq]
          exact fair_open found (Open.isInt64_of_decode hd)
        · cases hc

theorem fair_prepare {q : CommandRequest Account}
    {program : Option (Entity Account) → Program Refusal}
    (h : description.prepare q = .ok program) (found : Option (Entity Account)) :
    Fair (found.map Entity.state) (program found) := by
  obtain ⟨c, hc, prepared⟩ := Description.prepare_eq_ok h
  exact fair_command hc prepared found

/-- Each log is in order, and lawful as the log of an account. -/
def Law (_ : AggregateId) (log : List RecordedEvent) : Prop := Ordered log ∧ ∃ s, Lawful log s

/-- A state and a head that a log has had together. -/
def Had (l : Records) (a : AggregateId) (s : Option Account) (head : Revision) : Prop :=
  ∃ part, part <+: l a ∧ Lawful part s ∧ head = headRevision part

def Known (l : Records) (e : Entity Account) : Prop := Had l e.aggregate (some e.state) e.head

section Guarantees
variable {l m : Records} {a : AggregateId}

theorem Had.later {s : Option Account} {head : Revision} (h : Had l a s head)
    (hg : l.Grows m) : Had m a s head := by
  obtain ⟨part, hp, lawful, rfl⟩ := h
  exact ⟨part, hp.trans (hg a), lawful, rfl⟩

/-- At a head that the log has had, an event can only be recorded while the log is as it was then. -/
theorem Had.append {s : Option Account} {head : Revision} (h : Had l a s head)
    (obeys : l.Obeys Law) (now : head = headRevision (l a)) {e : DomainEvent}
    (allowed : ∀ x : RecordedEvent, x.toDomain = e → ∃ s', Allowed s x s')
    {recorded : List RecordedEvent} (hr : recorded.map RecordedEvent.toDomain = [e])
    (ascending : Ascending (headRevision (l a)) recorded) : Law a (l a ++ recorded) := by
  obtain ⟨part, hp, lawful, rfl⟩ := h
  have whole : part = l a := (obeys a).1.eq_of_head_eq hp now
  obtain ⟨x, hx, rfl⟩ : ∃ x : RecordedEvent, x.toDomain = e ∧ recorded = [x] := by
    cases recorded with
    | nil => cases hr
    | cons x rest =>
        obtain ⟨hx, hrest⟩ := List.cons.inj hr
        exact ⟨x, hx, by rw [List.map_eq_nil_iff.1 hrest]⟩
  refine ⟨(obeys a).1.append ascending, ?_⟩
  obtain ⟨s', hs'⟩ := allowed x hx
  rw [← whole]
  exact ⟨s', .snoc lawful hs'⟩

theorem guarantees_program {env : CommandEnv} {c : AppendCursor} {s : Option Account}
    {p : Program Refusal} (fair : Fair s p) (h : Had l env.aggregate s c.expected) :
    Activity.Guarantees Law (fun _ _ => True) (p.run .direct env c) l := by
  cases fair with
  | done | stop e he => exact fun m hm obeys => trivial
  | event type data allowed =>
      rw [Program.appendEvent, Program.run_append_direct]
      refine ⟨fun m hm obeys head recorded hr ascending => ?_, fun r m hm obeys => ?_⟩
      · exact (h.later hm).append obeys (head _ rfl) allowed hr ascending
      · cases r <;> exact fun n hn obeys => trivial

/-- A replay finds what the log stands for now. -/
theorem had_of_replay (obeys : l.Obeys Law) {a : AggregateId} {x : Replay Account}
    (hx : description.replay a (l a) = .ok x) : x.aggregate = a ∧ Had l a x.state x.head := by
  obtain ⟨_, s, lawful⟩ := obeys a
  obtain ⟨r, hr, hs⟩ := lawful.replay_eq a
  rw [hr] at hx
  cases hx
  refine ⟨Folding.replay_aggregate hr, ⟨l a, List.prefix_rfl, ?_, ?_⟩⟩
  · rw [hs]
    exact lawful
  · exact Folding.replay_head hr

theorem guarantees_loadReplay (a : AggregateId) :
    Activity.Guarantees Law
      (fun m r => ∀ x, r = .ok x → x.aggregate = a ∧ Had m a x.state x.head)
      (description.loadReplay .direct a) l := by
  rw [Folding.loadReplay]
  split
  · exact fun m hm obeys x hx => by cases hx
  · intro m hm obeys n hn obeys' x hx
    cases hr : description.replay a (m a) with
    | error err =>
        rw [hr] at hx
        cases hx
    | ok r =>
        rw [hr] at hx
        cases hx
        obtain ⟨here, had⟩ := had_of_replay obeys hr
        exact ⟨here, had.later hn⟩

theorem Known.of_entity? {r : Replay Account} {e : Entity Account} (he : r.entity? = some e)
    (h : Had l r.aggregate r.state r.head) : Known l e := by
  obtain ⟨state, head, aggregate⟩ := Folding.entity?_eq_some he
  rw [Known, head, aggregate, ← state]
  exact h

theorem Known.later {e : Entity Account} (h : Known l e) (hg : l.Grows m) : Known m e :=
  Had.later h hg

theorem guarantees_load (a : AggregateId) (obeys : l.Obeys Law) :
    Activity.Guarantees Law (fun m r => ∀ e, r = .ok e → Known m e)
      (description.load .direct a) l := by
  refine (guarantees_loadReplay a).bind (fun r m hm obeys h => ?_) obeys
  cases r with
  | error err => exact fun n hn obeys e he => by cases he
  | ok r =>
      obtain ⟨rfl, had⟩ := h r rfl
      cases he : r.entity? with
      | none =>
          simp only [he]
          exact fun n hn obeys e he => by cases he
      | some e =>
          simp only [he]
          intro n hn obeys e' he'
          cases he'
          exact (Known.of_entity? he had).later hn

/-- What a target is found to be. -/
def Finding (a : AggregateId) (m : Records)
    (r : Except (CommandError Refusal) (Option (Entity Account) × Revision)) : Prop :=
  ∀ found head, r = .ok (found, head) → Had m a (found.map Entity.state) head ∧
    ∀ e, found = some e → Known m e

theorem guarantees_findTarget {target : Target Account} (obeys : l.Obeys Law)
    (h : ∀ e, target = .loaded e → Known l e) :
    Activity.Guarantees Law (Finding target.aggregate)
      (description.findTarget .direct target) l := by
  cases target with
  | loaded e =>
      intro m hm obeys found head hr
      cases hr
      refine ⟨(h e rfl).later hm, fun e' he' => ?_⟩
      cases he'
      exact (h e rfl).later hm
  | id a =>
      refine (guarantees_loadReplay a).bind (fun r m hm obeys hr => ?_) obeys
      cases r with
      | error err => exact fun n hn obeys found head hr => by cases hr
      | ok r =>
          obtain ⟨rfl, had⟩ := hr r rfl
          intro n hn obeys found head hr
          cases hr
          refine ⟨?_, fun e he => (Known.of_entity? he had).later hn⟩
          have state : r.entity?.map Entity.state = r.state := by
            rw [Replay.entity?, Option.map_map]
            exact Option.map_id'
          rw [state]
          exact had.later hn

theorem guarantees_answer {found : Option (Entity Account)} (a : AggregateId)
    (obeys : l.Obeys Law) (h : ∀ e, found = some e → Known l e)
    (r : Except (CommandError Refusal) Unit × AppendCursor) :
    Activity.Guarantees Law (fun m r => ∀ e, r = .ok e → Known m e)
      (description.answer .direct a found r) l := by
  obtain ⟨outcome, c⟩ := r
  cases outcome with
  | error err => exact fun m hm obeys e he => by cases he
  | ok u =>
      simp only [Description.answer]
      split
      · cases found with
        | none => exact fun m hm obeys e he => by cases he
        | some e =>
            intro m hm obeys e' he'
            cases he'
            exact (h e rfl).later hm
      · refine (guarantees_load a obeys).bind (fun r m hm obeys hr n hn obeys' e he => ?_) obeys
        cases r with
        | error err => cases he
        | ok e' =>
            cases he
            exact (hr e rfl).later hn

/-- A dispatch keeps all logs lawful, whatever others append meanwhile under the same law, and
answers with an entity as it was at some time. -/
theorem guarantees_dispatch {q : CommandRequest Account} (obeys : l.Obeys Law)
    (h : ∀ e, q.target = .loaded e → Known l e) :
    Activity.Guarantees Law (fun m r => ∀ e, r = .ok e → Known m e)
      (description.dispatch .direct q) l := by
  have carried : Activity.Guarantees Law (fun m r => ∀ e, r = .ok e → Known m e)
      (description.carryOut .direct q) l := by
    rw [Description.carryOut]
    cases hp : description.prepare q with
    | error err => exact fun m hm obeys e he => by cases he
    | ok program =>
        refine (guarantees_findTarget obeys h).bind (fun r m hm obeys finding => ?_) obeys
        cases r with
        | error err => exact fun n hn obeys e he => by cases he
        | ok r =>
            obtain ⟨found, head⟩ := r
            obtain ⟨had, known⟩ := finding found head rfl
            intro fresh
            refine (guarantees_program (fair_prepare hp found) had).bind ?_ obeys
            intro r n hn obeys _
            exact guarantees_answer _ obeys (fun e he => (known e he).later hn) r
  refine carried.bind (fun r m hm obeys hr n hn obeys' e he => ?_) obeys
  exact (hr e he).later hn

end Guarantees
end EventSourcing.Account
