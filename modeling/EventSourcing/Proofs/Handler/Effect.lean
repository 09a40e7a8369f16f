import EventSourcing.Proofs.Entity.Replay
import EventSourcing.Proofs.Exclusive
import EventSourcing.Proofs.Handler.Execution

/-!
Effects of commands.
A handler that decides from the state of its entity and the payload, and appends at its cursor only,
has an effect that depends on nothing but the events that were there before: their types and data
say what is appended and how the command ends. A dispatch with the log for itself has this effect,
whether it reaches the store directly or tries again.
-/
namespace EventSourcing

namespace StoreAccess

/-- With a log for itself, an access finds it as it is, and its appends at the head go through. -/
structure Exclusive (s : StoreAccess) : Prop where
  load {a : AggregateId} {log : List RecordedEvent} :
    Activity.Assures a (fun o log' => o = some (.ok log) ∧ log' = log) (s.load a) log
  append {a : AggregateId} {log : List RecordedEvent} {batch : List DomainEvent}
    {o : AppendOptions} (allowed : o.Allows (headRevision log)) :
    Activity.Assures a (fun r log' =>
      (∃ f, checkBatch batch = .error f ∧ r = some (.error (.invalidAppend f)) ∧ log' = log) ∨
      ∃ recorded, checkBatch batch = .ok () ∧ recorded.map RecordedEvent.toDomain = batch ∧
        r = some (.ok (headRevision recorded)) ∧ log' = log ++ recorded)
      (s.append a batch o) log

theorem exclusive_direct : direct.Exclusive where
  load := ⟨rfl, rfl, rfl⟩
  append allowed := by
    refine ⟨rfl, allowed, fun f hf => .inl ⟨f, hf, rfl, rfl⟩, fun hc recorded hr => ?_⟩
    exact .inr ⟨recorded, hc, hr, rfl, rfl⟩

/-- What settles the first attempt settles them all. -/
theorem assures_attempts {ρ : Type} {a : AggregateId} {log : List RecordedEvent}
    {Q : Option ρ → List RecordedEvent → Prop} {operation : Activity ρ}
    {judge : Nat → ρ → Activity Retry.Decision} (p : Retry.Policy)
    (h : Activity.Assures a Q operation log)
    (settled : ∀ n x log', Q (some x) log' → judge n x = .done .stop) :
    Activity.Assures a Q (Retry.attempts p (fun _ => operation) judge) log := by
  rw [Retry.attempts]
  cases p.attempts - 1 with
  | zero => exact h
  | succ further =>
      refine h.bind (fun x log' hx => ?_) fun log' hn => hn
      rw [settled 1 x log' hx]
      exact hx

theorem Exclusive.retrying {s : StoreAccess} (h : s.Exclusive) (p : Retry.Policy) :
    (s.retrying p).Exclusive where
  load := by
    refine assures_attempts p h.load fun n x log' hx => ?_
    cases hx.1
    rfl
  append allowed := by
    refine assures_attempts p (h.append allowed) fun n x log' hx => ?_
    obtain ⟨f, _, hr, _⟩ | ⟨recorded, _, _, hr, _⟩ := hx
    · cases hr
      rfl
    · cases hr
      rfl

end StoreAccess

namespace Program
variable {ε : Type}

/-- Two programs take the same decisions, whatever the ids of the command and the revisions are.
How long they wait and what they note may differ. Neither chooses what head to expect. -/
def Agree (a : AggregateId) (command : String) : Program ε → Program ε → Prop
  | .done, .done | .panic, .panic => True
  | .stop e, .stop e' => e = e'
  | .env k, .env k' =>
      ∀ env env' : CommandEnv, env.aggregate = a → env.command = command → env'.aggregate = a →
        env'.command = command → Agree a command (k env) (k' env')
  | .appends k, .appends k' => ∀ n, Agree a command (k n) (k' n)
  | .append batch k, .append batch' k' =>
      batch = batch' ∧ (∀ r r', Agree a command (k (.ok r)) (k' (.ok r'))) ∧
        ∀ e, Agree a command (k (.error e)) (k' (.error e))
  | .sleep _ p, .sleep _ p' | .note _ p, .note _ p' => Agree a command p p'
  | _, _ => False

/-- How a program ends and what it appends with a log for itself, after some appends. -/
def solo (a : AggregateId) (command : String) :
    Program ε → Nat → Option (Except (CommandError ε) Unit) × List DomainEvent
  | .done, _ => (some (.ok ()), [])
  | .stop e, _ => (some (.error e), [])
  | .panic, _ => (none, [])
  | .env k, n => (k ⟨a, command, "", ""⟩).solo a command n
  | .appends k, n => (k n).solo a command n
  | .append batch k, n =>
    match checkBatch batch with
    | .error f => (k (.error (.invalidAppend f))).solo a command n
    | .ok _ =>
      let (ending, written) := (k (.ok .initial)).solo a command (n + 1)
      (ending, batch ++ written)
  | .appendWith _ _ _, _ => (none, [])
  | .sleep _ p, n | .note _ p, n => p.solo a command n

/-- What a program with a log for itself leaves: the ending, the events and the number of appends
that are foretold. -/
def SoloAs (foretold : Option (Except (CommandError ε) Unit) × List DomainEvent) (n : Nat)
    (log : List RecordedEvent) (o : Option (Except (CommandError ε) Unit × AppendCursor))
    (log' : List RecordedEvent) : Prop :=
  o.map Prod.fst = foretold.1 ∧
    log'.map RecordedEvent.toDomain = log.map RecordedEvent.toDomain ++ foretold.2 ∧
    ∀ x, o = some x → n ≤ x.2.appends ∧ (x.2.appends = n ↔ foretold.2 = [])

theorem soloAs_ended (x : Except (CommandError ε) Unit) (c : AppendCursor)
    (log : List RecordedEvent) : SoloAs (some x, []) c.appends log (some (x, c)) log := by
  refine ⟨rfl, by simp, fun y hy => ?_⟩
  cases hy
  exact ⟨Nat.le_refl _, by simp⟩

/-- What is appended first stands in front of what the rest of the program appends. -/
theorem SoloAs.appended {foretold : Option (Except (CommandError ε) Unit) × List DomainEvent}
    {n : Nat} {log recorded log' : List RecordedEvent}
    {o : Option (Except (CommandError ε) Unit × AppendCursor)}
    (h : SoloAs foretold (n + 1) (log ++ recorded) o log') (nonempty : recorded ≠ []) :
    SoloAs (foretold.1, recorded.map RecordedEvent.toDomain ++ foretold.2) n log o log' := by
  obtain ⟨ending, written, count⟩ := h
  refine ⟨ending, ?_, fun x hx => ?_⟩
  · rw [written, List.map_append, List.append_assoc]
  · obtain ⟨more, _⟩ := count x hx
    exact ⟨by omega, iff_of_false (by omega) (by simp [nonempty])⟩

theorem assures_run {s : StoreAccess} (hs : s.Exclusive) (env : CommandEnv) {p₀ p : Program ε}
    (agree : Agree env.aggregate env.command p₀ p) {c : AppendCursor} {log : List RecordedEvent}
    (hc : c.expected = headRevision log) :
    Activity.Assures env.aggregate
      (SoloAs (p₀.solo env.aggregate env.command c.appends) c.appends log) (p.run s env c) log := by
  induction p₀ generalizing p c log with
  | done =>
      cases p with
      | done => exact soloAs_ended (.ok ()) c log
      | _ => exact agree.elim
  | stop e =>
      cases p with
      | stop e' =>
          cases agree
          exact soloAs_ended (.error e) c log
      | _ => exact agree.elim
  | panic =>
      cases p with
      | panic => exact ⟨rfl, by simp [solo], fun x hx => by cases hx⟩
      | _ => exact agree.elim
  | env k ih =>
      cases p with
      | env k' => exact ih ⟨env.aggregate, env.command, "", ""⟩ (agree _ env rfl rfl rfl rfl) hc
      | _ => exact agree.elim
  | appends k ih =>
      cases p with
      | appends k' => exact ih _ (agree c.appends) hc
      | _ => exact agree.elim
  | append batch k ih =>
      cases p with
      | append batch' k' =>
          obtain ⟨rfl, goes, fails⟩ := agree
          have allowed : (c.trace env (.expect c.expected)).Allows (headRevision log) := by
            intro r hr
            cases hr
            exact hc
          rw [run]
          refine (hs.append allowed).bind (fun r log' hr => ?_) fun log' hn => ?_
          · obtain ⟨f, hf, hr, rfl⟩ | ⟨recorded, hok, rfl, hr, rfl⟩ := hr
            · cases hr
              rw [solo, hf]
              exact ih _ (fails _) hc
            · cases hr
              have nonempty : recorded ≠ [] := by
                rintro rfl
                exact (checkBatch_eq_ok.1 hok).1 rfl
              have head := (headRevision_append log nonempty).symm
              have next := ih (.ok .initial) (goes .initial (headRevision recorded))
                (c := c.moved (headRevision recorded)) head
              rw [solo, hok]
              exact next.imp fun o log' h => h.appended nonempty
          · obtain ⟨f, _, hr, _⟩ | ⟨recorded, _, _, hr, _⟩ := hn <;> cases hr
      | _ => exact agree.elim
  | appendWith batch o k ih => cases p <;> exact agree.elim
  | sleep ms q ih =>
      cases p with
      | sleep ms' q' => exact ih agree hc
      | _ => exact agree.elim
  | note n q ih =>
      cases p with
      | note n' q' => exact ih agree hc
      | _ => exact agree.elim

end Program

namespace Folding
variable {S : Type} (f : Folding S) (a : AggregateId)

/-- The state after what an event says. -/
def applyFact (s : Option S) (e : DomainEvent) : Except DecodeError (Option S) :=
  f.apply s { (default : RecordedEvent) with type := e.type, data := e.data }

/-- The state that events make up, by their types and data alone. -/
def stateOf (facts : List DomainEvent) : Except DecodeError (Option S) :=
  facts.foldlM (fun s e => (f.applyFact s e).map fun t => t.or s) (f.seed.map fun seed => seed a)

theorem apply_toDomain (s : Option S) (e : RecordedEvent) :
    f.apply s e = f.applyFact s e.toDomain := by
  cases s <;> rfl

theorem step_state (r : Replay S) (e : RecordedEvent) :
    (f.step r e).map Replay.state = (f.applyFact r.state e.toDomain).map fun t => t.or r.state := by
  rw [step, apply_toDomain]
  cases f.applyFact r.state e.toDomain with
  | error err => rfl
  | ok t => cases t <;> rfl

theorem foldlM_state (log : List RecordedEvent) (r : Replay S) :
    (log.foldlM f.step r).map Replay.state =
      (log.map RecordedEvent.toDomain).foldlM
        (fun s e => (f.applyFact s e).map fun t => t.or s) r.state := by
  induction log generalizing r with
  | nil => rfl
  | cons e rest ih =>
      rw [List.foldlM_cons, List.map_cons, List.foldlM_cons, ← step_state]
      cases f.step r e with
      | error err => rfl
      | ok r' => exact ih r'

theorem replay_state (log : List RecordedEvent) :
    (f.replay a log).map Replay.state = f.stateOf a (log.map RecordedEvent.toDomain) :=
  f.foldlM_state log (f.start a)

end Folding

namespace Description
variable {S ε : Type}

/-- The handler of one command decides from the state of its entity and the payload. -/
structure Drives (d : Description S ε) (name : String) : Prop where
  absent {c : Command S ε} {a : AggregateId} {payload : Json}
    {program : Option (Entity S) → Program ε} (hc : d.commands.get? name = some c)
    (hp : c.prepare a payload = .ok program) : Program.Agree a name (program none) (program none)
  present {c : Command S ε} {a : AggregateId} {payload : Json}
    {program : Option (Entity S) → Program ε} (hc : d.commands.get? name = some c)
    (hp : c.prepare a payload = .ok program) (s : S) (r r' h h' : Revision) :
    Program.Agree a name (program (some ⟨a, d.type, s, r, h⟩))
      (program (some ⟨a, d.type, s, r', h'⟩))

/-- The handlers of an entity decide from its state and the payload. -/
def StateDriven (d : Description S ε) : Prop := ∀ name, d.Drives name

variable (d : Description S ε)

/-- What a load of an entity with such events answers. -/
def answerOf (a : AggregateId) (facts : List DomainEvent) : Except (CommandError ε) S :=
  match d.stateOf a facts with
  | .error e => .error (.deserialization e)
  | .ok none => .error (.notAvailable a)
  | .ok (some s) => .ok s

/-- The entity with a state, but for its revisions. -/
def found (a : AggregateId) (s : Option S) : Option (Entity S) :=
  s.map fun s => ⟨a, d.type, s, .initial, .initial⟩

/-- How a command ends once its handler has, with such events in the log: with what a load answers
then, unless the handler has failed or broken down. -/
def verdict (a : AggregateId) (facts : List DomainEvent) :
    Option (Except (CommandError ε) Unit) → Option (Except (CommandError ε) S)
  | none => none
  | some (.error e) => some (.error e)
  | some (.ok _) => some (d.answerOf a facts)

/-- How a command for an aggregate with such events ends, and the events that it appends. -/
def effect (q : CommandRequest S) (facts : List DomainEvent) :
    Option (Except (CommandError ε) S) × List DomainEvent :=
  let a := q.target.aggregate
  match d.prepare q with
  | .error e => (some (.error e), [])
  | .ok program =>
    if a.type ≠ d.type then (some (.error (.typeMismatch d.type a.type)), [])
    else match d.stateOf a facts with
    | .error e => (some (.error (.deserialization e)), [])
    | .ok s =>
      let (ending, written) := (program (d.found a s)).solo a q.command 0
      (d.verdict a (facts ++ written) ending, written)

/-- A dispatch has ended as foretold and appended the events that were foretold. -/
def HasEffect (foretold : Option (Except (CommandError ε) S) × List DomainEvent)
    (log : List RecordedEvent) (o : Option (Except (CommandError ε) (Entity S)))
    (log' : List RecordedEvent) : Prop :=
  o.map (Except.map Entity.state) = foretold.1 ∧
    log'.map RecordedEvent.toDomain = log.map RecordedEvent.toDomain ++ foretold.2

section Assures
variable {d} {s : StoreAccess} (hs : s.Exclusive) {a : AggregateId} {log : List RecordedEvent}
include hs

theorem assures_loadReplay (ht : a.type = d.type) :
    Activity.Assures a
      (fun o log' => o = some ((d.replay a log).mapError .deserialization) ∧ log' = log)
      (d.loadReplay s a) log := by
  rw [Folding.loadReplay, if_neg fun hne => hne ht]
  refine hs.load.bind (fun r log' hr => ?_) fun log' hn => by cases hn.1
  obtain ⟨hr, rfl⟩ := hr
  cases hr
  exact ⟨rfl, rfl⟩

theorem assures_load (ht : a.type = d.type) :
    Activity.Assures a
      (fun o log' => log' = log ∧ ∃ r, o = some r ∧
        (r.mapError CommandError.ofEntity).map Entity.state =
          d.answerOf (ε := ε) a (log.map RecordedEvent.toDomain))
      (d.load s a) log := by
  rw [Folding.load]
  refine (assures_loadReplay hs ht).bind (fun r log' hr => ?_) fun log' hn => by cases hn.1
  obtain ⟨hr, rfl⟩ := hr
  cases hr
  rw [answerOf, ← d.replay_state]
  cases d.replay a log' with
  | error e => exact ⟨rfl, _, rfl, rfl⟩
  | ok r =>
      obtain ⟨aggregate, type, state, revision, head, applied, skipped⟩ := r
      cases state with
      | none => exact ⟨rfl, _, rfl, rfl⟩
      | some s => exact ⟨rfl, _, rfl, rfl⟩

theorem assures_answer {r : Replay S} (hr : d.replay a log = .ok r) (ht : a.type = d.type)
    {foretold : Option (Except (CommandError ε) Unit) × List DomainEvent}
    {log' : List RecordedEvent} {x : Except (CommandError ε) Unit × AppendCursor}
    (h : Program.SoloAs foretold 0 log (some x) log') :
    Activity.Assures a
      (HasEffect (d.verdict a (log.map RecordedEvent.toDomain ++ foretold.2) foretold.1, foretold.2)
        log)
      (d.answer s a r.entity? x) log' := by
  obtain ⟨hending, hwritten, hcount⟩ := h
  obtain ⟨outcome, c⟩ := x
  rw [← hending]
  cases outcome with
  | error e => exact ⟨rfl, hwritten⟩
  | ok u =>
      simp only [answer]
      split
      · rename_i hzero
        have nothing : foretold.2 = [] := (hcount _ rfl).2.1 hzero
        rw [nothing, List.append_nil] at hwritten ⊢
        rw [Option.map_some, verdict, answerOf, ← d.replay_state, hr]
        obtain ⟨aggregate, type, state, revision, head, applied, skipped⟩ := r
        cases state with
        | none => exact ⟨rfl, by rw [hwritten, List.append_nil]⟩
        | some s => exact ⟨rfl, by rw [hwritten, List.append_nil]⟩
      · refine (assures_load hs ht).bind (fun r log'' hr => ?_) fun log'' hn => ?_
        · obtain ⟨rfl, r', hr', answered⟩ := hr
          cases hr'
          rw [hwritten] at answered
          refine ⟨?_, hwritten⟩
          rw [Option.map_some, answered]
          rfl
        · obtain ⟨_, r', hr', _⟩ := hn
          cases hr'

theorem assures_findTarget (ht : a.type = d.type) :
    Activity.Assures a
      (fun o log' => o = some (match d.replay a log with
        | .error e => .error (.deserialization e)
        | .ok r => .ok (r.entity?, r.head)) ∧ log' = log)
      (d.findTarget (ε := ε) s (.id a)) log := by
  rw [findTarget]
  refine (assures_loadReplay hs ht).bind (fun r log' hr => ?_) fun log' hn => by cases hn.1
  obtain ⟨hr, rfl⟩ := hr
  cases hr
  cases d.replay a log' <;> exact ⟨rfl, rfl⟩

theorem assures_execute {q : CommandRequest S} (driven : d.Drives q.command)
    (hq : q.target = .id a) {program : Option (Entity S) → Program ε}
    (hp : d.prepare q = .ok program) {r : Replay S}
    (hr : d.replay a log = .ok r) (ht : a.type = d.type) :
    let foretold := (program (d.found a r.state)).solo a q.command 0
    Activity.Assures a
      (HasEffect (d.verdict a (log.map RecordedEvent.toDomain ++ foretold.2) foretold.1, foretold.2)
        log)
      (d.execute s q program r.entity? r.head) log := by
  intro foretold fresh
  have target : q.target.aggregate = a := by rw [hq]; rfl
  rw [target]
  obtain ⟨c, hc, prepared⟩ := prepare_eq_ok hp
  rw [target] at prepared
  have agree : Program.Agree a q.command (program (d.found a r.state)) (program r.entity?) := by
    have aggregate := Folding.replay_aggregate hr
    have type := Folding.replay_type hr
    obtain ⟨_, _, state, revision, head, applied, skipped⟩ := r
    cases aggregate
    cases type
    cases state with
    | none => exact driven.absent hc prepared
    | some s => exact driven.present hc prepared s .initial revision .initial head
  refine (Program.assures_run hs (.make a q.command fresh q.correlation) agree
    (c := .atHead r.head) (Folding.replay_head hr)).bind (fun x log' hx => ?_) fun log' hx => ?_
  · exact assures_answer hs hr ht hx
  · obtain ⟨ending, written, _⟩ := hx
    refine ⟨?_, written⟩
    have none : none = foretold.1 := ending
    rw [← none]
    rfl

/-- Whatever a state-driven command does to a log of its own is its effect. -/
theorem Drives.assures_dispatch {q : CommandRequest S} (driven : d.Drives q.command)
    (hq : q.target = .id a) :
    Activity.Assures a (HasEffect (d.effect q (log.map RecordedEvent.toDomain)) log)
      (d.dispatch s q) log := by
  have carried : Activity.Assures a (HasEffect (d.effect q (log.map RecordedEvent.toDomain)) log)
      (d.carryOut s q) log := by
    have target : q.target.aggregate = a := by rw [hq]; rfl
    rw [carryOut, effect, target, hq]
    cases hp : d.prepare q with
    | error e => exact ⟨rfl, by simp⟩
    | ok program =>
        by_cases ht : a.type = d.type
        · simp only [ne_eq, ht, not_true, if_false, ← d.replay_state]
          refine (assures_findTarget hs ht).bind (fun x log' hx => ?_) fun log' hn => by cases hn.1
          obtain ⟨hx, rfl⟩ := hx
          cases hx
          cases hr : d.replay a log' with
          | error e => exact ⟨rfl, (List.append_nil _).symm⟩
          | ok r => exact assures_execute hs driven hq hp hr ht
        · simp only [ne_eq, ht, not_false_eq_true, if_true, findTarget, Folding.loadReplay,
            Activity.bind_done]
          exact ⟨rfl, by simp⟩
  refine carried.bind (fun r log' hr => ?_) fun log' hn => hn
  exact ⟨by simp, by simp, hr⟩

theorem assures_dispatch (driven : d.StateDriven) {q : CommandRequest S}
    (hq : q.target = .id a) :
    Activity.Assures a (HasEffect (d.effect q (log.map RecordedEvent.toDomain)) log)
      (d.dispatch s q) log :=
  (driven q.command).assures_dispatch hs hq

end Assures
end Description
end EventSourcing
