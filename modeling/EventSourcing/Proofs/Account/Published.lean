import EventSourcing.Proofs.Account.Bank
import EventSourcing.Proofs.Account.Requests

/-!
What is published about accounts.
The writers of events and states, the schemas that are published for them and the readers of replay
are declared apart from each other. They agree on all that handlers write: it fits its schema, and
what is read from it is what the payload of the command asked for.
-/
namespace EventSourcing

namespace Program
variable {ε : Type} {e : DomainEvent}

/-- An event that a program may append, whatever it is told and however its appends end. -/
inductive MayAppend (e : DomainEvent) : Program ε → Prop where
  | env {k : CommandEnv → Program ε} (env : CommandEnv) (h : MayAppend e (k env)) :
      MayAppend e (.env k)
  | appends {k : Nat → Program ε} (n : Nat) (h : MayAppend e (k n)) : MayAppend e (.appends k)
  | now {batch : List DomainEvent} {k : Except StoreError Revision → Program ε} (h : e ∈ batch) :
      MayAppend e (.append batch k)
  | later {batch : List DomainEvent} {k : Except StoreError Revision → Program ε}
      (r : Except StoreError Revision) (h : MayAppend e (k r)) : MayAppend e (.append batch k)
  | nowWith {batch : List DomainEvent} {o : AppendOptions}
      {k : Except StoreError Revision → Program ε} (h : e ∈ batch) :
      MayAppend e (.appendWith batch o k)
  | laterWith {batch : List DomainEvent} {o : AppendOptions}
      {k : Except StoreError Revision → Program ε} (r : Except StoreError Revision)
      (h : MayAppend e (k r)) : MayAppend e (.appendWith batch o k)
  | sleep {ms : Nat} {k : Program ε} (h : MayAppend e k) : MayAppend e (.sleep ms k)
  | note {n : Note} {k : Program ε} (h : MayAppend e k) : MayAppend e (.note n k)

theorem not_mayAppend_done : ¬ (done : Program ε).MayAppend e := fun h => by cases h

theorem not_mayAppend_stop {err : CommandError ε} : ¬ (stop err).MayAppend e := fun h => by cases h

/-- Where one branch appends nothing, the other was taken. -/
theorem MayAppend.otherwise {c : Prop} [Decidable c] {x k : Program ε}
    (h : (if c then x else k).MayAppend e) (quiet : ¬ x.MayAppend e) : ¬ c ∧ k.MayAppend e := by
  split at h
  · exact absurd h quiet
  · rename_i hc
    exact ⟨hc, h⟩

theorem eq_of_mayAppend_appendEvent {type : String} {data : Json}
    (h : (appendEvent type data : Program ε).MayAppend e) : e = ⟨type, data⟩ := by
  cases h with
  | now h => exact List.mem_singleton.1 h
  | later r h =>
      cases r with
      | ok r => exact absurd h not_mayAppend_done
      | error err => exact absurd h not_mayAppend_stop

end Program

theorem AccountStatus.decode_name (s : AccountStatus) : decode (.str s.name) = .ok s := by
  cases s <;> rfl

namespace Account

/-- What an event of an account tells. -/
inductive Fact where
  | opened (o : Opened)
  | deposited (d : Amount)
  | withdrawn (d : Amount)
  | closed (c : Closed)

namespace Fact

/-- The event that handlers write for a fact. -/
def event : Fact → DomainEvent
  | .opened o => ⟨openedEvent, o.toJson⟩
  | .deposited d => ⟨depositedEvent, d.toJson⟩
  | .withdrawn d => ⟨withdrawnEvent, d.toJson⟩
  | .closed c => ⟨closedEvent, c.toJson⟩

/-- The fact that the decoder of an event's type reads from its data. -/
def Reads (e : DomainEvent) : Fact → Prop
  | .opened o => e.type = openedEvent ∧ Opened.decode e.data = .ok o
  | .deposited d => e.type = depositedEvent ∧ Amount.decode e.data = .ok d
  | .withdrawn d => e.type = withdrawnEvent ∧ Amount.decode e.data = .ok d
  | .closed c => e.type = closedEvent ∧ Closed.decode e.data = .ok c

/-- What a fact makes of an account, if it can happen to it. -/
def onto : Option Account → Fact → Option Account
  | none, .opened o => some (afterOpening o)
  | some a, .deposited d => some (afterDeposit a d)
  | some a, .withdrawn d => some (afterWithdrawal a d)
  | some a, .closed c => some (afterClosing a c)
  | _, _ => none

/-- The amounts are signed words of 64 bits. -/
def InWords : Fact → Prop
  | .opened o => Word.isInt64 o.initialDeposit = true
  | .deposited d => Word.isInt64 d.amount = true
  | .withdrawn d => Word.isInt64 d.amount = true
  | .closed _ => True

/-- The fact that a command with a payload asks for: it has the owner, the amount or the reason that
is read from the payload. -/
inductive Asked : String → Json → Fact → Prop where
  | opening {payload : Json} {c : Open} (h : Open.decode payload = .ok c) :
      Asked "open" payload (.opened ⟨c.owner, c.initialDeposit⟩)
  | deposit {payload : Json} {c : Change} (h : Change.decode payload = .ok c) :
      Asked "deposit" payload (.deposited ⟨c.amount⟩)
  | withdrawal {payload : Json} {c : Change} (h : Change.decode payload = .ok c) :
      Asked "withdraw" payload (.withdrawn ⟨c.amount⟩)
  | closing {payload : Json} {c : Close} (h : Close.decode payload = .ok c) :
      Asked "close" payload (.closed ⟨c.reason⟩)

/-- An event fits the schema of its type, and replay reads the fact from it and goes on with what
the fact makes of the account. -/
structure Conveyed (s : Option Account) (e : DomainEvent) (f : Fact) : Prop where
  fits : ∃ schema, description.events.get? e.type = some schema ∧ schema.validate e.data = .ok ()
  read : f.Reads e
  replayed : ∃ a, f.onto s = some a ∧
    ∀ x : RecordedEvent, x.toDomain = e → description.apply s x = .ok (some a)

end Fact

/-- An account that fits the schema of states when it is written, and is read back as it was. -/
structure Lasting (a : Account) : Prop where
  fits : description.stateSchema.validate a.toJson = .ok ()
  read : decode a.toJson = .ok a

theorem event?_eq (type : String) :
    description.events.get? type =
      if closedEvent = type then some closedSchema
      else if withdrawnEvent = type then some amountSchema
      else if depositedEvent = type then some amountSchema
      else if openedEvent = type then some openedSchema
      else none := by
  simp only [description, Description.withCommand, Description.withCreation,
    Description.withReducer, Description.withInitializer, Folding.withReducer,
    Folding.withInitializer, Description.withEvent, Description.withState, Description.ofType,
    Assoc.get?_put, Assoc.get?_empty]

theorem Change.isInt64_of_decode {j : Json} {c : Change} (h : Change.decode j = .ok c) :
    Word.isInt64 c.amount = true := by
  obtain ⟨get, hbuild⟩ := Decoder.build_of_record h
  obtain ⟨n, hn, rfl⟩ := Decoder.Fields.build_map_iff.1 hbuild
  obtain ⟨v, _, read⟩ := Decoder.Fields.build_required_iff.1 hn
  exact Decoder.isInt64_of_int64 read

namespace Fact
variable (f : Fact) {s : Option Account} {e : DomainEvent}

theorem fits_event :
    ∃ schema, description.events.get? f.event.type = some schema ∧
      schema.validate f.event.data = .ok () := by
  cases f with
  | opened o =>
      refine ⟨openedSchema, event?_eq openedEvent, ?_⟩
      rw [event, o.toJson_eq]
      rfl
  | deposited d => exact ⟨amountSchema, event?_eq depositedEvent, rfl⟩
  | withdrawn d => exact ⟨amountSchema, event?_eq withdrawnEvent, rfl⟩
  | closed c =>
      obtain ⟨reason⟩ := c
      cases reason <;> exact ⟨closedSchema, event?_eq closedEvent, rfl⟩

variable {f}

theorem reads_event (h : f.InWords) : f.Reads f.event := by
  cases f with
  | opened o => exact ⟨rfl, Opened.decode_toJson h⟩
  | deposited d => exact ⟨rfl, Amount.decode_toJson h⟩
  | withdrawn d => exact ⟨rfl, Amount.decode_toJson h⟩
  | closed c => exact ⟨rfl, c.decode_toJson⟩

theorem apply_none_of_reads {x : RecordedEvent} (h : f.Reads x.toDomain) {a : Account}
    (ha : f.onto none = some a) : description.apply none x = .ok (some a) := by
  cases f with
  | opened o =>
      obtain ⟨type, read⟩ := h
      cases ha
      have data : Opened.decode x.data = .ok o := read
      simp only [Folding.apply, initializer?_eq, show x.type = openedEvent from type, if_true, data]
      rfl
  | deposited d | withdrawn d | closed c => cases ha

theorem apply_some_of_reads {x : RecordedEvent} (h : f.Reads x.toDomain) {a b : Account}
    (hb : f.onto (some a) = some b) : description.apply (some a) x = .ok (some b) := by
  have read {P : Type} {decode : Decoder P} {step : Account → P → Account} {p : P}
      (reducer : description.reducers.get? x.type = some fun a j => (decode j).map (step a))
      (data : decode x.data = .ok p) :
      description.apply (some a) x = .ok (some (step a p)) := by
    simp only [Folding.apply, reducer, data]
    rfl
  cases f with
  | opened o => cases hb
  | deposited d =>
      cases hb
      exact read (by rw [reducer?_eq, show x.type = depositedEvent from h.1]; rfl) h.2
  | withdrawn d =>
      cases hb
      exact read (by rw [reducer?_eq, show x.type = withdrawnEvent from h.1]; rfl) h.2
  | closed c =>
      cases hb
      exact read (by rw [reducer?_eq, show x.type = closedEvent from h.1]; rfl) h.2

/-- What is written in words is conveyed wherever it can happen. -/
theorem conveyed (he : e = f.event) (h : f.InWords) {a : Account} (ha : f.onto s = some a) :
    f.Conveyed s e where
  fits := he ▸ f.fits_event
  read := he ▸ reads_event h
  replayed := by
    refine ⟨a, ha, fun x hx => ?_⟩
    have read : f.Reads x.toDomain := hx ▸ he ▸ reads_event h
    cases s with
    | none => exact apply_none_of_reads read ha
    | some b => exact apply_some_of_reads read ha

end Fact

section Programs
variable {found : Option (Entity Account)} {e : Entity Account} {d : DomainEvent}

theorem conveyed_open {c : Open} {payload : Json} (hc : Open.decode payload = .ok c)
    (h : (openProgram found c).MayAppend d) :
    ∃ f : Fact, f.Asked "open" payload ∧ f.Conveyed (found.map Entity.state) d := by
  rw [openProgram] at h
  obtain ⟨absent, h⟩ := h.otherwise Program.not_mayAppend_stop
  obtain ⟨_, h⟩ := h.otherwise Program.not_mayAppend_stop
  obtain ⟨_, h⟩ := h.otherwise Program.not_mayAppend_stop
  have none : found = none := by simpa using absent
  have words : (Fact.opened ⟨c.owner, c.initialDeposit⟩).InWords := Open.isInt64_of_decode hc
  rw [none]
  exact ⟨_, .opening hc, Fact.conveyed (Program.eq_of_mayAppend_appendEvent h) words rfl⟩

theorem conveyed_deposit {c : Change} {payload : Json} (hc : Change.decode payload = .ok c)
    (h : (depositProgram e c).MayAppend d) :
    ∃ f : Fact, f.Asked "deposit" payload ∧ f.Conveyed (some e.state) d := by
  rw [depositProgram] at h
  obtain ⟨_, h⟩ := h.otherwise Program.not_mayAppend_stop
  obtain ⟨_, h⟩ := h.otherwise Program.not_mayAppend_stop
  obtain ⟨_, h⟩ := h.otherwise Program.not_mayAppend_done
  obtain ⟨_, h⟩ := h.otherwise Program.not_mayAppend_stop
  have words : (Fact.deposited ⟨c.amount⟩).InWords := Change.isInt64_of_decode hc
  exact ⟨_, .deposit hc, Fact.conveyed (Program.eq_of_mayAppend_appendEvent h) words rfl⟩

theorem conveyed_withdraw {c : Change} {payload : Json} (hc : Change.decode payload = .ok c)
    (h : (withdrawProgram e c).MayAppend d) :
    ∃ f : Fact, f.Asked "withdraw" payload ∧ f.Conveyed (some e.state) d := by
  rw [withdrawProgram] at h
  obtain ⟨_, h⟩ := h.otherwise Program.not_mayAppend_stop
  obtain ⟨_, h⟩ := h.otherwise Program.not_mayAppend_stop
  obtain ⟨_, h⟩ := h.otherwise Program.not_mayAppend_done
  obtain ⟨_, h⟩ := h.otherwise Program.not_mayAppend_stop
  have words : (Fact.withdrawn ⟨c.amount⟩).InWords := Change.isInt64_of_decode hc
  exact ⟨_, .withdrawal hc, Fact.conveyed (Program.eq_of_mayAppend_appendEvent h) words rfl⟩

theorem conveyed_close {c : Close} {payload : Json} (hc : Close.decode payload = .ok c)
    (h : (closeProgram e c).MayAppend d) :
    ∃ f : Fact, f.Asked "close" payload ∧ f.Conveyed (some e.state) d := by
  rw [closeProgram] at h
  obtain ⟨_, h⟩ := h.otherwise Program.not_mayAppend_done
  obtain ⟨_, h⟩ := h.otherwise Program.not_mayAppend_stop
  have words : (Fact.closed ⟨c.reason⟩).InWords := trivial
  exact ⟨_, .closing hc, Fact.conveyed (Program.eq_of_mayAppend_appendEvent h) words rfl⟩

theorem conveyed_existing {P : Type} {schema : Schema} {decode : Decoder P}
    {handle : Entity Account → P → Program Refusal} {name : String} {a : AggregateId}
    {payload : Json} {program : Option (Entity Account) → Program Refusal}
    (conveyed : ∀ e p, decode payload = .ok p → (handle e p).MayAppend d →
      ∃ f : Fact, f.Asked name payload ∧ f.Conveyed (some e.state) d)
    (prepared : Command.prepare
      ⟨schema, .existing fun j => (decode j).map fun p e => handle e p⟩ a payload = .ok program)
    (h : (program found).MayAppend d) :
    ∃ f : Fact, f.Asked name payload ∧ f.Conveyed (found.map Entity.state) d := by
  obtain ⟨p, hp, present, absent⟩ := prepare_existing prepared
  cases found with
  | none =>
      rw [absent] at h
      exact absurd h Program.not_mayAppend_stop
  | some e =>
      rw [present] at h
      exact conveyed e p hp h

/-- Whatever a command of an account may append conveys what its payload asks for. -/
theorem conveyed_command {name : String} {c : Command Account Refusal} {a : AggregateId}
    {payload : Json} {program : Option (Entity Account) → Program Refusal}
    (hc : description.commands.get? name = some c) (prepared : c.prepare a payload = .ok program)
    (h : (program found).MayAppend d) :
    ∃ f : Fact, f.Asked name payload ∧ f.Conveyed (found.map Entity.state) d := by
  rw [command?_eq] at hc
  split at hc
  · rename_i close
    cases hc
    exact close ▸ conveyed_existing (fun _ _ => conveyed_close) prepared h
  · split at hc
    · rename_i withdraw
      cases hc
      exact withdraw ▸ conveyed_existing (fun _ _ => conveyed_withdraw) prepared h
    · split at hc
      · rename_i deposit
        cases hc
        exact deposit ▸ conveyed_existing (fun _ _ => conveyed_deposit) prepared h
      · split at hc
        · rename_i opening
          cases hc
          obtain ⟨c, decoded, program_eq⟩ := prepare_creating prepared
          rw [program_eq] at h
          exact opening ▸ conveyed_open decoded h
        · cases hc

end Programs

section States
variable {a : Account}

theorem toJson_eq (a : Account) : a.toJson = .obj [("balance", .int a.balance),
    ("owner", .str a.owner), ("status", .str a.status.name)] := by
  have sorted : ("balance" : String) < "owner" ∧ ¬ ("status" : String) < "balance" ∧
      ¬ ("status" : String) < "owner" := by decide
  simp only [toJson, Json.object, Json.insertField, List.foldl_cons, List.foldl_nil, sorted,
    String.reduceEq, if_true, if_false]

/-- The state of an account lasts as long as its balance is a signed word of 64 bits. -/
theorem lasting_of_isInt64 (h : Word.isInt64 a.balance = true) : a.Lasting where
  fits := by
    rw [toJson_eq]
    rfl
  read := by
    have owner : a.toJson.get? "owner" = some (.str a.owner) := by
      simp [toJson, Json.get?_object, Json.field?]
    have balance : a.toJson.get? "balance" = some (.int a.balance) := by
      simp [toJson, Json.get?_object, Json.field?]
    have status : a.toJson.get? "status" = some (.str a.status.name) := by
      simp [toJson, Json.get?_object, Json.field?]
    refine Decoder.record_of_yields (by decide) (Json.inOrder_object _)
      (.seq (.seq (.map ?_ mk) ?_) ?_)
    · exact .required owner rfl
    · exact .required balance (Decoder.int64_of_isInt64 h)
    · exact .required status a.status.decode_name

theorem InBounds.lasting (h : InBounds a) : a.Lasting :=
  lasting_of_isInt64 (isInt64_of_mem h.least h.greatest)

end States

section Logs
variable {log : List RecordedEvent} {s s' : Option Account} {e : RecordedEvent}

/-- An event that the rules allow conveys a fact, if it is one of those that accounts handle. -/
theorem Allowed.conveyed (h : Allowed s e s') (hs : ∀ a, s = some a → InBounds a)
    (handled : description.Handles e.type) : ∃ f : Fact, f.Conveyed s e.toDomain := by
  cases h with
  | other unhandled => exact absurd handled unhandled
  | @opened _ o he _ least greatest =>
      have words : (Fact.opened o).InWords := isInt64_of_mem least greatest
      exact ⟨.opened o, Fact.conveyed he words rfl⟩
  | @deposited a _ n he _ positive room =>
      have least := (hs a rfl).least
      have words : Word.isInt64 n = true := isInt64_of_mem (by omega) (by omega)
      exact ⟨.deposited ⟨n⟩, Fact.conveyed he words rfl⟩
  | @withdrawn a _ n he _ positive cover =>
      have greatest := (hs a rfl).greatest
      have words : Word.isInt64 n = true := isInt64_of_mem (by omega) (by omega)
      exact ⟨.withdrawn ⟨n⟩, Fact.conveyed he words rfl⟩
  | @closed a _ c he _ _ =>
      have words : (Fact.closed c).InWords := trivial
      exact ⟨.closed c, Fact.conveyed he words rfl⟩

/-- Each event of a lawful log was allowed after those before it. -/
theorem Lawful.allowed (h : Lawful log s) : ∀ before e after, log = before ++ e :: after →
    ∃ t t', Lawful before t ∧ Allowed t e t' := by
  induction h with
  | nil => exact fun before e after hlog => by simp at hlog
  | @snoc log e s s' h he ih =>
      intro before x after hlog
      obtain ⟨_, rfl, rfl⟩ | ⟨init, _, hinit⟩ := concat_eq_append_cons hlog
      · exact ⟨s, s', h, he⟩
      · exact ih before x init hinit

end Logs

/-- Accounts agree with all that is published about them. Whatever a handler may append, whichever
the payload and the state that it is given, fits the schema of its type, and replay reads from it
the owner, the amount or the reason that the payload asks for. In a bank each event that accounts
handle fits its schema and is read where it stands, and the state of each account, as it is replayed
from any part of its log or was ever answered, fits the schema of states and is read back as it
was. -/
theorem data_agree_with_what_is_published :
    (∀ name c id payload program, description.commands.get? name = some c →
      c.prepare id payload = .ok program → ∀ found e, (program found).MayAppend e →
        ∃ f : Fact, f.Asked name payload ∧ f.Conveyed (found.map Entity.state) e) ∧
    ∀ b, Bank.Reachable b →
      (∀ id before e after, b.world.log id = before ++ e :: after → description.Handles e.type →
        ∃ r, description.replay id before = .ok r ∧
          ∃ f : Fact, f.Conveyed r.state e.toDomain) ∧
      (∀ id part, part <+: b.world.log id →
        ∃ r, description.replay id part = .ok r ∧ ∀ a, r.state = some a → a.Lasting) ∧
      ∀ e ∈ b.known, e.state.Lasting := by
  refine ⟨fun name c id payload program hc prepared found e => conveyed_command hc prepared,
    fun b reachable => ?_⟩
  have sane := Bank.Sane.of_reachable reachable
  refine ⟨fun id before e after hlog handled => ?_, fun id part hp => ?_, fun e he => ?_⟩
  · obtain ⟨_, s, lawful⟩ := sane.obeys id
    obtain ⟨t, t', lawful, allowed⟩ := lawful.allowed before e after hlog
    obtain ⟨r, replayed, rfl⟩ := lawful.replay_eq id
    exact ⟨r, replayed, allowed.conveyed lawful.inBounds handled⟩
  · obtain ⟨_, s, lawful⟩ := sane.obeys id
    obtain ⟨t, lawful⟩ := lawful.of_part hp
    obtain ⟨r, replayed, rfl⟩ := lawful.replay_eq id
    exact ⟨r, replayed, fun a ha => (lawful.inBounds a ha).lasting⟩
  · obtain ⟨part, _, lawful, _⟩ := sane.known e he
    exact (lawful.inBounds _ rfl).lasting

/-- A closing without a reason is written with null, which its schema takes and replay reads as no
reason. -/
theorem closing_without_reason_is_conveyed :
    let closing : DomainEvent := ⟨closedEvent, Json.object [("reason", .null)]⟩
    let a : Account := ⟨"ada", 0, .opened⟩
    (∃ f : Fact, f.Asked "close" (Json.object []) ∧ f.Conveyed (some a) closing) ∧
      ∃ b, Bank.Reachable b ∧ (b.world.log ⟨typeName, "1"⟩).map RecordedEvent.type =
        [openedEvent, closedEvent] ∧
        ∃ r, description.replay ⟨typeName, "1"⟩ (b.world.log ⟨typeName, "1"⟩) = .ok r ∧
          ∀ a, r.state = some a → a.Lasting := by
  intro closing a
  obtain ⟨handlers, banks⟩ := data_agree_with_what_is_published
  refine ⟨?_, ?_⟩
  · let e : Entity Account := ⟨⟨typeName, "1"⟩, typeName, a, .initial, .initial⟩
    have append : (closeProgram e ⟨none⟩).MayAppend closing := .now (List.mem_singleton_self _)
    exact handlers "close" _ ⟨typeName, "1"⟩ _ _ (command?_eq "close") rfl (some e) closing append
  · let w : World := { readings := fun n => ⟨n, 0⟩, shares := fun _ => 0 }
    let opening : CommandRequest Account :=
      ⟨"open", .id ⟨typeName, "1"⟩, Open.toJson ⟨"ada", 0⟩, none⟩
    let close : CommandRequest Account := ⟨"close", .id ⟨typeName, "1"⟩, Json.object [], none⟩
    obtain ⟨b, opened, hb⟩ := (Bank.Reachable.start w rfl ⟨rfl, rfl, rfl⟩).run (q := opening)
      (fun e he => by cases he) (by decide +kernel)
    obtain ⟨c, closed, hc⟩ := opened.run (q := close) (fun e he => by cases he)
      (by rw [hb]; decide +kernel)
    refine ⟨c, closed, ?_, (banks c closed).2.1 _ _ List.prefix_rfl⟩
    rw [hc, hb]
    decide +kernel

end Account
end EventSourcing
