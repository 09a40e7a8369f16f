import EventSourcing.Proofs.Account.Decisions
import EventSourcing.Proofs.Account.Requests

/-!
Accounts as a ledger.
A ledger keeps an account for each id, or none, and settles deals by the rules alone: it knows of no
schemas, events or logs, and its numbers have no bounds but those that the rules name. Commands
dispatched one after another over an empty store end as the ledger says, and leave the accounts that
it keeps.
-/
namespace EventSourcing.Account

/-- What can be asked of an account. -/
inductive Deal where
  | opening (c : Open)
  | deposit (c : Change)
  | withdrawal (c : Change)
  | closing (c : Close)

/-- The deals that the command of a name stands for, by its payload. -/
def Deal.reading? (command : String) : Option (Json → Option Deal) :=
  if command = "open" then some fun j => (Open.read? j).map .opening
  else if command = "deposit" then some fun j => (Change.read? j).map .deposit
  else if command = "withdraw" then some fun j => (Change.read? j).map .withdrawal
  else if command = "close" then some fun j => (Close.read? j).map .closing
  else none

/-- Why a deal does not come about. -/
inductive Denial where
  | unknownCommand
  | invalidPayload
  | wrongType
  | missing
  | rejected (r : Refusal)
  /-- The store or what it holds is at fault, or the work broke off. -/
  | fault
  deriving DecidableEq

/-- What a failed command tells, but for the texts that only describe the request. -/
def Denial.of : CommandError Refusal → Denial
  | .handlerNotFound _ _ => .unknownCommand
  | .validation _ => .invalidPayload
  | .typeMismatch _ _ => .wrongType
  | .notAvailable _ => .missing
  | .rejected r => .rejected r
  | .store _ | .deserialization _ | .aborted => .fault

/-- What becomes of an account by a deal. -/
def Deal.settle (account : Option Account) : Deal → Except Denial Account
  | .opening c =>
    if account.isSome then .error (.rejected .alreadyOpen)
    else if Text.allBlank c.owner then .error (.rejected .ownerRequired)
    else if c.initialDeposit < 0 then .error (.rejected (.invalidAmount c.initialDeposit))
    else .ok ⟨c.owner, c.initialDeposit, .opened⟩
  | .deposit c =>
    match account with
    | none => .error .missing
    | some a =>
      if a.status = .closed then .error (.rejected .closed)
      else if c.amount < 0 then .error (.rejected (.invalidAmount c.amount))
      else if c.amount = 0 then .ok a
      else if Word.greatestInt64 < a.balance + c.amount then
        .error (.rejected (.balanceOverflow a.balance c.amount))
      else .ok { a with balance := a.balance + c.amount }
  | .withdrawal c =>
    match account with
    | none => .error .missing
    | some a =>
      if a.status = .closed then .error (.rejected .closed)
      else if c.amount < 0 then .error (.rejected (.invalidAmount c.amount))
      else if c.amount = 0 then .ok a
      else if a.balance < c.amount then
        .error (.rejected (.insufficientBalance a.balance c.amount))
      else .ok { a with balance := a.balance - c.amount }
  | .closing _ =>
    match account with
    | none => .error .missing
    | some a =>
      if a.status = .closed then .ok a
      else if a.balance ≠ 0 then .error (.rejected (.nonZeroBalance a.balance))
      else .ok { a with status := .closed }

abbrev Ledger := AggregateId → Option Account

namespace Ledger

def blank : Ledger := fun _ => none

def answer (l : Ledger) (c : CommandCall) : Except Denial Account :=
  match Deal.reading? c.command with
  | none => .error .unknownCommand
  | some read =>
    match read c.payload with
    | none => .error .invalidPayload
    | some deal =>
      if c.aggregate.type ≠ typeName then .error .wrongType else deal.settle (l c.aggregate)

def after (l : Ledger) (c : CommandCall) : Ledger :=
  match l.answer c with
  | .error _ => l
  | .ok a => fun id => if id = c.aggregate then some a else l id

/-- What a ledger answers to calls one after another, and how it stands then. -/
def settleAll : Ledger → List CommandCall → List (Except Denial Account) × Ledger
  | l, [] => ([], l)
  | l, c :: rest =>
    let (answers, final) := settleAll (l.after c) rest
    (l.answer c :: answers, final)

end Ledger

/-- What a caller is told, but for revisions and texts; nothing where the work broke down. -/
def plainAnswer (o : Option (CommandResult Account Refusal)) : Option (Except Denial Account) :=
  o.map fun r => (r.map Entity.state).mapError Denial.of

/-- A program that does to an account what has been settled for it. -/
inductive Carries (s : Option Account) : Program Refusal → Except Denial Account → Prop where
  | stop (e : CommandError Refusal) : Carries s (.stop e) (.error (.of e))
  | done (a : Account) (h : s = some a) : Carries s .done (.ok a)
  | event (type : String) (data : Json) (a : Account) (named : type ≠ "") (changed : s ≠ some a)
      (h : ∀ e : RecordedEvent, e.toDomain = ⟨type, data⟩ → Allowed s e (some a)) :
      Carries s (.appendEvent type data) (.ok a)

theorem not_isOpen (a : Account) : (!a.isOpen) = decide (a.status = .closed) := by
  rw [isOpen]
  cases a.status <;> rfl

theorem opened_of_not_closed {s : AccountStatus} (h : ¬ s = .closed) : s = .opened := by
  cases s with
  | opened => rfl
  | closed => exact absurd rfl h

section Programs
variable (found : Option (Entity Account)) (e : Entity Account)

theorem carries_open {c : Open} (h : Word.isInt64 c.initialDeposit = true) :
    Carries (found.map Entity.state) (openProgram found c)
      ((Deal.opening c).settle (found.map Entity.state)) := by
  rw [openProgram, Deal.settle, Option.isSome_map]
  split
  · exact .stop (.rejected .alreadyOpen)
  · rename_i hnone
    have none : found = none := by simpa using hnone
    rw [none]
    split
    · exact .stop (.rejected .ownerRequired)
    · rename_i owner
      split
      · exact .stop (.rejected (.invalidAmount _))
      · rename_i least
        refine .event _ _ _ (by decide) (by simp) fun x hx => ?_
        have greatest : c.initialDeposit ≤ Word.greatestInt64 := by
          simp only [Word.isInt64, decide_eq_true_eq, Bool.and_eq_true] at h
          exact h.2
        exact .opened hx (by simpa using owner) (Int.not_lt.1 least) greatest

theorem carries_deposit (c : Change) :
    Carries (some e.state) (depositProgram e c) ((Deal.deposit c).settle (some e.state)) := by
  simp only [depositProgram, Deal.settle, not_isOpen, decide_eq_true_eq]
  split
  · exact .stop (.rejected .closed)
  · rename_i status
    split
    · exact .stop (.rejected (.invalidAmount _))
    · split
      · exact .done _ rfl
      · split
        · exact .stop (.rejected (.balanceOverflow _ _))
        · refine .event _ _ _ (by decide) (fun same => ?_) fun x hx => ?_
          · have balance := congrArg Account.balance (Option.some.inj same)
            dsimp only at balance
            omega
          · exact .deposited hx (opened_of_not_closed status) (by omega) (by omega)

theorem carries_withdraw (c : Change) :
    Carries (some e.state) (withdrawProgram e c) ((Deal.withdrawal c).settle (some e.state)) := by
  simp only [withdrawProgram, Deal.settle, not_isOpen, decide_eq_true_eq]
  split
  · exact .stop (.rejected .closed)
  · rename_i status
    split
    · exact .stop (.rejected (.invalidAmount _))
    · split
      · exact .done _ rfl
      · split
        · exact .stop (.rejected (.insufficientBalance _ _))
        · refine .event _ _ _ (by decide) (fun same => ?_) fun x hx => ?_
          · have balance := congrArg Account.balance (Option.some.inj same)
            dsimp only at balance
            omega
          · exact .withdrawn hx (opened_of_not_closed status) (by omega) (by omega)

theorem carries_close (c : Close) :
    Carries (some e.state) (closeProgram e c) ((Deal.closing c).settle (some e.state)) := by
  simp only [closeProgram, Deal.settle, not_isOpen, decide_eq_true_eq]
  split
  · exact .done _ rfl
  · rename_i status
    split
    · exact .stop (.rejected (.nonZeroBalance _))
    · rename_i empty
      refine .event _ _ _ (by decide) (fun same => ?_) fun x hx => ?_
      · exact status (congrArg Account.status (Option.some.inj same))
      · exact .closed hx (opened_of_not_closed status) (by simpa using empty)

end Programs

section Prepare
variable {P : Type} {schema : Schema} {decode : Decoder P} {read : Json → Option P}
  (reads : ∀ {j p}, read j = some p ↔ schema.validate j = .ok () ∧ decode j = .ok p)
  {q : CommandRequest Account} {s : Option Account}
  {settle : P → Option Account → Except Denial Account}

/-- How a request is prepared, beside what is read from it: it is refused as invalid, or its program
carries out what is settled. -/
def Prepared (q : CommandRequest Account)
    (settled : Option (Option Account → Except Denial Account)) : Prop :=
  match settled with
  | none => ∃ e, description.prepare q = .error e ∧ Denial.of e = .invalidPayload
  | some settle => ∃ program, description.prepare q = .ok program ∧
      ∀ found, Carries (found.map Entity.state) (program found) (settle (found.map Entity.state))

include reads

theorem prepared {handler : Handler Account Refusal}
    (program : P → Option (Entity Account) → Program Refusal)
    (hc : description.commands.get? q.command = some ⟨schema, handler⟩)
    (hp : ∀ j, Command.prepare ⟨schema, handler⟩ q.target.aggregate j = (decode j).map program)
    (carries : ∀ j p found, decode j = .ok p →
      Carries (found.map Entity.state) (program p found) (settle p (found.map Entity.state))) :
    Prepared q ((read q.payload).map settle) := by
  cases hr : read q.payload with
  | some p =>
      obtain ⟨valid, decoded⟩ := reads.1 hr
      refine ⟨program p, ?_, fun found => carries _ p found decoded⟩
      simp only [Description.prepare, hc, valid, hp, decoded, Except.map]
  | none =>
      rw [Option.map_none, Prepared]
      simp only [Description.prepare, hc, hp]
      cases hv : schema.validate q.payload with
      | error e => exact ⟨_, rfl, rfl⟩
      | ok u =>
          cases hd : decode q.payload with
          | error e => exact ⟨_, rfl, rfl⟩
          | ok p =>
              rw [reads.2 ⟨hv, hd⟩] at hr
              cases hr

theorem prepared_creating {handle : Option (Entity Account) → P → Program Refusal}
    (hc : description.commands.get? q.command =
      some ⟨schema, .creating fun j => (decode j).map fun p e => handle e p⟩)
    (carries : ∀ j p found, decode j = .ok p →
      Carries (found.map Entity.state) (handle found p) (settle p (found.map Entity.state))) :
    Prepared q ((read q.payload).map settle) :=
  prepared reads (fun p found => handle found p) hc (fun _ => rfl) carries

/-- Without an account there is nothing to deal with. -/
theorem prepared_existing {handle : Entity Account → P → Program Refusal}
    (hc : description.commands.get? q.command =
      some ⟨schema, .existing fun j => (decode j).map fun p e => handle e p⟩)
    (missing : ∀ p, settle p none = .error .missing)
    (carries : ∀ e p, Carries (some e.state) (handle e p) (settle p (some e.state))) :
    Prepared q ((read q.payload).map settle) := by
  let program (p : P) (found : Option (Entity Account)) : Program Refusal :=
    match found with
    | some e => handle e p
    | none => .stop (.notAvailable q.target.aggregate)
  refine prepared reads program hc (fun j => ?_) fun j p found _ => ?_
  · simp only [Command.prepare]
    cases decode j with
    | error e => rfl
    | ok p => exact congrArg Except.ok (funext fun found => by cases found <;> rfl)
  · cases found with
    | none =>
        rw [Option.map_none, missing]
        exact .stop (.notAvailable _)
    | some e => exact carries e p

end Prepare

theorem prepare_unknown {c : CommandCall} (h : Deal.reading? c.command = none) :
    ∃ e, description.prepare c.direct = .error e ∧ Denial.of e = .unknownCommand := by
  have unknown : description.commands.get? (c.direct (S := Account)).command = none := by
    rw [command?_eq]
    rw [Deal.reading?] at h
    grind [CommandCall.direct]
  refine ⟨.handlerNotFound typeName c.command, ?_, rfl⟩
  simp only [Description.prepare, unknown]
  rfl

/-- The command of a name does what the ledger settles. -/
theorem prepared_call {c : CommandCall} {read : Json → Option Deal}
    (h : Deal.reading? c.command = some read) :
    Prepared c.direct ((read c.payload).map fun deal s => deal.settle s) := by
  have command := command?_eq (c.direct (S := Account)).command
  rw [Deal.reading?] at h
  split at h
  · rename_i name
    cases h
    rw [Option.map_map]
    refine prepared_creating Open.read?_eq_some_iff ?_
      fun j c found hc => carries_open found (Open.isInt64_of_decode hc)
    simpa [CommandCall.direct, name] using command
  · split at h
    · rename_i name
      cases h
      rw [Option.map_map]
      refine prepared_existing Change.read?_eq_some_iff ?_ (fun _ => rfl) carries_deposit
      simpa [CommandCall.direct, name] using command
    · split at h
      · rename_i name
        cases h
        rw [Option.map_map]
        refine prepared_existing Change.read?_eq_some_iff ?_ (fun _ => rfl) carries_withdraw
        simpa [CommandCall.direct, name] using command
      · split at h
        · rename_i name
          cases h
          rw [Option.map_map]
          refine prepared_existing Close.read?_eq_some_iff ?_ (fun _ => rfl) carries_close
          simpa [CommandCall.direct, name] using command
        · cases h

/-- What a deal leaves to be recorded: nothing if it is denied or changes nothing, else one event,
which the rules allow. -/
def Writes (s : Option Account) (r : Except Denial Account) (written : List DomainEvent) : Prop :=
  (written = [] ∧ ∀ a, r = .ok a → s = some a) ∨
    ∃ e a, written = [e] ∧ r = .ok a ∧ s ≠ some a ∧
      ∀ x : RecordedEvent, x.toDomain = e → Allowed s x (some a)

section Effect
variable {log : List RecordedEvent} {s : Option Account}

theorem Lawful.stateOf (h : Lawful log s) (a : AggregateId) :
    description.stateOf a (log.map RecordedEvent.toDomain) = .ok s := by
  obtain ⟨r, hr, hs⟩ := h.replay_eq a
  rw [← description.replay_state, hr, ← hs]
  rfl

theorem Lawful.answerOf {b : Account} (h : Lawful log (some b)) (a : AggregateId) :
    description.answerOf a (log.map RecordedEvent.toDomain) = .ok b := by
  rw [Description.answerOf, h.stateOf]

theorem Carries.effect {p : Program Refusal} {r : Except Denial Account} (h : Carries s p r)
    (lawful : Lawful log s) (a : AggregateId) (name : String) :
    let ran := p.solo a name 0
    (description.verdict a (log.map RecordedEvent.toDomain ++ ran.2) ran.1).map
        (Except.mapError Denial.of) = some r ∧
      Writes s r ran.2 := by
  cases h with
  | stop e => exact ⟨rfl, .inl ⟨rfl, fun b hb => by cases hb⟩⟩
  | done b hs =>
      subst hs
      refine ⟨?_, .inl ⟨rfl, fun b' hb => by cases hb; rfl⟩⟩
      rw [Program.solo, Description.verdict, List.append_nil, lawful.answerOf]
      rfl
  | event type data b named changed allowed =>
      let x : RecordedEvent := { (default : RecordedEvent) with type, data }
      have next : Lawful (log ++ [x]) (some b) := .snoc lawful (allowed x rfl)
      have ran : (Program.appendEvent type data : Program Refusal).solo a name 0 =
          (some (.ok ()), [⟨type, data⟩]) := by
        have checked : checkBatch [⟨type, data⟩] = .ok () := by
          simp [checkBatch, firstUnnamed, named]
        simp only [Program.appendEvent, Program.solo, checked, List.append_nil]
      simp only [ran]
      refine ⟨?_, .inr ⟨_, b, rfl, rfl, changed, allowed⟩⟩
      have answered := next.answerOf a
      rw [List.map_append] at answered
      rw [Description.verdict, Option.map_some]
      exact congrArg (fun r => some (Except.mapError Denial.of r)) answered

theorem effect_refused {c : CommandCall} {e : CommandError Refusal}
    (he : description.prepare c.direct = .error e) (facts : List DomainEvent) :
    description.effect c.direct facts = (some (.error e), []) := by
  rw [Description.effect, he]

theorem found_state (a : AggregateId) (s : Option Account) :
    (description.found a s).map Entity.state = s := by
  cases s <;> rfl

/-- What a call does to an account is what the ledger says. -/
theorem effect_answer (l : Ledger) (c : CommandCall) (lawful : Lawful log (l c.aggregate)) :
    let effect := description.effect c.direct (log.map RecordedEvent.toDomain)
    effect.1.map (Except.mapError Denial.of) = some (l.answer c) ∧
      Writes (l c.aggregate) (l.answer c) effect.2 := by
  have nothing (d : Denial) : Writes (l c.aggregate) (.error d) [] :=
    .inl ⟨rfl, fun a ha => by cases ha⟩
  rw [Ledger.answer]
  cases hr : Deal.reading? c.command with
  | none =>
      obtain ⟨e, he, denial⟩ := prepare_unknown hr
      rw [effect_refused he, ← denial]
      exact ⟨rfl, nothing _⟩
  | some read =>
      have call := prepared_call hr
      simp only
      cases hd : read c.payload with
      | none =>
          rw [hd] at call
          obtain ⟨e, he, denial⟩ := call
          rw [effect_refused he, ← denial]
          exact ⟨rfl, nothing _⟩
      | some deal =>
          rw [hd] at call
          obtain ⟨program, hp, carries⟩ := call
          simp only [Description.effect, hp]
          by_cases ht : c.aggregate.type = typeName
          · have here : ¬ (c.direct (S := Account)).target.aggregate.type ≠ description.type :=
              fun hne => hne ht
            rw [if_neg here, if_neg fun hne => hne ht, lawful.stateOf]
            have found := carries (description.found c.aggregate (l c.aggregate))
            rw [found_state] at found
            exact found.effect lawful c.aggregate c.command
          · have there : (c.direct (S := Account)).target.aggregate.type ≠ description.type := ht
            rw [if_pos there, if_pos ht]
            exact ⟨rfl, nothing _⟩

end Effect

/-- The accounts in the logs are those of a ledger. -/
structure Books (l : Ledger) (w : World) : Prop where
  clear : w.link.IsClear
  lawful : ∀ a, Lawful (w.log a) (l a)

/-- What a dispatch leaves in the logs: a denial and a deal that changes nothing leave them as they
are, and any other deal adds one event to the log of its account. -/
def Ledger.Posts (l : Ledger) (c : CommandCall) (w v : World) : Prop :=
  match l.answer c with
  | .error _ => v.log = w.log
  | .ok b =>
    if l c.aggregate = some b then v.log = w.log
    else (∃ e, v.log c.aggregate = w.log c.aggregate ++ [e]) ∧
      ∀ a, a ≠ c.aggregate → v.log a = w.log a

namespace Books
variable {l : Ledger} {w : World}

theorem start (empty : w.store.logs = ∅) (clear : w.link.IsClear) : Books .blank w where
  clear := clear
  lawful a := by
    have nil : w.log a = [] := by rw [World.log, Logs.log, empty]; rfl
    exact nil ▸ .nil

/-- What was to be written is written, and nothing else. -/
theorem written {v : World} {c : CommandCall} {written : List DomainEvent} (h : Books l w)
    (only : World.OnlyOn c.aggregate w v) (part : w.log c.aggregate <+: v.log c.aggregate)
    (hlog : (v.log c.aggregate).map RecordedEvent.toDomain =
      (w.log c.aggregate).map RecordedEvent.toDomain ++ written)
    (writes : Writes (l c.aggregate) (l.answer c) written) :
    Books (l.after c) v ∧ l.Posts c w v := by
  obtain ⟨tail, htail⟩ := part
  rw [← htail, List.map_append, List.append_cancel_left_eq] at hlog
  obtain ⟨rfl, same⟩ | ⟨e, b, rfl, answer, changed, allowed⟩ := writes
  · rw [List.map_eq_nil_iff.1 hlog, List.append_nil] at htail
    have logs : v.log = w.log := by
      funext a
      by_cases ha : c.aggregate = a
      · rw [← ha, htail]
      · exact only.logs a ha
    have unchanged : l.after c = l := by
      rw [Ledger.after]
      cases answer : l.answer c with
      | error d => rfl
      | ok b =>
          funext a
          dsimp only
          split
          · rename_i ha
            rw [ha, same b answer]
          · rfl
    refine ⟨⟨only.clear, ?_⟩, ?_⟩
    · rw [unchanged, logs]
      exact h.lawful
    · rw [Ledger.Posts]
      cases answer : l.answer c with
      | error d => exact logs
      | ok b => simpa only [same b answer, if_true] using logs
  · obtain ⟨x, rfl, hx⟩ := List.map_eq_singleton_iff.1 hlog
    refine ⟨⟨only.clear, fun a => ?_⟩, ?_⟩
    · rw [Ledger.after, answer]
      dsimp only
      split
      · rename_i ha
        rw [ha, ← htail]
        exact .snoc (h.lawful c.aggregate) (allowed x hx)
      · rename_i ha
        rw [only.logs a (Ne.symm ha)]
        exact h.lawful a
    · rw [Ledger.Posts, answer]
      simp only [if_neg changed]
      exact ⟨⟨x, htail.symm⟩, fun a ha => only.logs a (Ne.symm ha)⟩

/-- One dispatch ends as the ledger says, and leaves the account that it keeps. -/
theorem dispatch (h : Books l w) (c : CommandCall)
    (room : (description.dispatch .direct c.direct).runHasRoom w = true) :
    let ran := (description.dispatch .direct c.direct).run w
    plainAnswer ran.1 = some (l.answer c) ∧ Books (l.after c) ran.2 ∧ l.Posts c w ran.2 := by
  have target : (c.direct (S := Account)).target = .id c.aggregate := rfl
  obtain ⟨only, ⟨ending, hlog⟩, part⟩ := Activity.assures_run
    (Description.assures_dispatch StoreAccess.exclusive_direct stateDriven target).grows
    h.clear room
  obtain ⟨answered, writes⟩ := effect_answer l c (h.lawful c.aggregate)
  rw [← ending, Option.map_map] at answered
  exact ⟨answered, h.written only part hlog writes⟩

theorem dispatchAll (h : Books l w) (calls : List CommandCall)
    (room : description.allHaveRoom calls w = true) :
    (description.dispatchAll calls w).1.map plainAnswer = (l.settleAll calls).1.map some ∧
      Books (l.settleAll calls).2 (description.dispatchAll calls w).2 := by
  induction calls generalizing l w with
  | nil => exact ⟨rfl, h⟩
  | cons c rest ih =>
      rw [Description.allHaveRoom, Bool.and_eq_true] at room
      obtain ⟨answered, books, _⟩ := h.dispatch c room.1
      obtain ⟨others, final⟩ := ih books room.2
      refine ⟨?_, final⟩
      rw [Description.dispatchAll, List.map_cons, answered, others]
      rfl

end Books

/-- Commands on accounts, dispatched one after another over an empty store, refine the ledger: each
ends as the ledger answers, the accounts are always those that the ledger keeps, and an event is
recorded for a deal that changes an account and for nothing else. -/
theorem dispatches_refine_ledger {w : World} (empty : w.store.logs = ∅) (clear : w.link.IsClear)
    (calls : List CommandCall) (room : description.allHaveRoom calls w = true) :
    (description.dispatchAll calls w).1.map plainAnswer = (Ledger.blank.settleAll calls).1.map some ∧
      ∀ before after, calls = before ++ after →
        let u := (description.dispatchAll before w).2
        let l := (Ledger.blank.settleAll before).2
        (∀ a, ∃ r, description.replay a (u.log a) = .ok r ∧ r.state = l a) ∧
          ∀ c rest, after = c :: rest →
            l.Posts c u ((description.dispatch .direct c.direct).run u).2 := by
  have start := Books.start empty clear
  refine ⟨(start.dispatchAll calls room).1, fun before after split => ?_⟩
  rw [split, Description.allHaveRoom_append, Bool.and_eq_true] at room
  have books := (start.dispatchAll before room.1).2
  refine ⟨fun a => (books.lawful a).replay_eq a, fun c rest next => ?_⟩
  have room := room.2
  rw [next, Description.allHaveRoom, Bool.and_eq_true] at room
  exact (books.dispatch c room.1).2.2

/-- Deals that go through, that change nothing and that are denied. -/
theorem a_day_at_the_bank :
    let w : World := { readings := fun n => ⟨n, 0⟩, shares := fun _ => 0 }
    let ada : AggregateId := ⟨typeName, "ada"⟩
    let calls : List CommandCall :=
      [⟨ada, "deposit", (Change.mk 5).toJson, none, none⟩,
        ⟨ada, "open", (Open.mk "Ada" Word.greatestInt64).toJson, none, none⟩,
        ⟨ada, "deposit", (Change.mk 1).toJson, none, none⟩,
        ⟨ada, "withdraw", (Change.mk 0).toJson, none, none⟩,
        ⟨ada, "withdraw", (Change.mk 7).toJson, none, none⟩,
        ⟨ada, "close", (Open.mk "Ada" 0).toJson, none, none⟩]
    (description.dispatchAll calls w).1.map plainAnswer =
        [some (.error .missing), some (.ok ⟨"Ada", 9223372036854775807, .opened⟩),
          some (.error (.rejected (.balanceOverflow 9223372036854775807 1))),
          some (.ok ⟨"Ada", 9223372036854775807, .opened⟩),
          some (.ok ⟨"Ada", 9223372036854775800, .opened⟩), some (.error .invalidPayload)] := by
  intro w ada calls
  have refined := dispatches_refine_ledger (w := w) rfl ⟨rfl, rfl, rfl⟩ calls (by decide +kernel)
  rw [refined.1]
  rfl

end EventSourcing.Account
