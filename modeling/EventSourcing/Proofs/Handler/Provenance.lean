import Mathlib.Data.List.Nodup
import EventSourcing.Proofs.Handler.Retried
import EventSourcing.Proofs.Store.History
import EventSourcing.Proofs.Text.Identifiers

/-!
Where events come from.
Each event that a handler appends names the request that it belongs to and what directly led to it:
the last event that the handler has appended with success before, or the command. An append may
choose other ids. Where none does, the causes lead from each event over the last event of each
earlier batch back to the command.
-/
namespace EventSourcing

theorem recordBatch_metadata {a : AggregateId} {m : Metadata} {t : Timestamp}
    {draw : Nat → EventDraw} {i : Nat} {previous : Revision} {batch : List DomainEvent}
    {recorded : List RecordedEvent} (h : recordBatch a m t draw i previous batch = some recorded) :
    ∀ e ∈ recorded, e.metadata = m := by
  induction batch generalizing i previous recorded with
  | nil =>
      cases h
      exact List.forall_mem_nil _
  | cons e rest ih =>
      obtain ⟨r, tail, _, htail, rfl⟩ := recordBatch_cons_eq_some.1 h
      exact List.forall_mem_cons.2 ⟨rfl, ih htail⟩

theorem ascending_nil (r : Revision) : Ascending r [] := List.pairwise_singleton _ _

/-- A revision stands in an ordered log only once. -/
theorem Ordered.eq_of_revision_eq {log : List RecordedEvent} (h : Ordered log)
    {e f : RecordedEvent} (he : e ∈ log) (hf : f ∈ log) (same : e.revision = f.revision) :
    e = f := by
  have each_once : (log.map RecordedEvent.revision).Nodup := by
    refine (List.pairwise_cons.1 h).2.imp fun {r s} less same => ?_
    rw [same] at less
    exact Revision.lt_irrefl s less
  exact List.inj_on_of_nodup_map each_once he hf same

/-- What an append leaves at the end of its log: its events, or nothing. -/
structure Adds (log : List RecordedEvent) (batch : List DomainEvent) (m : Metadata)
    (answer : Except StoreError Revision) (added : List RecordedEvent) : Prop where
  ascending : Ascending (headRevision log) added
  events : added = [] ∨ added.map RecordedEvent.toDomain = batch
  metadata : ∀ e ∈ added, e.metadata = m
  /-- The answer is the revision of the last event. -/
  success : ∀ r, answer = .ok r → added ≠ [] ∧ headRevision added = r

theorem adds_nothing {log : List RecordedEvent} {batch : List DomainEvent} {m : Metadata}
    {e : StoreError} : Adds log batch m (.error e) [] where
  ascending := ascending_nil _
  events := .inl rfl
  metadata := List.forall_mem_nil _
  success _ h := by cases h

theorem Adds.map_eq {log : List RecordedEvent} {batch : List DomainEvent} {m : Metadata}
    {r : Revision} {added : List RecordedEvent} (h : Adds log batch m (.ok r) added) :
    added.map RecordedEvent.toDomain = batch :=
  h.events.resolve_left (h.success r rfl).1

namespace World

theorem log_add_nothing (w : World) (a b : AggregateId) :
    w.log b = if a = b then w.log a ++ [] else w.log b := by
  split
  · rename_i same
    rw [List.append_nil, same]
  · rfl

theorem adds_commit (w : World) (a : AggregateId) (batch : List DomainEvent) (o : AppendOptions) :
    ∃ added, Adds (w.log a) batch o.metadata (w.commit a batch o).1 added ∧
      (∀ b, (w.commit a batch o).2.log b = if a = b then w.log a ++ added else w.log b) ∧
      ∀ e, (w.commit a batch o).1 = .error e → added = [] := by
  obtain ⟨r, hr⟩ | ⟨e, he⟩ := w.commit_ok_or_error a batch o
  · obtain ⟨recorded, hc, _, hrec, rfl, heq⟩ := commit_ok hr
    refine ⟨recorded, ⟨recordBatch_ascending hrec, .inr (recorded?_toDomain hrec),
      recordBatch_metadata hrec, ?_⟩, fun b => by rw [heq, log_extend], ?_⟩
    · rintro s hs
      cases hr.symm.trans hs
      exact ⟨recorded?_ne_nil hc hrec, rfl⟩
    · intro e he
      cases hr.symm.trans he
  · refine ⟨[], by rw [he]; exact adds_nothing, fun b => ?_, fun _ _ => rfl⟩
    rw [log_commit_error he, ← log_add_nothing]

/-- An append over the link leaves its events or nothing, whatever its answer tells. -/
theorem adds_append (w : World) (a : AggregateId) (batch : List DomainEvent) (o : AppendOptions) :
    ∃ added, Adds (w.log a) batch o.metadata (w.append a batch o).1 added ∧
      (∀ b, (w.append a batch o).2.log b = if a = b then w.log a ++ added else w.log b) ∧
      (w.link.IsClear → ∀ e, (w.append a batch o).1 = .error e → added = []) := by
  obtain ⟨added, adds, logs, failed⟩ := w.sending.adds_commit a batch o
  rw [commit_sending] at adds failed
  rw [append_eq]
  cases fault : w.link.takeAppend.1 with
  | none => exact ⟨added, adds, logs, fun _ => failed⟩
  | some f =>
      have faulty : ¬w.link.IsClear := fun clear => by
        rw [Link.takeAppend, clear.appendFaults] at fault
        cases fault
      cases f with
      | refused e =>
          exact ⟨[], adds_nothing, fun b => w.log_add_nothing a b, fun _ _ _ => rfl⟩
      | unanswered e =>
          refine ⟨added, ⟨adds.ascending, adds.events, adds.metadata, fun r answer => ?_⟩, logs,
            fun clear => absurd clear faulty⟩
          cases h : (w.commit a batch o).1 with
          | ok s => rw [h] at answer; cases answer
          | error s => rw [h] at answer; cases answer

end World

/-- What a step has done, and what it has left at the end of the log. -/
structure Entry where
  step : StoreStep
  added : List RecordedEvent

namespace Entry

/-- The last event of a batch that the handler has appended with success. -/
def last? (e : Entry) : Option RecordedEvent := e.step.revision?.bind fun _ => e.added.getLast?

/-- The last events of the batches that the handler has appended with success. -/
def lasts (account : List Entry) : List RecordedEvent := account.filterMap last?

/-- What directly leads to an append of a command: the last successful append before, or else the
command. -/
def cause (command : String) (before : List Entry) : String :=
  match (before.filterMap fun e => e.step.revision?).getLast? with
  | some r => r.text
  | none => command

/-- The ids that the events of an append carry: its own, or else those of the request and of what
led to it. -/
def ids (command : String) (request : Option String) (before : List Entry) (o : AppendOptions) :
    Metadata :=
  ⟨some ((o.correlation.or request).getD command),
    some (o.causation.getD (cause command before))⟩

/-- What an entry tells about a log, behind all that was there before. -/
def Tells (a : AggregateId) (command : String) (request : Option String) (log : List RecordedEvent)
    (before : List Entry) (e : Entry) : Prop :=
  match e.step with
  | .nothing => e.added = []
  | .own batch answer => Adds log batch (ids command request before {}) answer e.added
  | .free batch o answer => Adds log batch (ids command request before o) answer e.added
  | .foreign b batch o answer =>
    (b = a → Adds log batch o.metadata answer e.added) ∧ (b ≠ a → e.added = [])

end Entry

namespace Execution
variable {ε : Type} {a : AggregateId} {command : String} {fresh : Ulid} {request : Option String}
  {x y : Execution ε} {d : StoreStep}

/-- Accounts of what has happened since the log was as it is given. -/
structure Accounts (a : AggregateId) (id : String) (request : Option String) (clear : Prop)
    (begun : List RecordedEvent) (account : List Entry) (x : Execution ε) : Prop where
  ordered : Ordered (x.world.log a)
  link : clear → x.world.link.IsClear
  log : x.world.log a = begun ++ (account.map Entry.added).flatten
  last : x.cursor.last = (account.filterMap fun e => e.step.revision?).getLast?
  tells : ∀ before e after, account = before ++ e :: after →
    e.Tells a id request (begun ++ (before.map Entry.added).flatten) before
  failed : clear → ∀ e ∈ account, e.step.IsFailedAppend → e.added = []

/-- What a step is for an account: one more entry. -/
structure Continues (a : AggregateId) (id : String) (request : Option String)
    (account : List Entry) (x : Execution ε) (d : StoreStep) (y : Execution ε)
    (added : List RecordedEvent) : Prop where
  ascending : Ascending (headRevision (x.world.log a)) added
  link : x.world.link.IsClear → y.world.link.IsClear
  log : y.world.log a = x.world.log a ++ added
  last : y.cursor.last = d.revision?.or x.cursor.last
  tells : Entry.Tells a id request (x.world.log a) account ⟨d, added⟩
  failed : x.world.link.IsClear → d.IsFailedAppend → added = []

/-- A step that leaves the log and the cursor as they are. -/
theorem Continues.quiet {id : String} {account : List Entry}
    (link : x.world.link.IsClear → y.world.link.IsClear) (log : y.world.log a = x.world.log a)
    (cursor : y.cursor = x.cursor) : Continues a id request account x .nothing y [] where
  ascending := ascending_nil _
  link := link
  log := by rw [log, List.append_nil]
  last := by rw [cursor]; rfl
  tells := rfl
  failed _ h := h.elim

theorem Accounts.next {id : String} {clear : Prop} {begun added : List RecordedEvent}
    {account : List Entry} (h : Accounts a id request clear begun account x)
    (step : Continues a id request account x d y added) :
    Accounts a id request clear begun (account ++ [⟨d, added⟩]) y where
  ordered := by
    rw [step.log]
    exact h.ordered.append step.ascending
  link c := step.link (h.link c)
  log := by simp [step.log, h.log]
  last := by
    rw [step.last, h.last]
    cases revision : d.revision? <;> simp [List.filterMap_append, revision]
  tells before e after split := by
    obtain ⟨_, rfl, rfl⟩ | ⟨init, _, rfl⟩ := concat_eq_append_cons split
    · rw [← h.log]
      exact step.tells
    · exact h.tells before e init rfl
  failed c e he failed := by
    obtain old | new := List.mem_append.1 he
    · exact h.failed c e old failed
    · obtain rfl := List.mem_singleton.1 new
      exact step.failed (h.link c) failed

/-- An append fills in the ids that it leaves open. -/
theorem trace_metadata {account : List Entry} {c : AppendCursor}
    (last : c.last = (account.filterMap fun e => e.step.revision?).getLast?) (o : AppendOptions) :
    (c.trace (.make a command fresh request) o).metadata =
      Entry.ids (CommandEnv.make a command fresh request).commandId request account o := by
  have correlation (id : String) :
      o.correlation.getD (request.getD id) = (o.correlation.or request).getD id := by
    cases o.correlation <;> rfl
  rw [AppendCursor.trace, AppendOptions.metadata, Entry.ids, ← correlation, Entry.cause, ← last]
  rfl

theorem continues_of_own {account : List Entry}
    (last : x.cursor.last = (account.filterMap fun e => e.step.revision?).getLast?)
    (h : Own (.make a command fresh request) x d y) :
    ∃ added, Continues a (CommandEnv.make a command fresh request).commandId request account
      x d y added := by
  cases h with
  | env | appends | sleep | note => exact ⟨[], .quiet id rfl rfl⟩
  | append _ batch k =>
      obtain ⟨added, adds, logs, failed⟩ := x.world.adds_append a batch
        (x.cursor.trace (.make a command fresh request) (.expect x.cursor.expected))
      rw [trace_metadata last] at adds
      refine ⟨added, adds.ascending, fun clear => World.isClear_append clear, ?_, ?_, adds, ?_⟩
      · exact (logs a).trans (if_pos rfl)
      · cases h : (x.append (.make a command fresh request) batch).1 <;> rfl
      · intro clear
        cases h : (x.append (.make a command fresh request) batch).1 with
        | ok r => exact False.elim
        | error e => exact fun _ => failed clear e h
  | appendWith _ batch o k =>
      obtain ⟨added, adds, logs, failed⟩ := x.world.adds_append a batch
        (x.cursor.trace (.make a command fresh request) o)
      rw [trace_metadata last] at adds
      refine ⟨added, adds.ascending, fun clear => World.isClear_append clear, ?_, ?_, adds, ?_⟩
      · exact (logs a).trans (if_pos rfl)
      · cases h : (x.appendWith (.make a command fresh request) batch o).1 <;> rfl
      · intro clear
        cases h : (x.appendWith (.make a command fresh request) batch o).1 with
        | ok r => exact False.elim
        | error e => exact fun _ => failed clear e h

theorem continues_of_meanwhile (a : AggregateId) (id : String) (request : Option String)
    (account : List Entry) (h : Meanwhile x d y) :
    ∃ added, Continues a id request account x d y added := by
  cases h with
  | append b batch o =>
      obtain ⟨added, adds, logs, _⟩ := x.world.adds_commit b batch o
      have link (clear : x.world.link.IsClear) : (x.world.commit b batch o).2.link.IsClear := by
        rw [World.link_commit]
        exact clear
      by_cases same : b = a
      · subst same
        exact ⟨added, adds.ascending, link, (logs b).trans (if_pos rfl), rfl,
          ⟨fun _ => adds, fun other => absurd rfl other⟩, fun _ failed => failed.elim⟩
      · have log : (x.world.commit b batch o).2.log a = x.world.log a ++ [] := by
          rw [logs, if_neg same, List.append_nil]
        exact ⟨[], ascending_nil _, link, log, rfl,
          ⟨fun equal => absurd equal same, fun _ => rfl⟩, fun _ failed => failed.elim⟩
  | other v quiet link => exact ⟨[], .quiet link (congrFun quiet a) rfl⟩

theorem continues_of_does {account : List Entry}
    (last : x.cursor.last = (account.filterMap fun e => e.step.revision?).getLast?)
    (h : Does (.make a command fresh request) x d y) :
    ∃ added, Continues a (CommandEnv.make a command fresh request).commandId request account
      x d y added := by
  cases h with
  | own h => exact continues_of_own last h
  | again h =>
      obtain ⟨added, step⟩ := continues_of_own last h
      exact ⟨added, { step with }⟩
  | meanwhile h => exact continues_of_meanwhile a _ request account h

/-- Along every course there is an account of what was done. -/
theorem exists_account {program : Program ε} {head : Revision} {w : World}
    (ordered : Ordered (w.log a)) {steps : List StoreStep}
    (course : Course (.make a command fresh request) ⟨program, .atHead head, w⟩ steps x) :
    ∃ account : List Entry, account.map Entry.step = steps ∧
      Accounts a (CommandEnv.make a command fresh request).commandId request w.link.IsClear
        (w.log a) account x := by
  induction course with
  | start =>
      exact ⟨[], rfl, ordered, id, (List.append_nil _).symm, rfl, by simp, by simp⟩
  | step _ h ih =>
      obtain ⟨account, rfl, accounts⟩ := ih
      obtain ⟨added, step⟩ := continues_of_does accounts.last h
      exact ⟨account ++ [⟨_, added⟩], List.map_append, accounts.next step⟩

end Execution

namespace Entry

/-- The entry of an append of the handler. -/
def IsAppend (e : Entry) : Prop :=
  match e.step with
  | .own _ _ | .free _ _ _ => True
  | .nothing | .foreign _ _ _ _ => False

end Entry

/-- An append of the handler leaves the ids of its events open. -/
def StoreStep.IsPlain : StoreStep → Prop
  | .free _ o _ => o.correlation = none ∧ o.causation = none
  | .nothing | .own _ _ | .foreign _ _ _ _ => True

/-- From event to event over what caused it, up to a cause that is no event of the log. -/
inductive LeadsBack (log : List RecordedEvent) : RecordedEvent → List RecordedEvent → String → Prop
  | origin {e : RecordedEvent} {cause : String} (caused : e.metadata.causation = some cause)
      (foreign : ∀ f ∈ log, f.revision.text ≠ cause) : LeadsBack log e [] cause
  | event {e f : RecordedEvent} {path : List RecordedEvent} {cause : String}
      (caused : e.metadata.causation = some f.revision.text) (there : f ∈ log)
      (rest : LeadsBack log f path cause) : LeadsBack log e (f :: path) cause

namespace LeadsBack
variable {log path : List RecordedEvent} {e f : RecordedEvent} {cause origin : String}

theorem iff_of_origin (caused : e.metadata.causation = some origin)
    (foreign : ∀ f ∈ log, f.revision.text ≠ origin) :
    LeadsBack log e path cause ↔ path = [] ∧ cause = origin := by
  constructor
  · intro leads
    cases leads with
    | origin caused' => exact ⟨rfl, Option.some.inj (caused'.symm.trans caused)⟩
    | event caused' there =>
        exact absurd (Option.some.inj (caused'.symm.trans caused)) (foreign _ there)
  · rintro ⟨rfl, rfl⟩
    exact .origin caused foreign

theorem iff_of_event (ordered : Ordered log) (caused : e.metadata.causation = some f.revision.text)
    (there : f ∈ log) :
    LeadsBack log e path cause ↔ ∃ rest, path = f :: rest ∧ LeadsBack log f rest cause := by
  constructor
  · intro leads
    cases leads with
    | origin caused' foreign =>
        exact absurd (Option.some.inj (caused.symm.trans caused')) (foreign f there)
    | event caused' there' rest =>
        have same := Revision.text_injective (Option.some.inj (caused.symm.trans caused'))
        obtain rfl := ordered.eq_of_revision_eq there there' same
        exact ⟨_, rfl, rest⟩
  · rintro ⟨rest, rfl, leads⟩
    exact .event caused there leads

end LeadsBack

namespace Entry
variable {a : AggregateId} {id : String} {request : Option String} {log : List RecordedEvent}
  {before account : List Entry} {e : Entry} {f : RecordedEvent}

/-- The last event of a successful batch has the revision that was returned. -/
theorem last?_revision (h : e.Tells a id request log before) :
    e.last?.map RecordedEvent.revision = e.step.revision? := by
  have success {batch : List DomainEvent} {m : Metadata} {r : Revision}
      (adds : Adds log batch m (.ok r) e.added) :
      e.added.getLast?.map RecordedEvent.revision = some r := by
    obtain ⟨some, head⟩ := adds.success r rfl
    rw [← head, headRevision, List.getLast?_eq_getLast_of_ne_nil some]
    rfl
  obtain ⟨step, added⟩ := e
  cases step with
  | nothing | foreign => rfl
  | own batch answer | free batch o answer =>
      cases answer with
      | ok r => exact success h
      | error e => rfl

theorem mem_of_last? (h : e.last? = some f) : f ∈ e.added := by
  obtain ⟨r, _, last⟩ := Option.bind_eq_some_iff.1 h
  exact List.mem_of_getLast? last

theorem isAppend_of_last? (h : e.last? = some f) : e.IsAppend := by
  obtain ⟨r, revision, _⟩ := Option.bind_eq_some_iff.1 h
  rw [IsAppend]
  cases step : e.step with
  | own | free => trivial
  | nothing | foreign =>
      rw [step] at revision
      cases revision

/-- Without ids of their own, the events of an append name what led to it. -/
theorem causation_eq (h : e.Tells a id request log before) (append : e.IsAppend)
    (plain : e.step.IsPlain) (hf : f ∈ e.added) :
    f.metadata.causation = some (cause id before) := by
  obtain ⟨step, added⟩ := e
  cases step with
  | nothing | foreign => exact append.elim
  | own batch answer => rw [Adds.metadata h f hf]; rfl
  | free batch o answer =>
      rw [Adds.metadata h f hf, ids, plain.2]
      rfl

end Entry

theorem CommandEnv.size_commandId (a : AggregateId) (command : String) (fresh : Ulid)
    (request : Option String) :
    27 ≤ (CommandEnv.make a command fresh request).commandId.utf8ByteSize := by
  change 27 ≤ (command ++ ":" ++ fresh.text).utf8ByteSize
  rw [String.utf8ByteSize_append, String.utf8ByteSize_append, fresh.utf8ByteSize_text]
  change 27 ≤ command.utf8ByteSize + 1 + 26
  omega

/-- The id of a command is longer than the text of any revision. -/
theorem Revision.text_ne_commandId (r : Revision) (a : AggregateId) (command : String)
    (fresh : Ulid) (request : Option String) :
    r.text ≠ (CommandEnv.make a command fresh request).commandId := by
  intro same
  have long := CommandEnv.size_commandId a command fresh request
  rw [← same, text, Ulid.utf8ByteSize_text, Ulid.textLength] at long
  omega

namespace Execution
variable {ε : Type} {a : AggregateId} {id : String} {request : Option String} {clear : Prop}
  {begun : List RecordedEvent} {before after account : List Entry} {e : Entry} {f : RecordedEvent}
  {x : Execution ε}

namespace Accounts

theorem front (h : Accounts a id request clear begun account x) (he : e ∈ account) :
    ∃ log before, e.Tells a id request log before := by
  obtain ⟨before, after, split⟩ := List.append_of_mem he
  exact ⟨_, _, h.tells before e after split⟩

/-- The revisions that were returned are those of the last events of the batches. -/
theorem revisions_eq (h : Accounts a id request clear begun account x)
    (split : account = before ++ after) :
    before.filterMap (fun e => e.step.revision?) =
      (Entry.lasts before).map RecordedEvent.revision := by
  rw [Entry.lasts, List.map_filterMap]
  refine List.filterMap_congr fun e he => ?_
  obtain ⟨log, front, tells⟩ := h.front (split ▸ List.mem_append_left after he)
  exact (Entry.last?_revision tells).symm

theorem mem_log (h : Accounts a id request clear begun account x) (he : e ∈ account)
    (hf : f ∈ e.added) : f ∈ x.world.log a := by
  rw [h.log]
  exact List.mem_append_right _ (List.mem_flatten_of_mem (List.mem_map_of_mem he) hf)

theorem causation_eq (h : Accounts a id request clear begun account x)
    (plain : ∀ e ∈ account, e.step.IsPlain) (split : account = before ++ e :: after)
    (append : e.IsAppend) (hf : f ∈ e.added) :
    f.metadata.causation = some (match (Entry.lasts before).getLast? with
      | some g => g.revision.text
      | none => id) := by
  rw [Entry.causation_eq (h.tells before e after split) append (plain e (by simp [split])) hf,
    Entry.cause, h.revisions_eq split, List.getLast?_map]
  cases (Entry.lasts before).getLast? <;> rfl

/-- Where no append chooses ids of its own, the causes lead from each event of an append over the
last events of the batches before it to the command. -/
theorem leadsBack_iff (h : Accounts a id request clear begun account x)
    (plain : ∀ e ∈ account, e.step.IsPlain) (foreign : ∀ r : Revision, r.text ≠ id)
    (split : account = before ++ e :: after) (append : e.IsAppend) (hf : f ∈ e.added)
    {path : List RecordedEvent} {origin : String} :
    LeadsBack (x.world.log a) f path origin ↔
      path = (Entry.lasts before).reverse ∧ origin = id := by
  have caused := h.causation_eq plain split append hf
  generalize visited : (Entry.lasts before).reverse = events
  induction events generalizing before e after f path with
  | nil =>
      rw [List.reverse_eq_nil_iff.1 visited] at caused
      exact LeadsBack.iff_of_origin caused fun g _ => foreign g.revision
  | cons g rest ih =>
      have ends : Entry.lasts before = rest.reverse ++ [g] := by
        rw [← List.reverse_reverse (Entry.lasts before), visited, List.reverse_cons]
      rw [ends, List.getLast?_concat] at caused
      obtain ⟨early, late, rfl, hearly, hlate⟩ := List.filterMap_eq_append_iff.1 ends
      obtain ⟨failed, e', more, rfl, hfailed, last, _⟩ := List.filterMap_eq_cons_iff.1 hlate
      have split' : account = (early ++ failed) ++ e' :: (more ++ e :: after) := by simp [split]
      have visited' : (Entry.lasts (early ++ failed)).reverse = rest := by
        rw [Entry.lasts, List.filterMap_append, hearly, List.filterMap_eq_nil_iff.2 hfailed,
          List.append_nil, List.reverse_reverse]
      have hg := Entry.mem_of_last? last
      have append' := Entry.isAppend_of_last? last
      have there : g ∈ x.world.log a := h.mem_log (by simp [split']) hg
      rw [LeadsBack.iff_of_event h.ordered caused there]
      simp only [ih split' append' hg (h.causation_eq plain split' append' hg) visited']
      constructor
      · rintro ⟨_, rfl, rfl, rfl⟩
        exact ⟨rfl, rfl⟩
      · rintro ⟨rfl, rfl⟩
        exact ⟨rest, rfl, rfl, rfl⟩

end Accounts

/-- A command is carried out by the program of its handler, whose calls are made directly or made
again where they fail. Whatever others do between two steps of its activity, the appends that it has
made are those of a course of the program, with the same answers, in the same world, and the next
one that it makes is the program's. On all courses of the program what the handler appends, at its
cursor or with a choice of its own, carries the ids that the append has chosen; where it has chosen
none, the correlation is that of the request or else the command, and the cause is the last
successful append of the handler before, or else the command. All that has come to the log is
accounted for. Where no append chooses ids, the causes lead from each event over the last event of
each successful batch before it, in reverse order, to the command. -/
theorem causes_lead_back_to_the_command {S : Type} (d : Description S ε) (q : CommandRequest S)
    (program : Option (Entity S) → Program ε) (found : Option (Entity S)) (head : Revision)
    (fresh : Ulid) {s : StoreAccess} (access : s = .direct ∨ ∃ p, s = .retrying p .direct)
    (w : World) (empty : w.store.logs = ∅) (history : List StoreOp) :
    let a := q.target.aggregate
    let env := CommandEnv.make a q.command fresh q.correlation
    (d.execute s q program found head = .draw fun fresh =>
      ((program found).run s (.make a q.command fresh q.correlation) (.atHead head)).bind
        (d.answer s a found)) ∧
    (∀ ts act u,
      ((program found).run s env (.atHead head)).Among World.Alongside (w.after history) ts act u →
      ∃ steps x, Course env ⟨program found, .atHead head, w.after history⟩ steps x ∧
        steps.filterMap (StoreStep.call? a) = ts.map Attempt.call ∧
        act.AppendsFirst u a (x.program.nextAppend? env x.cursor) ∧ x.world = u) ∧
    ∀ steps x, Course env ⟨program found, .atHead head, w.after history⟩ steps x →
      ∃ account : List Entry, account.map Entry.step = steps ∧
        x.world.log a = (w.after history).log a ++ (account.map Entry.added).flatten ∧
        (∀ before e after, account = before ++ e :: after →
          e.Tells a env.commandId q.correlation
            ((w.after history).log a ++ (before.map Entry.added).flatten) before) ∧
        (w.link.IsClear → ∀ e ∈ account, e.step.IsFailedAppend → e.added = []) ∧
        ((∀ d ∈ steps, d.IsPlain) → ∀ before e after, account = before ++ e :: after →
          e.IsAppend → ∀ f ∈ e.added, ∀ path origin, LeadsBack (x.world.log a) f path origin ↔
            path = (Entry.lasts before).reverse ∧ origin = env.commandId) := by
  intro a env
  refine ⟨rfl, fun ts act u among => ?_, fun steps x course => ?_⟩
  · exact course_of_among (x := ⟨program found, .atHead head, w.after history⟩) access among
  · obtain ⟨account, same, accounts⟩ := exists_account (ordered_of_empty empty history a) course
    rw [World.link_after] at accounts
    refine ⟨account, same, accounts.log, accounts.tells, accounts.failed, ?_⟩
    intro plain before e after split append f hf path origin
    refine accounts.leadsBack_iff (fun e he => plain e.step ?_)
      (fun r => r.text_ne_commandId a q.command fresh q.correlation) split append hf
    rw [← same]
    exact List.mem_map_of_mem he

/-- A handler appends two events, fails as somebody else has written, and then appends whatever the
head is. The activity of its program can come to its end so that the cause of its last event is the
second one, and the cause of that is the command. -/
theorem causes_of_a_third_append :
    let w : World := { readings := fun n => ⟨n, 0⟩, shares := fun _ => 0 }
    let a : AggregateId := ⟨"account", "1"⟩
    let e : DomainEvent := ⟨"noted", .null⟩
    let env : CommandEnv := .make a "note" .nil (some "request")
    let program : Program String :=
      .append [e, e] fun _ => .append [e] fun _ => .appendWith [e] {} fun _ => .done
    ∃ ts c v f g other h,
      (program.run .direct env (.atHead .initial)).Among World.Alongside w ts
        (.done (.ok (), c)) v ∧
      v.log a = [f, g, other, h] ∧ h.metadata.correlation = some "request" ∧
      ∀ path origin, LeadsBack (v.log a) h path origin ↔ path = [g] ∧ origin = env.commandId := by
  intro w a e env program
  let last : Program String := .appendWith [e] {} fun _ => .done
  let x : Execution String := ⟨program, .atHead .initial, w⟩
  let between : Execution String :=
    ⟨.append [e] fun _ => last, x.cursor.after (x.append env [e, e]).1, (x.append env [e, e]).2⟩
  let y := { between with world := (between.world.commit a [e] {}).2 }
  let z : Execution String := ⟨last, y.cursor.after (y.append env [e]).1, (y.append env [e]).2⟩
  have first : Own env x (.own [e, e] (x.append env [e, e]).1) between :=
    .append x [e, e] (fun _ => .append [e] fun _ => last) rfl
  have second : Meanwhile between (.foreign a [e] {} (between.world.commit a [e] {}).1) y :=
    .append between a [e] {}
  have third : Own env y (.own [e] (y.append env [e]).1) z :=
    .append y [e] (fun _ => last) rfl
  have fourth := @Own.appendWith String env z [e] {} (fun _ => .done) rfl
  have run := (((Run.start.own first).meanwhile second).own third).own fourth
  obtain ⟨ts, among, _⟩ := among_of_run run
  rw [activity_done] at among
  dsimp only at among
  let d : Description Unit String := .ofType "account"
  let q : CommandRequest Unit := ⟨"note", .id a, .null, some "request"⟩
  obtain ⟨_, _, laws⟩ :=
    causes_lead_back_to_the_command d q (fun _ => program) none .initial .nil (.inl rfl) w rfl []
  obtain ⟨account, steps, log, tells, failed, leads⟩ := laws _ _ run.course
  obtain ⟨r, hr⟩ := exists_ok (x := (x.append env [e, e]).1) (by decide +kernel)
  obtain ⟨s, hs⟩ := exists_ok (x := (between.world.commit a [e] {}).1) (by decide +kernel)
  obtain ⟨t, ht⟩ := exists_error (x := (y.append env [e]).1) (by decide +kernel)
  obtain ⟨u, hu⟩ := exists_ok (x := (z.appendWith env [e] {}).1) (by decide +kernel)
  rw [hr, hs, ht, hu] at steps leads
  simp only [List.nil_append, List.cons_append, List.map_eq_cons_iff, List.map_eq_nil_iff] at steps
  obtain ⟨⟨_, two⟩, _, rfl, rfl, ⟨_, one⟩, _, rfl, rfl, ⟨_, none⟩, _, rfl, rfl, ⟨_, more⟩, _, rfl,
    rfl, rfl⟩ := steps
  have clear : w.link.IsClear := ⟨rfl, rfl, rfl⟩
  have hthird : none = [] := failed clear ⟨.own [e] (.error t), none⟩ (by simp) (by
    rw [StoreStep.IsFailedAppend]
    trivial)
  have hfirst := tells [] _ _ rfl
  have hsecond := (tells [_] _ _ rfl).1 rfl
  have hfourth := tells [_, _, _] _ _ rfl
  obtain ⟨f, _, rfl, _, rest⟩ := List.map_eq_cons_iff.1 hfirst.map_eq
  obtain ⟨g, rfl, _⟩ := List.map_eq_singleton_iff.1 rest
  obtain ⟨other, rfl, _⟩ := List.map_eq_singleton_iff.1 hsecond.map_eq
  obtain ⟨h, rfl, _⟩ := List.map_eq_singleton_iff.1 hfourth.map_eq
  subst hthird
  have empty : (w.after []).log a = [] := rfl
  rw [show q.target.aggregate = a from rfl] at log leads
  simp only [empty, List.map_cons, List.map_nil, List.flatten_cons, List.flatten_nil,
    List.nil_append, List.cons_append] at log
  refine ⟨ts, _, (z.appendWith env [e] {}).2, f, g, other, h, among, log, ?_, fun path origin => ?_⟩
  · rw [hfourth.metadata h (List.mem_singleton_self h)]
    rfl
  · have plain : ∀ d ∈ [StoreStep.own [e, e] (.ok r), .foreign a [e] {} (.ok s),
        .own [e] (.error t), .free [e] {} (.ok u)], d.IsPlain := by simp [StoreStep.IsPlain]
    let before : List Entry := [⟨.own [e, e] (.ok r), [f, g]⟩, ⟨.foreign a [e] {} (.ok s), [other]⟩,
      ⟨.own [e] (.error t), []⟩]
    have lasts : Entry.lasts before = [g] := rfl
    have back := leads plain before _ [] rfl trivial h (List.mem_singleton_self h) path origin
    dsimp only at back
    rwa [lasts, List.reverse_singleton] at back

end Execution
end EventSourcing
