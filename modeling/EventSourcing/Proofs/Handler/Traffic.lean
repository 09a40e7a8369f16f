import EventSourcing.Proofs.Exchanges
import EventSourcing.Proofs.Handler.Execution

/-!
What a dispatch asks of the store.
Whatever is wrong with the request itself is found before the store is asked, in a fixed order. Then
an id is looked up by one load, the handler makes its appends, and one more load reads what they
have left, if there were any that went through. Nothing here depends on what the store answers, nor
on the access through which it is asked.
-/
namespace EventSourcing

/-- The exchange is an append to a log. -/
def Exchange.AppendsTo (a : AggregateId) : Exchange → Prop
  | .append b _ _ _ => b = a
  | .load _ _ => False

namespace Folding
variable {S : Type} (f : Folding S) (a : AggregateId)

/-- The replay that is made of the answer to a load. -/
def replayOf : Except StoreError (List RecordedEvent) → Except EntityError (Replay S)
  | .error e => .error (.store e)
  | .ok log => (f.replay a log).mapError .deserialization

/-- The entity that is made of the answer to a load. -/
def entityOf (answer : Except StoreError (List RecordedEvent)) : Except EntityError (Entity S) :=
  (f.replayOf a answer).bind fun r =>
    match r.entity? with
    | some e => .ok e
    | none => .error (.notAvailable a)

variable {f a} {xs : List Exchange}

/-- An aggregate of the right type is looked up by one load. -/
theorem plays_loadReplay (own : a.type = f.type) {o : Option (Except EntityError (Replay S))} :
    (f.loadReplay .direct a).Plays xs o ↔
      ∃ answer, xs = [.load a answer] ∧ o = some (f.replayOf a answer) := by
  rw [loadReplay, if_neg (not_not_intro own)]
  constructor
  · intro h
    cases h with
    | load _ answer rest => cases answer <;> cases rest <;> exact ⟨_, rfl, rfl⟩
  · rintro ⟨answer, rfl, rfl⟩
    refine .load a answer ?_
    cases answer <;> exact .done _

theorem plays_load (own : a.type = f.type) {o : Option (Except EntityError (Entity S))} :
    (f.load .direct a).Plays xs o ↔
      ∃ answer, xs = [.load a answer] ∧ o = some (f.entityOf a answer) := by
  have made : f.load .direct a = (f.loadReplay .direct a).bind fun r => .done (r.bind fun r =>
      match r.entity? with
      | some e => .ok e
      | none => .error (.notAvailable a)) := by
    rw [load]
    congr 1
    funext r
    cases r with
    | error e => rfl
    | ok r => cases h : r.entity? <;> simp only [Except.bind, h]
  rw [made, Activity.plays_map_iff]
  constructor
  · rintro ⟨o', played, rfl⟩
    obtain ⟨answer, rfl, rfl⟩ := (plays_loadReplay own).1 played
    exact ⟨answer, rfl, rfl⟩
  · rintro ⟨answer, rfl, rfl⟩
    exact ⟨_, (plays_loadReplay own).2 ⟨answer, rfl, rfl⟩, rfl⟩

theorem load_foreign (foreign : a.type ≠ f.type) :
    f.load .direct a = .done (.error (.typeMismatch f.type a.type)) := by
  rw [load, loadReplay, if_pos foreign]
  rfl

section Through
variable (f a) (s : StoreAccess)

theorem loadReplay_through : (f.loadReplay .direct a).through s = f.loadReplay s a := by
  rw [loadReplay, loadReplay]
  split
  · rfl
  · rw [StoreAccess.direct, Activity.bind, Activity.through]
    congr 1
    funext r
    cases r <;> rfl

theorem load_through : (f.load .direct a).through s = f.load s a := by
  rw [load, Activity.through_bind, loadReplay_through, load]
  congr 1
  funext r
  cases r with
  | error e => rfl
  | ok r =>
      dsimp only
      cases r.entity? <;> rfl

end Through

end Folding

namespace Program
variable {ε : Type} {env : CommandEnv}

/-- A handler only appends to its aggregate, and the appends that go through are counted. -/
theorem plays_appends (p : Program ε) {c : AppendCursor} {xs : List Exchange}
    {o : Option (Except (CommandError ε) Unit × AppendCursor)}
    (h : (p.run .direct env c).Plays xs o) :
    (∀ x ∈ xs, x.AppendsTo env.aggregate) ∧
      ∀ r c', o = some (r, c') → c'.appends = c.appends + xs.countP Exchange.appended := by
  have appended {c : AppendCursor} {xs : List Exchange} {batch : List DomainEvent}
      {options : AppendOptions} {answer : Except StoreError Revision}
      (ih : (∀ x ∈ xs, x.AppendsTo env.aggregate) ∧ ∀ r c', o = some (r, c') →
        c'.appends = (c.after answer).appends + xs.countP Exchange.appended) :
      (∀ x ∈ Exchange.append env.aggregate batch options answer :: xs,
        x.AppendsTo env.aggregate) ∧ ∀ r c', o = some (r, c') →
        c'.appends = c.appends + List.countP Exchange.appended
          (.append env.aggregate batch options answer :: xs) := by
    refine ⟨List.forall_mem_cons.2 ⟨rfl, ih.1⟩, fun r c' ho => ?_⟩
    rw [ih.2 r c' ho, List.countP_cons]
    cases answer with
    | ok s => simp only [AppendCursor.after, AppendCursor.moved, Exchange.appended, if_true]; omega
    | error e => rfl
  induction p generalizing c xs with
  | done | stop e =>
      cases h
      refine ⟨List.forall_mem_nil _, fun r c' ho => ?_⟩
      cases ho
      rfl
  | panic =>
      cases h
      refine ⟨List.forall_mem_nil _, fun r c' ho => ?_⟩
      cases ho
  | env k ih => exact ih env h
  | appends k ih => exact ih c.appends h
  | append batch k ih =>
      rw [run_append_direct] at h
      cases h with
      | append _ _ _ answer rest => exact appended (ih answer rest)
  | appendWith batch options k ih =>
      rw [run_appendWith_direct] at h
      cases h with
      | append _ _ _ answer rest => exact appended (ih answer rest)
  | sleep ms k ih =>
      cases h with
      | sleep _ rest => exact ih rest
  | note n k ih =>
      cases h with
      | note _ rest => exact ih rest

theorem run_through (s : StoreAccess) (p : Program ε) (c : AppendCursor) :
    (p.run .direct env c).through s = p.run s env c := by
  induction p generalizing c with
  | done | stop e | panic => rfl
  | env k ih => exact ih env c
  | appends k ih => exact ih c.appends c
  | append batch k ih =>
      rw [run_append_direct, Activity.through, run_append]
      congr 1
      funext r
      exact ih r (c.after r)
  | appendWith batch o k ih =>
      rw [run_appendWith_direct, Activity.through, run_appendWith]
      congr 1
      funext r
      exact ih r (c.after r)
  | sleep ms k ih => exact congrArg (Activity.sleep ms) (ih c)
  | note n k ih => exact congrArg (Activity.note n) (ih c)

end Program
namespace Command
variable {S ε : Type}

/-- What the handler of a command does when it is started on what was found. One that needs state is
not started without. -/
inductive Starts (c : Command S ε) (payload : Json) : Option (Entity S) → Program ε → Prop where
  | existing {read : Decoder (Entity S → Program ε)} {program : Entity S → Program ε}
      (e : Entity S) (h : c.handler = .existing read) (decoded : read payload = .ok program) :
      Starts c payload (some e) (program e)
  | creating {read : Decoder (Option (Entity S) → Program ε)}
      {program : Option (Entity S) → Program ε} (found : Option (Entity S))
      (h : c.handler = .creating read) (decoded : read payload = .ok program) :
      Starts c payload found (program found)

section Prepared
variable {c : Command S ε} {a : AggregateId} {payload : Json}
  {program : Option (Entity S) → Program ε} (prepared : c.prepare a payload = .ok program)
include prepared

/-- A handler is started unless it needs state and there is none. -/
theorem starts_or_plain (found : Option (Entity S)) :
    c.Starts payload found (program found) ∨ (c.creates = false ∧ found = none) := by
  rw [prepare] at prepared
  cases handler : c.handler with
  | creating read =>
      rw [handler] at prepared
      exact .inl (.creating found handler prepared)
  | existing read =>
      rw [handler] at prepared
      cases decoded : read payload with
      | error err =>
          simp only [decoded, Except.map] at prepared
          cases prepared
      | ok p =>
          simp only [decoded, Except.map] at prepared
          cases prepared
          cases found with
          | none =>
              refine .inr ⟨?_, rfl⟩
              rw [creates, handler]
          | some e => exact .inl (.existing e handler decoded)

theorem program_of_starts {found : Option (Entity S)} {p : Program ε}
    (h : c.Starts payload found p) : program found = p := by
  rw [prepare] at prepared
  cases h with
  | existing e handler decoded =>
      rw [handler] at prepared
      simp only [decoded, Except.map] at prepared
      cases prepared
      rfl
  | creating _ handler decoded =>
      rw [handler] at prepared
      simp only [decoded] at prepared
      cases prepared
      rfl

theorem program_of_plain (plain : c.creates = false) : program none = .stop (.notAvailable a) := by
  rw [prepare] at prepared
  cases handler : c.handler with
  | creating read =>
      rw [creates, handler] at plain
      cases plain
  | existing read =>
      rw [handler] at prepared
      cases decoded : read payload with
      | error err =>
          simp only [decoded, Except.map] at prepared
          cases prepared
      | ok p =>
          simp only [decoded, Except.map] at prepared
          cases prepared
          rfl

end Prepared
end Command

namespace Description
variable {S ε : Type}

/-- The request is for this command, and its payload stands for one. -/
structure Valid (d : Description S ε) (q : CommandRequest S) (c : Command S ε) : Prop where
  known : d.commands.get? q.command = some c
  accepted : c.schema.validate q.payload = .ok ()
  decoded : ∃ program, c.prepare q.target.aggregate q.payload = .ok program

/-- How a target is looked up: an id by one load, and an entity that was loaded before by none. The
type of such an entity is not looked at. -/
inductive LooksUp (d : Description S ε) :
    Target S → List Exchange → Option (Entity S) → Revision → Prop where
  | loaded (e : Entity S) : LooksUp d (.loaded e) [] (some e) e.head
  | id {a : AggregateId} {r : Replay S} (answer : Except StoreError (List RecordedEvent))
      (own : a.type = d.type) (h : d.replayOf a answer = .ok r) :
      LooksUp d (.id a) [.load a answer] r.entity? r.head

/-- How a dispatch ends after its handler, which has had these exchanges. There is one more load if
one of its appends went through and it ended well. This load is the first to refuse an entity of
another type that was loaded before, and it does so without asking the store. -/
inductive Concludes (d : Description S ε) (a : AggregateId) (found : Option (Entity S))
    (own : List Exchange) : Except (CommandError ε) Unit → List Exchange →
      Except (CommandError ε) (Entity S) → Prop where
  | failed (e : CommandError ε) : Concludes d a found own (.error e) [] (.error e)
  | unchanged {e : Entity S} (silent : ∀ x ∈ own, x.appended = false) (h : found = some e) :
      Concludes d a found own (.ok ()) [] (.ok e)
  | absent (silent : ∀ x ∈ own, x.appended = false) (h : found = none) :
      Concludes d a found own (.ok ()) [] (.error (.notAvailable a))
  | reloaded (appended : ∃ x ∈ own, x.appended = true) (type : a.type = d.type)
      (answer : Except StoreError (List RecordedEvent)) :
      Concludes d a found own (.ok ()) [.load a answer] ((d.entityOf a answer).mapError .ofEntity)
  | mistyped (appended : ∃ x ∈ own, x.appended = true) (foreign : a.type ≠ d.type) :
      Concludes d a found own (.ok ()) [] (.error (.typeMismatch d.type a.type))

/-- The exchanges of a dispatch with the store, and its answer; there is none where the handler
breaks down. The first cause of a failure in this order decides. -/
inductive Course (d : Description S ε) (q : CommandRequest S) :
    List Exchange → Option (Except (CommandError ε) (Entity S)) → Prop where
  | unknown (h : d.commands.get? q.command = none) :
      Course d q [] (some (.error (.handlerNotFound d.type q.command)))
  | refused {c : Command S ε} {v : ValidationError} (known : d.commands.get? q.command = some c)
      (h : c.schema.validate q.payload = .error v) : Course d q [] (some (.error (.validation v)))
  | undecodable {c : Command S ε} {e : DecodeError} (known : d.commands.get? q.command = some c)
      (accepted : c.schema.validate q.payload = .ok ())
      (h : c.prepare q.target.aggregate q.payload = .error e) :
      Course d q [] (some (.error (.validation (.ofDecode e))))
  | mistyped {c : Command S ε} {a : AggregateId} (valid : d.Valid q c) (id : q.target = .id a)
      (foreign : a.type ≠ d.type) : Course d q [] (some (.error (.typeMismatch d.type a.type)))
  | unread {c : Command S ε} {a : AggregateId} {e : EntityError} (valid : d.Valid q c)
      (id : q.target = .id a) (own : a.type = d.type)
      (answer : Except StoreError (List RecordedEvent)) (h : d.replayOf a answer = .error e) :
      Course d q [.load a answer] (some (.error (.ofEntity e)))
  | missing {c : Command S ε} {before : List Exchange} {head : Revision} (valid : d.Valid q c)
      (found : d.LooksUp q.target before none head) (plain : c.creates = false) :
      Course d q before (some (.error (.notAvailable q.target.aggregate)))
  | broken {c : Command S ε} {before own : List Exchange} {found : Option (Entity S)}
      {head : Revision} {p : Program ε} {fresh : Ulid} (valid : d.Valid q c)
      (looked : d.LooksUp q.target before found head) (started : c.Starts q.payload found p)
      (handled : (p.run .direct (.make q.target.aggregate q.command fresh q.correlation)
        (.atHead head)).Plays own none) (appends : ∀ x ∈ own, x.AppendsTo q.target.aggregate) :
      Course d q (before ++ own) none
  | handled {c : Command S ε} {before own after : List Exchange} {found : Option (Entity S)}
      {head : Revision} {p : Program ε} {fresh : Ulid} {r : Except (CommandError ε) Unit}
      {cursor : AppendCursor} {answer : Except (CommandError ε) (Entity S)} (valid : d.Valid q c)
      (looked : d.LooksUp q.target before found head) (started : c.Starts q.payload found p)
      (handled : (p.run .direct (.make q.target.aggregate q.command fresh q.correlation)
        (.atHead head)).Plays own (some (r, cursor)))
      (appends : ∀ x ∈ own, x.AppendsTo q.target.aggregate)
      (concluded : d.Concludes q.target.aggregate found own r after answer) :
      Course d q (before ++ (own ++ after)) (some answer)

section Dispatch
variable {d : Description S ε} {q : CommandRequest S} {xs : List Exchange}
  {o : Option (Except (CommandError ε) (Entity S))}

theorem prepare_cases (d : Description S ε) (q : CommandRequest S) :
    (d.commands.get? q.command = none ∧
      d.prepare q = .error (.handlerNotFound d.type q.command)) ∨
    (∃ c v, d.commands.get? q.command = some c ∧ c.schema.validate q.payload = .error v ∧
      d.prepare q = .error (.validation v)) ∨
    (∃ c e, d.commands.get? q.command = some c ∧ c.schema.validate q.payload = .ok () ∧
      c.prepare q.target.aggregate q.payload = .error e ∧
      d.prepare q = .error (.validation (.ofDecode e))) ∨
    ∃ c program, d.Valid q c ∧ c.prepare q.target.aggregate q.payload = .ok program ∧
      d.prepare q = .ok program := by
  rw [prepare]
  cases known : d.commands.get? q.command with
  | none => exact .inl ⟨rfl, rfl⟩
  | some c =>
      refine .inr ?_
      cases accepted : c.schema.validate q.payload with
      | error v => exact .inl ⟨c, v, rfl, accepted, by simp only [accepted]⟩
      | ok u =>
          refine .inr ?_
          cases decoded : c.prepare q.target.aggregate q.payload with
          | error e => exact .inl ⟨c, e, rfl, accepted, decoded, by simp only [accepted, decoded]⟩
          | ok program =>
              exact .inr ⟨c, program, ⟨known, accepted, program, decoded⟩, decoded,
                by simp only [accepted, decoded]⟩

theorem Valid.prepare_eq {c : Command S ε} (valid : d.Valid q c) :
    ∃ program, c.prepare q.target.aggregate q.payload = .ok program ∧
      d.prepare q = .ok program := by
  obtain ⟨program, decoded⟩ := valid.decoded
  refine ⟨program, decoded, ?_⟩
  simp only [prepare, valid.known, valid.accepted, decoded]

/-- Counting a dispatch takes no exchange. -/
theorem plays_dispatch_iff (s : StoreAccess) :
    (d.dispatch s q).Plays xs o ↔ (d.carryOut s q).Plays xs o := by
  have counted (r : Except (CommandError ε) (Entity S)) {ys : List Exchange} :
      (Activity.count (.dispatches q.command (outcomeOf r))
        (.count (.durations (outcomeOf r)) (.done r))).Plays ys o ↔ ys = [] ∧ o = some r := by
    constructor
    · intro h
      cases h with
      | count _ h =>
          cases h with
          | count _ h => exact Activity.plays_done_iff.1 h
    · intro h
      exact .count _ (.count _ (Activity.plays_done_iff.2 h))
  rw [dispatch, Activity.plays_bind_iff]
  constructor
  · rintro (⟨broken, rfl⟩ | ⟨r, before, after, rfl, first, rest⟩)
    · exact broken
    · obtain ⟨rfl, rfl⟩ := (counted r).1 rest
      rw [List.append_nil]
      exact first
  · intro h
    cases o with
    | none => exact .inl ⟨h, rfl⟩
    | some r => exact .inr ⟨r, xs, [], (List.append_nil xs).symm, h, (counted r).2 ⟨rfl, rfl⟩⟩

theorem plays_findTarget_id {a : AggregateId} (own : a.type = d.type)
    {o : Option (Except (CommandError ε) (Option (Entity S) × Revision))} :
    (d.findTarget .direct (.id a)).Plays xs o ↔ ∃ answer, xs = [.load a answer] ∧
      o = some (((d.replayOf a answer).mapError .ofEntity).map fun r => (r.entity?, r.head)) := by
  have made : d.findTarget .direct (.id a) = (d.loadReplay .direct a).bind fun r =>
      .done ((r.mapError .ofEntity).map fun r => (r.entity?, r.head)) := by
    rw [findTarget]
    congr 1
    funext r
    cases r <;> rfl
  rw [made, Activity.plays_map_iff]
  constructor
  · rintro ⟨o', played, rfl⟩
    obtain ⟨answer, rfl, rfl⟩ := (Folding.plays_loadReplay own).1 played
    exact ⟨answer, rfl, rfl⟩
  · rintro ⟨answer, rfl, rfl⟩
    exact ⟨_, (Folding.plays_loadReplay own).2 ⟨answer, rfl, rfl⟩, rfl⟩

theorem findTarget_foreign {a : AggregateId} (foreign : a.type ≠ d.type) :
    d.findTarget .direct (.id a) = .done (.error (.typeMismatch d.type a.type)) := by
  rw [findTarget, Folding.loadReplay, if_pos foreign]
  rfl

section Answer
variable {a : AggregateId} {found : Option (Entity S)} {own : List Exchange} {c : AppendCursor}

theorem plays_answer_failed {e : CommandError ε} :
    (d.answer .direct a found (.error e, c)).Plays xs o ↔
      ∃ answer, o = some answer ∧ d.Concludes a found own (.error e) xs answer := by
  rw [answer, Activity.plays_done_iff]
  constructor
  · rintro ⟨rfl, rfl⟩
    exact ⟨_, rfl, .failed e⟩
  · rintro ⟨_, rfl, concluded⟩
    cases concluded
    exact ⟨rfl, rfl⟩

theorem plays_answer_silent (counted : c.appends = 0) (silent : ∀ x ∈ own, x.appended = false) :
    (d.answer .direct a found (.ok (), c)).Plays xs o ↔
      ∃ answer, o = some answer ∧ d.Concludes a found own (.ok ()) xs answer := by
  have never : ¬ ∃ x ∈ own, x.appended = true := fun ⟨x, hx, appended⟩ =>
    Bool.false_ne_true ((silent x hx).symm.trans appended)
  have answered : d.answer .direct a found (.ok (), c) =
      .done (found.elim (.error (.notAvailable a)) .ok) := by
    rw [answer.eq_def]
    dsimp only
    rw [if_pos counted]
    cases found <;> rfl
  rw [answered, Activity.plays_done_iff]
  constructor
  · rintro ⟨rfl, rfl⟩
    cases found with
    | some e => exact ⟨_, rfl, .unchanged silent rfl⟩
    | none => exact ⟨_, rfl, .absent silent rfl⟩
  · rintro ⟨_, rfl, concluded⟩
    cases concluded with
    | unchanged _ h | absent _ h =>
        cases h
        exact ⟨rfl, rfl⟩
    | reloaded appended | mistyped appended => exact absurd appended never

theorem plays_answer_appended (counted : c.appends ≠ 0) (appended : ∃ x ∈ own, x.appended = true) :
    (d.answer .direct a found (.ok (), c)).Plays xs o ↔
      ∃ answer, o = some answer ∧ d.Concludes a found own (.ok ()) xs answer := by
  have spoke : ¬ ∀ x ∈ own, x.appended = false := by
    obtain ⟨x, hx, appended⟩ := appended
    exact fun silent => Bool.false_ne_true ((silent x hx).symm.trans appended)
  have answered : d.answer .direct a found (.ok (), c) =
      (d.load .direct a).bind fun r => .done (r.mapError .ofEntity) := by
    rw [answer.eq_def]
    dsimp only
    rw [if_neg counted]
  rw [answered, Activity.plays_map_iff]
  constructor
  · rintro ⟨o', played, rfl⟩
    by_cases type : a.type = d.type
    · obtain ⟨answer, rfl, rfl⟩ := (Folding.plays_load type).1 played
      exact ⟨_, rfl, .reloaded appended type answer⟩
    · rw [Folding.load_foreign type] at played
      obtain ⟨rfl, rfl⟩ := Activity.plays_done_iff.1 played
      exact ⟨_, rfl, .mistyped appended type⟩
  · rintro ⟨_, rfl, concluded⟩
    cases concluded with
    | unchanged silent | absent silent => exact absurd silent spoke
    | reloaded _ type answer => exact ⟨_, (Folding.plays_load type).2 ⟨answer, rfl, rfl⟩, rfl⟩
    | mistyped _ foreign =>
        rw [Folding.load_foreign foreign]
        exact ⟨_, .done _, rfl⟩

/-- What follows a handler, by how it ended and whether one of its appends went through. -/
theorem plays_answer_iff {r : Except (CommandError ε) Unit}
    (counted : c.appends = own.countP Exchange.appended) :
    (d.answer .direct a found (r, c)).Plays xs o ↔
      ∃ answer, o = some answer ∧ d.Concludes a found own r xs answer := by
  cases r with
  | error e => exact plays_answer_failed
  | ok u =>
      by_cases none : c.appends = 0
      · refine plays_answer_silent none fun x hx => Bool.eq_false_iff.2 ?_
        exact List.countP_eq_zero.1 (counted.symm.trans none) x hx
      · refine plays_answer_appended none (List.countP_pos_iff.1 ?_)
        rw [← counted]
        exact Nat.pos_of_ne_zero none

end Answer

theorem course_of_execute {c : Command S ε} {program : Option (Entity S) → Program ε}
    {before : List Exchange} {found : Option (Entity S)} {head : Revision} (valid : d.Valid q c)
    (prepared : c.prepare q.target.aggregate q.payload = .ok program)
    (looked : d.LooksUp q.target before found head)
    (h : (d.execute .direct q program found head).Plays xs o) : d.Course q (before ++ xs) o := by
  cases h with
  | draw fresh h =>
      obtain started | ⟨plain, rfl⟩ := Command.starts_or_plain prepared found
      · obtain ⟨broken, rfl⟩ | ⟨⟨r, cursor⟩, own, after, rfl, first, rest⟩ := h.split
        · exact .broken valid looked started broken (Program.plays_appends _ broken).1
        · obtain ⟨appends, counted⟩ := Program.plays_appends _ first
          have counted := (counted r cursor rfl).trans (Nat.zero_add _)
          obtain ⟨answer, rfl, concluded⟩ := (plays_answer_iff counted).1 rest
          exact .handled valid looked started first appends concluded
      · rw [Command.program_of_plain prepared plain] at h
        obtain ⟨rfl, rfl⟩ := Activity.plays_done_iff.1 h
        rw [List.append_nil]
        exact .missing valid looked plain

theorem course_of_id {c : Command S ε} {program : Option (Entity S) → Program ε} {a : AggregateId}
    (valid : d.Valid q c) (read : c.prepare q.target.aggregate q.payload = .ok program)
    (prepared : d.prepare q = .ok program) (target : q.target = .id a)
    (h : (d.carryOut .direct q).Plays xs o) : d.Course q xs o := by
  rw [carryOut, prepared, target] at h
  by_cases own : a.type = d.type
  · obtain ⟨broken, _⟩ | ⟨found, before, after, rfl, first, rest⟩ := h.split
    · obtain ⟨_, _, never⟩ := (plays_findTarget_id own).1 broken
      cases never
    · obtain ⟨answer, rfl, same⟩ := (plays_findTarget_id own).1 first
      cases same
      cases replayed : d.replayOf a answer with
      | error e =>
          rw [replayed] at rest
          obtain ⟨rfl, rfl⟩ := Activity.plays_done_iff.1 rest
          exact .unread valid target own answer replayed
      | ok r =>
          rw [replayed] at rest
          have looked : d.LooksUp q.target [.load a answer] r.entity? r.head := by
            rw [target]
            exact .id answer own replayed
          exact course_of_execute valid read looked rest
  · rw [findTarget_foreign own] at h
    obtain ⟨rfl, rfl⟩ := Activity.plays_done_iff.1 h
    exact .mistyped valid target own

/-- Every dispatch keeps to its course. -/
theorem course_of_plays (h : (d.carryOut .direct q).Plays xs o) : d.Course q xs o := by
  obtain ⟨unknown, prepared⟩ | ⟨c, v, known, refused, prepared⟩ |
    ⟨c, e, known, accepted, undecodable, prepared⟩ | ⟨c, program, valid, read, prepared⟩ :=
      d.prepare_cases q
  · rw [carryOut, prepared] at h
    obtain ⟨rfl, rfl⟩ := Activity.plays_done_iff.1 h
    exact .unknown unknown
  · rw [carryOut, prepared] at h
    obtain ⟨rfl, rfl⟩ := Activity.plays_done_iff.1 h
    exact .refused known refused
  · rw [carryOut, prepared] at h
    obtain ⟨rfl, rfl⟩ := Activity.plays_done_iff.1 h
    exact .undecodable known accepted undecodable
  · cases target : q.target with
    | loaded e =>
        rw [carryOut, prepared, target] at h
        have looked : d.LooksUp q.target [] (some e) e.head := by
          rw [target]
          exact .loaded e
        exact course_of_execute valid read looked h
    | id a => exact course_of_id valid read prepared target h

theorem plays_of_execute {program : Option (Entity S) → Program ε} {before : List Exchange}
    {found : Option (Entity S)} {head : Revision} (prepared : d.prepare q = .ok program)
    (looked : d.LooksUp q.target before found head)
    (h : (d.execute .direct q program found head).Plays xs o) :
    (d.carryOut .direct q).Plays (before ++ xs) o := by
  rw [carryOut, prepared]
  generalize q.target = target at looked
  cases looked with
  | loaded e => exact h
  | id answer own replayed =>
      have first := (plays_findTarget_id (ε := ε) own).2 ⟨answer, rfl, rfl⟩
      rw [replayed] at first
      exact first.bind rfl h

/-- At some store, and for some draws, a dispatch takes each of its courses. -/
theorem plays_of_course (h : d.Course q xs o) : (d.carryOut .direct q).Plays xs o := by
  cases h with
  | unknown h =>
      have prepared : d.prepare q = .error (.handlerNotFound d.type q.command) := by
        simp only [prepare, h]
      rw [carryOut, prepared]
      exact .done _
  | @refused c v known h =>
      have prepared : d.prepare q = .error (.validation v) := by simp only [prepare, known, h]
      rw [carryOut, prepared]
      exact .done _
  | @undecodable c e known accepted h =>
      have prepared : d.prepare q = .error (.validation (.ofDecode e)) := by
        simp only [prepare, known, accepted, h]
      rw [carryOut, prepared]
      exact .done _
  | mistyped valid id foreign =>
      obtain ⟨program, _, prepared⟩ := valid.prepare_eq
      rw [carryOut, prepared, id]
      dsimp only
      rw [findTarget_foreign foreign]
      exact .done _
  | unread valid id own answer h =>
      obtain ⟨program, _, prepared⟩ := valid.prepare_eq
      have first := (plays_findTarget_id (ε := ε) own).2 ⟨answer, rfl, rfl⟩
      rw [h] at first
      rw [carryOut, prepared, id]
      exact first.bind rfl (.done _)
  | @missing c before head valid found plain =>
      obtain ⟨program, read, prepared⟩ := valid.prepare_eq
      have stopped : (d.execute .direct q program none head).Plays []
          (some (.error (.notAvailable q.target.aggregate))) := by
        refine .draw (.ofParts 0 0) ?_
        rw [Command.program_of_plain read plain]
        exact .done _
      have played := plays_of_execute prepared found stopped
      rw [List.append_nil] at played
      exact played
  | broken valid looked started handled =>
      obtain ⟨program, read, prepared⟩ := valid.prepare_eq
      rw [← Command.program_of_starts read started] at handled
      exact plays_of_execute prepared looked (.draw _ (handled.bind_panic rfl))
  | @handled _ _ _ _ _ _ _ _ r cursor _ valid looked started handled _ concluded =>
      obtain ⟨program, read, prepared⟩ := valid.prepare_eq
      have counted := ((Program.plays_appends _ handled).2 r cursor rfl).trans (Nat.zero_add _)
      have rest := (plays_answer_iff counted).2 ⟨_, rfl, concluded⟩
      rw [← Command.program_of_starts read started] at handled
      exact plays_of_execute prepared looked (.draw _ (handled.bind rfl rest))

end Dispatch

section Through
variable (d : Description S ε) (s : StoreAccess)

theorem findTarget_through (target : Target S) :
    (d.findTarget .direct target).through s = d.findTarget s target := by
  cases target with
  | loaded e => rfl
  | id a =>
      rw [findTarget, Activity.through_bind, Folding.loadReplay_through, findTarget]
      congr 1
      funext r
      cases r <;> rfl

theorem answer_through (a : AggregateId) (found : Option (Entity S))
    (ended : Except (CommandError ε) Unit × AppendCursor) :
    (d.answer .direct a found ended).through s = d.answer s a found ended := by
  obtain ⟨e | u, c⟩ := ended
  · rfl
  · rw [answer.eq_def, answer.eq_def]
    dsimp only
    split
    · cases found <;> rfl
    · rw [Activity.through_bind, Folding.load_through]
      rfl

/-- A dispatch through another access is the same but for the calls themselves. -/
theorem dispatch_through (q : CommandRequest S) :
    (d.dispatch .direct q).through s = d.dispatch s q := by
  have executed (program : Option (Entity S) → Program ε) (found : Option (Entity S))
      (head : Revision) :
      (d.execute .direct q program found head).through s = d.execute s q program found head := by
    rw [execute, Activity.through, execute]
    congr 1
    funext fresh
    dsimp only
    rw [Activity.through_bind, Program.run_through]
    congr 1
    funext ended
    exact d.answer_through s _ _ ended
  have carried : (d.carryOut .direct q).through s = d.carryOut s q := by
    rw [carryOut, carryOut]
    cases d.prepare q with
    | error e => rfl
    | ok program =>
        dsimp only
        rw [Activity.through_bind, findTarget_through]
        congr 1
        funext found
        obtain e | ⟨found, head⟩ := found
        · rfl
        · exact executed program found head
  rw [dispatch, Activity.through_bind, carried, dispatch]
  rfl

end Through

/-- What a dispatch asks of the store, whatever that answers, and what it answers itself: it keeps
to one of its courses, and to any of them at some store. -/
theorem dispatch_keeps_to_its_course (d : Description S ε) (q : CommandRequest S) :
    (∀ xs o, (d.dispatch .direct q).Plays xs o ↔ d.Course q xs o) ∧
    (∀ w, (d.dispatch .direct q).Plays ((d.dispatch .direct q).exchanges w)
      ((d.dispatch .direct q).run w).1) ∧
    ∀ s, (d.dispatch .direct q).through s = d.dispatch s q :=
  ⟨fun _ _ => (plays_dispatch_iff .direct).trans ⟨course_of_plays, plays_of_course⟩,
    fun w => (d.dispatch .direct q).plays_run w, fun s => d.dispatch_through s q⟩

/-- A description of tallies with one command, which records what it is sent twice and tries to
record nothing in between. -/
def tally : Description Nat String :=
  (ofType "tally").withInitializer "noted" .json (fun _ => 1)
    |>.withReducer "noted" .json (fun n _ => n + 1)
    |>.withCreation "note" .any .ok fun _ payload =>
      .append [⟨"noted", payload⟩] fun _ => .append [] fun _ =>
        .append [⟨"noted", payload⟩] fun _ => .done

def noting : CommandRequest Nat := ⟨"note", .id ⟨"tally", "1"⟩, .null, none⟩

/-- A tally is loaded before two notes are taken, and once more after them. -/
theorem noting_loads_twice :
    let w : World := { readings := fun n => ⟨n, 7⟩, shares := fun _ => 0 }
    let xs := (tally.dispatch .direct noting).exchanges w
    tally.Course noting xs ((tally.dispatch .direct noting).run w).1 ∧
      (xs.map fun x => match x with
        | .load _ _ => none
        | .append _ _ _ r => some r.isOk) = [none, some true, some false, some true, none] ∧
      ((tally.dispatch .direct noting).run w).1.map (fun r => r.toOption.map Entity.state) =
        some (some 2) := by
  intro w xs
  obtain ⟨courses, played, _⟩ := dispatch_keeps_to_its_course tally noting
  exact ⟨(courses _ _).1 (played w), by decide +kernel, by decide +kernel⟩

end Description
end EventSourcing
