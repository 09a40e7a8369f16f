import EventSourcing.Proofs.Interleaving
import EventSourcing.Proofs.Store.Attempts
import EventSourcing.Proofs.Store.Masking

/-!
Appends whose answer gets lost.
The link may fail a call before it reaches the store, or after it has taken effect there. An append
that expects a head and is tried again asks for the same head each time. Once one of its attempts has
taken effect, the log has left that head for good, whatever others append meanwhile: no later attempt
writes, and the first that reaches the store again is told of the conflict. The store must not be
cleared in between, since the initial head would come back.
-/
namespace EventSourcing

/-- The next append gets to the store, whether or not its answer comes back. -/
def Link.delivers (l : Link) : Bool :=
  match l.takeAppend.1 with
  | some (.refused _) => false
  | some (.unanswered _) | none => true

namespace World
variable {w v : World} {a : AggregateId} {batch : List DomainEvent} {o : AppendOptions}

/-- The world when an append is on its way. -/
def sending (w : World) : World := { w with link := w.link.takeAppend.2 }

/-- The store makes no use of the link. -/
theorem commit_sending : (w.sending.commit a batch o).1 = (w.commit a batch o).1 :=
  (InStep.bare (w := w.sending) (v := w) ⟨rfl, rfl, rfl⟩ (.append a batch o)).1

/-- What becomes of an append by the fault that it meets. -/
theorem append_eq (w : World) (a : AggregateId) (batch : List DomainEvent) (o : AppendOptions) :
    w.append a batch o = (match w.link.takeAppend.1 with
      | some (.refused e) => (.error (e a), w.sending)
      | some (.unanswered e) =>
        ((w.commit a batch o).1.bind fun _ => .error (e a), (w.sending.commit a batch o).2)
      | none => ((w.commit a batch o).1, (w.sending.commit a batch o).2) :
      Except StoreError Revision × World) := by
  rw [← commit_sending, append]
  simp only [sending, Link.takeAppend]
  cases w.link.appendFaults.head?.join with
  | none => rfl
  | some f =>
      cases f with
      | refused e => rfl
      | unanswered e =>
          dsimp only
          generalize World.commit _ a batch o = committed
          obtain ⟨r | e', v⟩ := committed <;> rfl

/-- Anything may change but the logs. -/
def Quiet (w v : World) : Prop := v.log = w.log

theorem Quiet.grows (h : w.Quiet v) (b : AggregateId) : w.log b <+: v.log b := by
  rewrite [h]
  exact List.prefix_rfl

theorem Quiet.ordered (h : w.Quiet v) (ordered : ∀ b, Ordered (w.log b)) (b : AggregateId) :
    Ordered (v.log b) := by
  rw [h]
  exact ordered b

/-- What others may do meanwhile: append anything anywhere, and change all that is not a log. -/
inductive Meanwhile : World → World → Prop where
  | append (w : World) (a : AggregateId) (batch : List DomainEvent) (o : AppendOptions) :
      Meanwhile w (w.commit a batch o).2
  | quiet {w v : World} (h : w.Quiet v) : Meanwhile w v

theorem Meanwhile.grows (h : Meanwhile w v) (b : AggregateId) : w.log b <+: v.log b := by
  cases h with
  | append a batch o => exact w.log_prefix_commit a b batch o
  | quiet h => exact h.grows b

theorem Meanwhile.ordered (h : Meanwhile w v) (ordered : ∀ b, Ordered (w.log b))
    (b : AggregateId) : Ordered (v.log b) := by
  cases h with
  | append a batch o => exact ordered_commit ordered b
  | quiet h => exact h.ordered ordered b

end World

namespace Attempt

/-- What the caller is told. -/
def reply (t : Attempt) : Except StoreError Revision :=
  (t.world.append t.aggregate t.batch t.options).1

/-- The world that the call leaves. -/
def left (t : Attempt) : World := (t.world.append t.aggregate t.batch t.options).2

def reaches (t : Attempt) : Bool := t.world.link.delivers

/-- The call takes effect, whatever the caller is told. -/
def writes (t : Attempt) : Bool := t.reaches && t.answer.isOk

/-- The caller is told of a fault that may pass. -/
def passing (t : Attempt) : Bool :=
  match t.reply with
  | .ok _ => false
  | .error e => e.isTransient

variable {t : Attempt}

theorem passing_iff : t.passing = true ↔ ∃ e, t.reply = .error e ∧ e.isTransient = true := by
  rw [passing]
  cases t.reply with
  | ok r => exact iff_of_false Bool.false_ne_true fun ⟨e, he, _⟩ => by cases he
  | error e => exact ⟨fun h => ⟨e, rfl, h⟩, fun ⟨_, rfl, h⟩ => h⟩

/-- A call that does not reach the store fails and does nothing. One that does is told what the
store answers, unless the answer is a success that gets lost. -/
theorem reply_cases (t : Attempt) :
    (t.reaches = false ∧ (∃ e, t.reply = .error e) ∧ t.left = t.world.sending) ∨
    (t.reaches = true ∧ (t.reply = t.answer ∨ t.answer.isOk = true ∧ ∃ e, t.reply = .error e) ∧
      t.left = (t.world.sending.commit t.aggregate t.batch t.options).2) := by
  rw [reply, left, World.append_eq, reaches, Link.delivers, answer]
  cases t.world.link.takeAppend.1 with
  | none => exact .inr ⟨rfl, .inl rfl, rfl⟩
  | some f =>
      cases f with
      | refused e => exact .inl ⟨rfl, ⟨_, rfl⟩, rfl⟩
      | unanswered e =>
          refine .inr ⟨rfl, ?_, rfl⟩
          cases (t.world.commit t.aggregate t.batch t.options).1 with
          | ok r => exact .inr ⟨rfl, _, rfl⟩
          | error e' => exact .inl rfl

theorem writes_of_reply {r : Revision} (h : t.reply = .ok r) :
    t.writes = true ∧ t.answer = .ok r := by
  obtain ⟨_, ⟨e, refused⟩, _⟩ | ⟨reaches, answered | ⟨_, e, lost⟩, _⟩ := t.reply_cases
  · rw [h] at refused
    cases refused
  · rw [h] at answered
    rw [writes, reaches, ← answered]
    exact ⟨rfl, rfl⟩
  · rw [h] at lost
    cases lost

theorem reply_of_answer {e : StoreError} (reaches : t.reaches = true) (h : t.answer = .error e) :
    t.reply = .error e := by
  obtain ⟨missed, _⟩ | ⟨_, answered | ⟨success, _⟩, _⟩ := t.reply_cases
  · rw [reaches] at missed
    cases missed
  · rw [answered, h]
  · rw [h] at success
    cases success

/-- A call that takes effect has met the head that it asks for, and leaves its batch behind it. -/
theorem wrote (h : t.writes = true) :
    checkBatch t.batch = .ok () ∧ t.options.Allows t.head ∧
      ∃ r, t.answer = .ok r ∧ t.world.Wrote t.aggregate t.batch r t.left := by
  obtain ⟨reaches, success⟩ := (Bool.and_eq_true ..).mp h
  obtain ⟨r, hr⟩ := exists_ok success
  obtain ⟨missed, _⟩ | ⟨_, _, left⟩ := t.reply_cases
  · rw [reaches] at missed
    cases missed
  · have sent : (t.world.sending.commit t.aggregate t.batch t.options).1 = .ok r :=
      World.commit_sending.trans hr
    obtain ⟨_, valid, _⟩ := World.commit_ok sent
    obtain ⟨allowed, wrote⟩ := World.wrote_commit sent
    rw [left]
    exact ⟨valid, allowed, r, hr, wrote⟩

/-- A call that takes no effect leaves all logs as they are. -/
theorem quiet (h : t.writes = false) : t.world.Quiet t.left := by
  obtain ⟨_, _, left⟩ | ⟨reaches, _, left⟩ := t.reply_cases
  · rw [left]
    rfl
  · rw [writes, reaches, Bool.true_and] at h
    obtain ⟨e, he⟩ := exists_error h
    rw [left]
    exact funext fun b => World.log_commit_error (World.commit_sending.trans he) b

theorem grows (t : Attempt) (b : AggregateId) : t.world.log b <+: t.left.log b := by
  cases h : t.writes with
  | false => exact (quiet h).grows b
  | true =>
      obtain ⟨_, _, r, _, wrote⟩ := t.wrote h
      exact wrote.grows b

theorem ordered_left (ordered : ∀ b, Ordered (t.world.log b)) (b : AggregateId) :
    Ordered (t.left.log b) := by
  cases h : t.writes with
  | false => exact (quiet h).ordered ordered b
  | true =>
      obtain ⟨_, _, r, _, wrote⟩ := t.wrote h
      exact wrote.ordered ordered b

/-- Once a call has taken effect, one that asks for the same head comes too late: where it reaches
the store, it is told of the conflict. -/
theorem comes_too_late {t' : Attempt} {r : Revision} (h : t.writes = true)
    (ordered : ∀ b, Ordered (t.world.log b)) (ordered' : ∀ b, Ordered (t'.world.log b))
    (aggregate : t'.aggregate = t.aggregate) (batch : t'.batch = t.batch)
    (expects : t.options.expected = some r) (expects' : t'.options.expected = some r)
    (later : t.left.log t.aggregate <+: t'.world.log t.aggregate) :
    t'.answer = .error (.unexpectedRevision t.aggregate r t'.head) := by
  obtain ⟨valid, allowed, s, _, wrote⟩ := t.wrote h
  have passed : r < headRevision (t'.world.log t.aggregate) := by
    rw [allowed r expects]
    exact Nat.lt_of_lt_of_le (wrote.head_lt ordered)
      ((ordered' t.aggregate).head_le_of_part later)
  have other : r ≠ headRevision (t'.world.log t'.aggregate) := by
    rw [aggregate]
    intro same
    rw [← same] at passed
    exact Revision.lt_irrefl _ passed
  rw [← batch] at valid
  rw [← aggregate]
  exact congrArg Prod.fst (World.commit_of_unexpected valid expects' other)

end Attempt

namespace Activity
variable {α : Type}

/-- The append that an activity makes next, if it makes one. -/
def asks : Activity α → World → List Attempt
  | .append a batch o _, w => [⟨w, a, batch, o⟩]
  | _, _ => []

/-- Steps of an activity, with what others do in between, and the appends that it made. -/
inductive Among (others : World → World → Prop) (x : Activity α) (w : World) :
    List Attempt → Activity α → World → Prop where
  | start : Among others x w [] x w
  | own {ts : List Attempt} {y z : Activity α} {u v : World} (before : Among others x w ts y u)
      (h : Step y u z v) : Among others x w (ts ++ y.asks u) z v
  | others {ts : List Attempt} {y : Activity α} {u v : World} (before : Among others x w ts y u)
      (h : others u v) : Among others x w ts y v

section Among
variable {others others' : World → World → Prop} {x : Activity α} {w v : World}

theorem Among.mono (sub : ∀ {u v}, others u v → others' u v) {ts : List Attempt} {y : Activity α}
    (h : Among others x w ts y v) : Among others' x w ts y v := by
  induction h with
  | start => exact .start
  | own _ step ih => exact .own ih step
  | others _ change ih => exact .others ih (sub change)

/-- A run on its own is a course with nothing in between. -/
theorem among_run {r : α} (h : (x.run w).1 = some r) :
    ∃ ts, Among others x w ts (.done r) (x.run w).2 := by
  have steps : ∀ {y z : Activity α} {u v : World} {ts : List Attempt}, Steps y u z v →
      Among others x w ts y u → ∃ ts', Among others x w ts' z v := by
    intro y z u v ts steps before
    induction steps generalizing ts with
    | refl y u => exact ⟨ts, before⟩
    | head h _ ih => exact ih (.own before h)
  exact steps (steps_run x w h) .start

end Among

/-- An append that is tried so many times at most. Each try but the last settles the answer unless
it fails with a fault that may pass. -/
inductive Tries (a : AggregateId) (batch : List DomainEvent) (o : AppendOptions) :
    Nat → Activity (Except StoreError Revision) → Prop where
  | last : Tries a batch o 1 (.append a batch o .done)
  | more {n : Nat} {k : Except StoreError Revision → Activity (Except StoreError Revision)}
      (settled : ∀ r, (∀ e, r = .error e → e.isTransient = false) → k r = .done r)
      (again : ∀ e, e.isTransient = true → Tries a batch o n (k (.error e))) :
      Tries a batch o (n + 1) (.append a batch o k)
  | share {n : Nat} {k : Float → Activity (Except StoreError Revision)}
      (rest : ∀ s, Tries a batch o n (k s)) : Tries a batch o n (.share k)
  | count {n : Nat} {k : Activity (Except StoreError Revision)} (m : Metric)
      (rest : Tries a batch o n k) : Tries a batch o n (.count m k)
  | sleep {n : Nat} {k : Activity (Except StoreError Revision)} (ms : Nat)
      (rest : Tries a batch o n k) : Tries a batch o n (.sleep ms k)

namespace Tries
variable {a : AggregateId} {batch : List DomainEvent} {o : AppendOptions} {n : Nat}
  {y z : Activity (Except StoreError Revision)} {u v w : World}

theorem pauseThen (p : Retry.Policy) (attempt : Nat) (h : Tries a batch o n y) :
    Tries a batch o n (Retry.pauseThen p attempt y .retry) := by
  simp only [Retry.pauseThen]
  split
  · exact .share fun s => .count _ (.sleep _ h)
  · exact .count _ (.sleep _ h)

theorem attemptFrom (p : Retry.Policy) (further attempt : Nat) :
    Tries a batch o (further + 1) (Retry.attemptFrom p
      (fun _ => StoreAccess.direct.append a batch o) StoreAccess.judge attempt further) := by
  induction further generalizing attempt with
  | zero => exact .last
  | succ further ih =>
      refine .more (fun r settled => ?_) fun e transient => ?_
      · rw [bind_done, StoreCall.judge_settled _ attempt settled]
      · rw [bind_done, StoreCall.judge_transient _ attempt transient]
        exact (ih (attempt + 1)).pauseThen p attempt

/-- One step of an append that is tried again: it waits, or it makes its next attempt, which
settles the answer or leaves fewer tries. -/
theorem step (h : Tries a batch o n y) (s : Step y u z v) :
    (y.asks u = [] ∧ u.Quiet v ∧ Tries a batch o n z) ∨
    ∃ t : Attempt, t = ⟨u, a, batch, o⟩ ∧ y.asks u = [t] ∧ v = t.left ∧
      ((z = .done t.reply ∧ 0 < n) ∨
        ∃ m e, n = m + 1 ∧ t.reply = .error e ∧ e.isTransient = true ∧ Tries a batch o m z) := by
  cases h with
  | last =>
      cases s
      exact .inr ⟨_, rfl, rfl, rfl, .inl ⟨rfl, Nat.one_pos⟩⟩
  | @more m k settled again =>
      cases s
      refine .inr ⟨_, rfl, rfl, rfl, ?_⟩
      have replied : (u.append a batch o).1 = (⟨u, a, batch, o⟩ : Attempt).reply := rfl
      rw [replied]
      by_cases transient : ∃ e, (⟨u, a, batch, o⟩ : Attempt).reply = .error e ∧ e.isTransient = true
      · obtain ⟨e, failed, passes⟩ := transient
        refine .inr ⟨m, e, rfl, failed, passes, ?_⟩
        rw [failed]
        exact again e passes
      · refine .inl ⟨settled _ fun e failed => ?_, Nat.succ_pos m⟩
        exact Bool.eq_false_iff.2 fun passes => transient ⟨e, failed, passes⟩
  | share rest =>
      cases s
      exact .inl ⟨rfl, rfl, rest _⟩
  | count m rest =>
      cases s
      exact .inl ⟨rfl, rfl, rest⟩
  | sleep ms rest =>
      cases s
      exact .inl ⟨rfl, rfl, rest⟩

/-- Left to itself, an append that is tried again comes to an answer. -/
theorem run_isSome (h : Tries a batch o n y) (w : World) : ∃ r, (y.run w).1 = some r := by
  induction h generalizing w with
  | last => exact ⟨_, rfl⟩
  | @more m k settled again ih =>
      by_cases transient : ∃ e, (w.append a batch o).1 = .error e ∧ e.isTransient = true
      · obtain ⟨e, failed, passes⟩ := transient
        rw [run, failed]
        exact ih e passes _
      · rw [run, settled _ fun e failed =>
          Bool.eq_false_iff.2 fun passes => transient ⟨e, failed, passes⟩]
        exact ⟨_, rfl⟩
  | share rest ih => exact ih _ _
  | count m rest ih => exact ih _
  | sleep ms rest ih => exact ih _

end Tries

/-- How far an append has come after some attempts. As long as it has tries left they have all
failed with faults that may pass; the answer is what the last attempt was told. -/
inductive Progress (a : AggregateId) (batch : List DomainEvent) (o : AppendOptions) (limit : Nat) :
    List Attempt → Activity (Except StoreError Revision) → Prop where
  | running {ts : List Attempt} {n : Nat} {y : Activity (Except StoreError Revision)}
      (failed : ∀ t ∈ ts, t.passing = true) (h : Tries a batch o n y)
      (room : ts.length + n = limit) : Progress a batch o limit ts y
  | settled {ts : List Attempt} {t : Attempt} (failed : ∀ t ∈ ts, t.passing = true)
      (room : ts.length < limit) : Progress a batch o limit (ts ++ [t]) (.done t.reply)

/-- Where an append has come to, and what lies between its attempts: all ask for the same, and each
comes after the logs that those before it have left. -/
structure Retried (a : AggregateId) (batch : List DomainEvent) (o : AppendOptions) (limit : Nat)
    (ts : List Attempt) (y : Activity (Except StoreError Revision)) (v : World) : Prop where
  ordered : ∀ b, Ordered (v.log b)
  alike : ∀ t ∈ ts, t.aggregate = a ∧ t.batch = batch ∧ t.options = o
  met : ∀ t ∈ ts, ∀ b, Ordered (t.world.log b)
  past : ∀ t ∈ ts, ∀ b, t.left.log b <+: v.log b
  later : ts.Pairwise fun t t' => ∀ b, t.left.log b <+: t'.world.log b
  progress : Progress a batch o limit ts y

namespace Retried
variable {a : AggregateId} {batch : List DomainEvent} {o : AppendOptions} {limit : Nat}
  {ts : List Attempt} {x y z : Activity (Except StoreError Revision)} {u v w : World}

theorem start (h : Tries a batch o limit x) (ordered : ∀ b, Ordered (w.log b)) :
    Retried a batch o limit [] x w where
  ordered
  alike := List.forall_mem_nil _
  met := List.forall_mem_nil _
  past := List.forall_mem_nil _
  later := .nil
  progress := .running (List.forall_mem_nil _) h (Nat.zero_add limit)

/-- While there is no attempt, logs may grow. -/
theorem moved (h : Retried a batch o limit ts y u) (grows : ∀ b, u.log b <+: v.log b)
    (ordered : ∀ b, Ordered (v.log b)) (progress : Progress a batch o limit ts z) :
    Retried a batch o limit ts z v :=
  { h with ordered, progress, past := fun t ht b => (h.past t ht b).trans (grows b) }

theorem called {t : Attempt} (h : Retried a batch o limit ts y u) (same : t = ⟨u, a, batch, o⟩)
    (progress : Progress a batch o limit (ts ++ [t]) z) :
    Retried a batch o limit (ts ++ [t]) z t.left := by
  have met : ∀ b, Ordered (t.world.log b) := by
    rw [same]
    exact h.ordered
  refine ⟨Attempt.ordered_left met, ?_, ?_, ?_, ?_, progress⟩
  · refine List.forall_mem_append.2 ⟨h.alike, List.forall_mem_singleton.2 ?_⟩
    rw [same]
    exact ⟨rfl, rfl, rfl⟩
  · exact List.forall_mem_append.2 ⟨h.met, List.forall_mem_singleton.2 met⟩
  · refine List.forall_mem_append.2
      ⟨fun t' ht b => ?_, List.forall_mem_singleton.2 fun b => List.prefix_rfl⟩
    have behind := h.past t' ht b
    rw [show u = t.world by rw [same]] at behind
    exact behind.trans (t.grows b)
  · refine List.pairwise_append.2 ⟨h.later, List.pairwise_singleton .., fun t' ht t'' ht'' => ?_⟩
    rw [List.mem_singleton.1 ht'', same]
    exact h.past t' ht

theorem step (h : Retried a batch o limit ts y u) (s : Step y u z v) :
    Retried a batch o limit (ts ++ y.asks u) z v := by
  cases h.progress with
  | settled => cases s
  | @running _ n _ failed tries room =>
      obtain ⟨none, quiet, tries⟩ | ⟨t, same, asks, rfl, next⟩ := tries.step s
      · rw [none, List.append_nil]
        exact h.moved quiet.grows (quiet.ordered h.ordered) (.running failed tries room)
      · rw [asks]
        refine h.called same ?_
        obtain ⟨rfl, more⟩ | ⟨m, e, rfl, replied, passes, tries⟩ := next
        · exact .settled failed (by omega)
        · refine .running ?_ tries ?_
          · exact List.forall_mem_append.2 ⟨failed,
              List.forall_mem_singleton.2 (Attempt.passing_iff.2 ⟨e, replied, passes⟩)⟩
          · rw [List.length_append, List.length_singleton]
            omega

/-- Whatever others append meanwhile. -/
theorem of_among (tries : Tries a batch o limit x) (ordered : ∀ b, Ordered (w.log b))
    (h : Among World.Meanwhile x w ts y v) : Retried a batch o limit ts y v := by
  induction h with
  | start => exact start tries ordered
  | own _ s ih => exact ih.step s
  | others _ change ih => exact ih.moved change.grows (change.ordered ih.ordered) ih.progress

theorem length_le (h : Retried a batch o limit ts y v) : ts.length ≤ limit := by
  cases h.progress with
  | running _ _ room => omega
  | settled _ room =>
      rw [List.length_append, List.length_singleton]
      exact room

/-- A fault that does not pass is the answer. -/
theorem settles (h : Retried a batch o limit ts y v) {t : Attempt} (ht : t ∈ ts)
    {e : StoreError} (replied : t.reply = .error e) (lasting : e.isTransient = false) :
    y = .done t.reply := by
  have kept : t.passing = false := by
    rw [Attempt.passing, replied]
    exact lasting
  cases h.progress with
  | running failed =>
      rw [failed t ht] at kept
      cases kept
  | settled failed _ =>
      obtain before | last := List.mem_append.1 ht
      · rw [failed t before] at kept
        cases kept
      · rw [List.mem_singleton.1 last]

section Expecting
variable {r : Revision} (expects : o.expected = some r)
include expects

/-- After an attempt that takes effect all others come too late. -/
theorem too_late (h : Retried a batch o limit ts y v) :
    ts.Pairwise fun t t' => t.writes = true →
      t'.answer = .error (.unexpectedRevision a r t'.head) ∧ t'.writes = false := by
  refine h.later.imp_of_mem fun {t t'} ht ht' later writes => ?_
  obtain ⟨aggregate, batched, options⟩ := h.alike t ht
  obtain ⟨aggregate', batched', options'⟩ := h.alike t' ht'
  have refused : t'.answer = .error (.unexpectedRevision a r t'.head) := by
    rw [← aggregate]
    refine Attempt.comes_too_late writes (h.met t ht) (h.met t' ht')
      (aggregate'.trans aggregate.symm) (batched'.trans batched.symm) ?_ ?_ (later _)
    · rw [options, expects]
    · rw [options', expects]
  refine ⟨refused, ?_⟩
  rw [Attempt.writes, refused]
  exact Bool.and_false _

theorem writes_once (h : Retried a batch o limit ts y v) :
    (ts.filter Attempt.writes).length ≤ 1 := by
  have apart := (h.too_late expects).filter Attempt.writes
  have all : ∀ t ∈ ts.filter Attempt.writes, t.writes = true := fun t ht => (List.mem_filter.1 ht).2
  match hts : ts.filter Attempt.writes with
  | [] => exact Nat.zero_le 1
  | [_] => exact Nat.le_refl 1
  | t :: t' :: rest =>
      rw [hts] at apart all
      have late := (List.rel_of_pairwise_cons apart List.mem_cons_self (all t List.mem_cons_self)).2
      rw [all t' (List.mem_cons_of_mem _ List.mem_cons_self)] at late
      cases late

/-- A success is told by the last attempt, which is then the only one that takes effect. -/
theorem stored (h : Retried a batch o limit ts y v) {s : Revision} (done : y = .done (.ok s)) :
    ∃ before t, ts = before ++ [t] ∧ (∀ t' ∈ before, t'.writes = false) ∧ t.reply = .ok s ∧
      t.writes = true ∧ t.answer = .ok s := by
  have late := h.too_late expects
  cases h.progress with
  | running _ tries =>
      rw [done] at tries
      cases tries
  | @settled before t failed _ =>
      have replied : t.reply = .ok s := Activity.done.inj done
      obtain ⟨writes, answer⟩ := Attempt.writes_of_reply replied
      refine ⟨before, t, rfl, fun t' ht' => Bool.eq_false_iff.2 fun wrote => ?_, replied, writes,
        answer⟩
      have lost := ((List.pairwise_append.1 late).2.2 t' ht' t (List.mem_singleton_self t) wrote).2
      rw [writes] at lost
      cases lost

/-- After an attempt whose success got lost nothing is written any more. -/
theorem late (h : Retried a batch o limit ts y v) {before rest : List Attempt} {t : Attempt}
    (split : ts = before ++ t :: rest) (writes : t.writes = true) {e : StoreError}
    (lost : t.reply = .error e) :
    (∀ t' ∈ rest, t'.writes = false ∧ (t'.reaches = true →
      t'.reply = .error (.unexpectedRevision a r t'.head) ∧ y = .done t'.reply)) ∧
    ∀ answer, y = .done answer → ∃ e, answer = .error e := by
  have later := h.too_late expects
  rw [split] at later
  have later := (List.pairwise_append.1 later).2.1
  refine ⟨fun t' ht' => ?_, fun answer done => ?_⟩
  · obtain ⟨refused, silent⟩ := List.rel_of_pairwise_cons later ht' writes
    refine ⟨silent, fun reaches => ?_⟩
    have replied := Attempt.reply_of_answer reaches refused
    have member : t' ∈ ts := by
      rw [split]
      exact List.mem_append_right _ (List.mem_cons_of_mem _ ht')
    exact ⟨replied, h.settles member replied rfl⟩
  · cases answer with
    | error e => exact ⟨e, rfl⟩
    | ok s =>
        obtain ⟨init, t', hts, silent, replied, _⟩ := h.stored expects done
        have member : t ∈ init ++ [t'] := by
          rw [← hts, split]
          exact List.mem_append_right _ List.mem_cons_self
        obtain early | last := List.mem_append.1 member
        · rw [silent t early] at writes
          cases writes
        · rw [← List.mem_singleton.1 last, lost] at replied
          cases replied

end Expecting

/-- While nobody else writes, the logs are as they were at first, or as the attempt that took effect
has left them. -/
theorem kept_or_left {r : Revision} (expects : o.expected = some r)
    (tries : Tries a batch o limit x) (ordered : ∀ b, Ordered (w.log b))
    (h : Among World.Quiet x w ts y v) :
    ((∀ t ∈ ts, t.writes = false) ∧ v.log = w.log) ∨
      ∃ t ∈ ts, t.writes = true ∧ t.world.log = w.log ∧ v.log = t.left.log := by
  induction h with
  | start => exact .inl ⟨List.forall_mem_nil _, rfl⟩
  | others _ quiet ih =>
      rw [quiet]
      exact ih
  | @own ts y z u v before s ih =>
      have now := of_among tries ordered (before.mono .quiet)
      have next := (now.step s).too_late expects
      cases now.progress with
      | settled => cases s
      | running _ tries =>
          obtain ⟨none, quiet, _⟩ | ⟨t, same, asks, rfl, _⟩ := tries.step s
          · rw [none, List.append_nil, quiet]
            exact ih
          · have met : t.world.log = u.log := by rw [same]
            rw [asks] at next ⊢
            obtain ⟨silent, kept⟩ | ⟨t', ht', writes, first, left⟩ := ih
            · cases effect : t.writes with
              | true =>
                  exact .inr ⟨t, List.mem_append_right _ (List.mem_singleton_self t), effect,
                    met.trans kept, rfl⟩
              | false =>
                  refine .inl ⟨List.forall_mem_append.2 ⟨silent, ?_⟩, ?_⟩
                  · exact List.forall_mem_singleton.2 effect
                  · rw [Attempt.quiet effect, met, kept]
            · have none := ((List.pairwise_append.1 next).2.2 t' ht' t
                (List.mem_singleton_self t) writes).2
              refine .inr ⟨t', List.mem_append_left _ ht', writes, first, ?_⟩
              rw [Attempt.quiet none, met, left]
end Retried

/-- What an append with an expected head has done to the logs after some attempts, however many of
them have failed. -/
structure WritesOnce (a : AggregateId) (batch : List DomainEvent) (r : Revision)
    (ts : List Attempt) (y : Activity (Except StoreError Revision)) (v : World) : Prop where
  asked : ∀ t ∈ ts, t.aggregate = a ∧ t.batch = batch ∧ t.options.expected = some r
  effect : ∀ t ∈ ts,
    if t.writes then ∃ s, t.world.Wrote a batch s t.left else t.left.log = t.world.log
  once : (ts.filter Attempt.writes).length ≤ 1
  /-- A success is told where the last attempt, and no other, has recorded the batch. -/
  stored : ∀ s, y = .done (.ok s) → ∃ before t recorded after, ts = before ++ [t] ∧
    (∀ t' ∈ before, t'.writes = false) ∧ t.writes = true ∧
    recorded.map RecordedEvent.toDomain = batch ∧ headRevision recorded = s ∧
    t.left.log a = t.world.log a ++ recorded ∧ v.log a = t.left.log a ++ after
  /-- Where a success gets lost, no later attempt writes, and the first that reaches the store
  settles the answer as a conflict. -/
  late : ∀ before t rest, ts = before ++ t :: rest → t.writes = true →
    (∃ e, t.reply = .error e) →
      (∀ t' ∈ rest, t'.writes = false ∧ (t'.reaches = true →
        t'.reply = .error (.unexpectedRevision a r t'.head) ∧ y = .done t'.reply)) ∧
      ∀ answer, y = .done answer → ∃ e, answer = .error e

theorem Retried.writesOnce {a : AggregateId} {batch : List DomainEvent} {o : AppendOptions}
    {limit : Nat} {ts : List Attempt} {y : Activity (Except StoreError Revision)} {v : World}
    {r : Revision} (expects : o.expected = some r) (h : Retried a batch o limit ts y v) :
    WritesOnce a batch r ts y v where
  asked t ht := by
    obtain ⟨aggregate, batched, options⟩ := h.alike t ht
    exact ⟨aggregate, batched, by rw [options, expects]⟩
  effect t ht := by
    obtain ⟨aggregate, batched, _⟩ := h.alike t ht
    split
    · rename_i writes
      obtain ⟨_, _, s, _, wrote⟩ := t.wrote writes
      rw [aggregate, batched] at wrote
      exact ⟨s, wrote⟩
    · rename_i silent
      exact Attempt.quiet (Bool.eq_false_iff.2 silent)
  once := h.writes_once expects
  stored s done := by
    obtain ⟨before, t, hts, silent, _, writes, answer⟩ := h.stored expects done
    have last : t ∈ ts := by
      rw [hts]
      exact List.mem_append_right _ (List.mem_singleton_self t)
    obtain ⟨aggregate, batched, _⟩ := h.alike t last
    obtain ⟨_, _, s', answer', recorded, _, _, domain, head, logs⟩ := t.wrote writes
    obtain ⟨after, hafter⟩ := h.past t last a
    rw [answer] at answer'
    cases answer'
    refine ⟨before, t, recorded, after, hts, silent, writes, domain.trans batched, head.symm, ?_,
      hafter.symm⟩
    rw [logs, if_pos aggregate, aggregate]
  late before t rest split writes lost := by
    obtain ⟨e, replied⟩ := lost
    exact h.late expects split writes replied

/-- Without others the logs are left as they were, or with the batch recorded at the expected
head. -/
theorem Retried.alone {a : AggregateId} {batch : List DomainEvent} {o : AppendOptions}
    {limit : Nat} {x : Activity (Except StoreError Revision)} {w v : World} {r : Revision}
    {ts : List Attempt} {answer : Except StoreError Revision} (expects : o.expected = some r)
    (tries : Tries a batch o limit x) (ordered : ∀ b, Ordered (w.log b))
    (h : Among World.Quiet x w ts (.done answer) v) :
    (v.log = w.log ∧ ∃ e, answer = .error e) ∨
      ∃ s, w.Wrote a batch s v ∧ ∀ s', answer = .ok s' → s' = s := by
  have reached := of_among tries ordered (h.mono .quiet)
  obtain ⟨silent, kept⟩ | ⟨t, ht, writes, first, left⟩ := kept_or_left expects tries ordered h
  · refine .inl ⟨kept, ?_⟩
    cases answer with
    | error e => exact ⟨e, rfl⟩
    | ok s =>
        obtain ⟨before, t, hts, _, _, writes, _⟩ := reached.stored expects rfl
        rw [silent t (hts ▸ List.mem_append_right _ (List.mem_singleton_self t))] at writes
        cases writes
  · obtain ⟨aggregate, batched, _⟩ := reached.alike t ht
    obtain ⟨_, _, s, replied, wrote⟩ := t.wrote writes
    rw [aggregate, batched] at wrote
    refine .inr ⟨s, ?_, fun s' done => ?_⟩
    · simpa only [World.Wrote, first, left] using wrote
    · obtain ⟨before, t', hts, silent, _, _, answer⟩ := reached.stored expects (congrArg _ done)
      rw [hts] at ht
      obtain early | last := List.mem_append.1 ht
      · rw [silent t early] at writes
        cases writes
      · rw [← List.mem_singleton.1 last, replied] at answer
        exact (Except.ok.inj answer).symm

end Activity

/-- An append that expects a head and is tried again over a link that loses calls and answers
writes at most once, whatever others append meanwhile. It comes to an answer; without others the
logs then hold the batch once more or are as they were. -/
theorem retried_append_writes_once (w : World) (empty : w.store.logs = ∅) (history : List StoreOp)
    (p : Retry.Policy) (a : AggregateId) (batch : List DomainEvent) (o : AppendOptions)
    (r : Revision) (expects : o.expected = some r) :
    let x := (StoreAccess.direct.retrying p).append a batch o
    let u := w.after history
    (∀ ts y v, x.Among World.Meanwhile u ts y v →
      ts.length ≤ p.attempts ∧ Activity.WritesOnce a batch r ts y v) ∧
    ∃ answer ts v, x.run u = (some answer, v) ∧ x.Among World.Quiet u ts (.done answer) v ∧
      ((v.log = u.log ∧ ∃ e, answer = .error e) ∨
        ∃ s, u.Wrote a batch s v ∧ ∀ s', answer = .ok s' → s' = s) := by
  intro x u
  have ordered : ∀ b, Ordered (u.log b) := ordered_of_empty empty history
  have tries : Activity.Tries a batch o p.attempts x := by
    have some_try : p.attempts - 1 + 1 = p.attempts := by
      rw [Retry.Policy.attempts]
      omega
    rw [← some_try]
    exact .attemptFrom p _ 1
  refine ⟨fun ts y v course => ?_, ?_⟩
  · have reached := Activity.Retried.of_among tries ordered course
    exact ⟨reached.length_le, reached.writesOnce expects⟩
  · obtain ⟨answer, run⟩ := tries.run_isSome u
    obtain ⟨ts, course⟩ := Activity.among_run run
    exact ⟨answer, ts, _, Prod.ext run rfl, course,
      Activity.Retried.alone expects tries ordered course⟩

/-- The first attempt is recorded and its answer gets lost; the second does not reach the store, and
the third meets the revision that the first has left. -/
theorem second_copy_is_refused :
    let a : AggregateId := ⟨"account", "1"⟩
    let opened : DomainEvent := ⟨"opened", .null⟩
    let slow : AggregateId → StoreError := fun _ => .transient (.fault "slow")
    let w : World :=
      { link := { appendFaults := [some (.unanswered slow), some (.refused slow)] }
        readings := fun n => ⟨n, 7⟩, shares := fun _ => 0 }
    let o := AppendOptions.expect .initial
    let x := (StoreAccess.direct.retrying { limit := 3, delay := 0 }).append a [opened] o
    let v := (x.run w).2
    o.expected = some .initial ∧
      ∃ e ts, (x.run w).1 = some (.error e) ∧ e.isConflict = true ∧ v.link.appends = 3 ∧
        x.Among World.Quiet w ts (.done (.error e)) v ∧ (ts.filter Attempt.writes).length ≤ 1 ∧
        (v.log a).map RecordedEvent.toDomain = [opened] := by
  intro a opened slow w o x v
  have ran : ((x.run w).1.all fun r => match r with
      | .ok _ => false
      | .error e => e.isConflict) = true ∧ (v.log a).length = 1 ∧ v.link.appends = 3 := by
    simp only [v, x, StoreAccess.retrying, Retry.attempts]
    rw [show Retry.Policy.attempts { limit := 3, delay := 0 } - 1 = 2 from rfl]
    simp only [Retry.attemptFrom, Retry.pauseThen]
    generalize Retry.drawsJitter Float 0 1 = b
    generalize Retry.drawsJitter Float 0 2 = b'
    cases b <;> cases b' <;> decide +kernel
  obtain ⟨conflict, one, calls⟩ := ran
  obtain ⟨once, answer, ts, v', run, course, ended⟩ :=
    retried_append_writes_once w rfl [] { limit := 3, delay := 0 } a [opened] o .initial rfl
  have same : x.run w = (some answer, v') := run
  have left : v = v' := congrArg Prod.snd same
  rw [same] at conflict
  rw [left] at one calls
  cases answer with
  | ok s => cases conflict
  | error e =>
      rw [same, left]
      refine ⟨rfl, e, ts, rfl, conflict, calls, course, ?_, ?_⟩
      · exact (once ts _ v' (course.mono .quiet)).2.once
      · obtain ⟨kept, _⟩ | ⟨s, ⟨recorded, _, _, domain, _, logs⟩, _⟩ := ended
        · rw [kept] at one
          cases one
        · rw [logs, if_pos rfl]
          exact domain

end EventSourcing
