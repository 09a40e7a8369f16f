import EventSourcing.Command.Dispatch
import EventSourcing.Proofs.Store.WrittenOnce

/-!
Executions of handlers.
An execution is what is left of a handler's program, with its cursor and the world it works on. Its
own steps are those of the activity that the program stands for; between two of them others may
append anything anywhere, and all that is not a log may change. The courses that the activity can
take among others are just the executions.
-/
namespace EventSourcing

def AppendCursor.after (c : AppendCursor) : Except StoreError Revision → AppendCursor
  | .ok r => c.moved r
  | .error _ => c

namespace Program
variable {ε : Type} (s : StoreAccess) (env : CommandEnv) (c : AppendCursor)

theorem run_append (batch : List DomainEvent) (k : Except StoreError Revision → Program ε) :
    (append batch k).run s env c =
      (s.append env.aggregate batch (c.trace env (.expect c.expected))).bind fun r =>
        (k r).run s env (c.after r) := by
  rw [run]
  congr 1
  funext r
  cases r <;> rfl

theorem run_appendWith (batch : List DomainEvent) (o : AppendOptions)
    (k : Except StoreError Revision → Program ε) :
    (appendWith batch o k).run s env c =
      (s.append env.aggregate batch (c.trace env o)).bind fun r =>
        (k r).run s env (c.after r) := by
  rw [run]
  congr 1
  funext r
  cases r <;> rfl

theorem run_append_direct (batch : List DomainEvent)
    (k : Except StoreError Revision → Program ε) :
    (append batch k).run .direct env c =
      .append env.aggregate batch (c.trace env (.expect c.expected)) fun r =>
        (k r).run .direct env (c.after r) :=
  run_append .direct env c batch k

theorem run_appendWith_direct (batch : List DomainEvent) (o : AppendOptions)
    (k : Except StoreError Revision → Program ε) :
    (appendWith batch o k).run .direct env c =
      .append env.aggregate batch (c.trace env o) fun r =>
        (k r).run .direct env (c.after r) :=
  run_appendWith .direct env c batch o k

end Program

theorem Description.prepare_eq_ok {S ε : Type} {d : Description S ε} {q : CommandRequest S}
    {program : Option (Entity S) → Program ε} (h : d.prepare q = .ok program) :
    ∃ c, d.commands.get? q.command = some c ∧
      c.prepare q.target.aggregate q.payload = .ok program := by
  rw [prepare] at h
  split at h
  · cases h
  · rename_i c hc
    refine ⟨c, hc, ?_⟩
    split at h
    · cases h
    · split at h
      · cases h
      · cases h
        assumption

structure Execution (ε : Type) where
  program : Program ε
  cursor : AppendCursor
  world : World

/-- An append as its caller sees it. -/
structure AppendCall where
  aggregate : AggregateId
  batch : List DomainEvent
  answer : Except StoreError Revision

def Attempt.call (t : Attempt) : AppendCall := ⟨t.aggregate, t.batch, t.reply⟩

/-- What others do alongside: they append anything anywhere, and change all that is not a log, but
they do not break a clear link. -/
def World.Alongside (w v : World) : Prop := w.Meanwhile v ∧ (w.link.IsClear → v.link.IsClear)

/-- What a step does at the store. -/
inductive StoreStep where
  | nothing
  /-- The handler appends at its cursor. -/
  | own (batch : List DomainEvent) (r : Except StoreError Revision)
  /-- The handler appends with a choice of its own about what head to expect. -/
  | free (batch : List DomainEvent) (o : AppendOptions) (r : Except StoreError Revision)
  | foreign (a : AggregateId) (batch : List DomainEvent) (o : AppendOptions)
      (r : Except StoreError Revision)

namespace StoreStep

/-- The append of the handler, which goes to the log of its own aggregate. -/
def call? (a : AggregateId) : StoreStep → Option AppendCall
  | .own batch r | .free batch _ r => some ⟨a, batch, r⟩
  | .nothing | .foreign _ _ _ _ => none

theorem calls_snoc (a : AggregateId) (steps : List StoreStep) (d : StoreStep) :
    (steps ++ [d]).filterMap (call? a) = steps.filterMap (call? a) ++ (d.call? a).toList := by
  rw [List.filterMap_append]
  cases h : d.call? a <;> simp [h]

/-- The revision that a successful append of the handler left. -/
def revision? : StoreStep → Option Revision
  | .own _ (.ok r) | .free _ _ (.ok r) => some r
  | _ => none

def written : StoreStep → List DomainEvent
  | .own batch (.ok _) => batch
  | _ => []

def IsWrite : StoreStep → Prop
  | .own _ (.ok _) | .free _ _ (.ok _) | .foreign _ _ _ (.ok _) => True
  | _ => False

def IsFreeWrite : StoreStep → Prop
  | .free _ _ (.ok _) => True
  | _ => False

def IsForeignWrite (a : AggregateId) : StoreStep → Prop
  | .foreign b _ _ (.ok _) => b = a
  | _ => False

def IsFailedAppend : StoreStep → Prop
  | .own _ (.error _) | .free _ _ (.error _) => True
  | _ => False

end StoreStep

namespace Execution
variable {ε : Type} (env : CommandEnv)

def activity (x : Execution ε) : Activity (Except (CommandError ε) Unit × AppendCursor) :=
  x.program.run .direct env x.cursor

theorem activity_done (c : AppendCursor) (w : World) :
    activity env (⟨.done, c, w⟩ : Execution ε) = .done (.ok (), c) := rfl

def append (x : Execution ε) (batch : List DomainEvent) : Except StoreError Revision × World :=
  x.world.append env.aggregate batch (x.cursor.trace env (.expect x.cursor.expected))

def appendWith (x : Execution ε) (batch : List DomainEvent) (o : AppendOptions) :
    Except StoreError Revision × World :=
  x.world.append env.aggregate batch (x.cursor.trace env o)

inductive Own : Execution ε → StoreStep → Execution ε → Prop where
  | env (k : CommandEnv → Program ε) (c : AppendCursor) (w : World) :
      Own ⟨.env k, c, w⟩ .nothing ⟨k env, c, w⟩
  | appends (k : Nat → Program ε) (c : AppendCursor) (w : World) :
      Own ⟨.appends k, c, w⟩ .nothing ⟨k c.appends, c, w⟩
  | append (x : Execution ε) (batch : List DomainEvent)
      (k : Except StoreError Revision → Program ε) (h : x.program = .append batch k) :
      Own x (.own batch (x.append env batch).1)
        ⟨k (x.append env batch).1, x.cursor.after (x.append env batch).1, (x.append env batch).2⟩
  | appendWith (x : Execution ε) (batch : List DomainEvent) (o : AppendOptions)
      (k : Except StoreError Revision → Program ε) (h : x.program = .appendWith batch o k) :
      Own x (.free batch o (x.appendWith env batch o).1)
        ⟨k (x.appendWith env batch o).1, x.cursor.after (x.appendWith env batch o).1,
          (x.appendWith env batch o).2⟩
  | sleep (ms t : Nat) (k : Program ε) (c : AppendCursor) (w : World) (h : w.now ≤ t) :
      Own ⟨.sleep ms k, c, w⟩ .nothing ⟨k, c, { w with now := t }⟩
  | note (n : Note) (k : Program ε) (c : AppendCursor) (w : World) :
      Own ⟨.note n k, c, w⟩ .nothing ⟨k, c, w.note n⟩

/-- What may happen between two steps of the handler. -/
inductive Meanwhile : Execution ε → StoreStep → Execution ε → Prop where
  | append (x : Execution ε) (a : AggregateId) (batch : List DomainEvent) (o : AppendOptions) :
      Meanwhile x (.foreign a batch o (x.world.commit a batch o).1)
        { x with world := (x.world.commit a batch o).2 }
  /-- Time passes, clock and random bits turn to anything, others load, draw and count. -/
  | other (x : Execution ε) (v : World) (quiet : x.world.Quiet v)
      (link : x.world.link.IsClear → v.link.IsClear) : Meanwhile x .nothing { x with world := v }

/-- Steps of the handler and whatever happens in between, with what was done at the store. -/
inductive Run (start : Execution ε) : List StoreStep → Execution ε → Prop where
  | start : Run start [] start
  | own {steps : List StoreStep} {x y : Execution ε} {d : StoreStep} (run : Run start steps x)
      (h : Own env x d y) : Run start (steps ++ [d]) y
  | meanwhile {steps : List StoreStep} {x y : Execution ε} {d : StoreStep}
      (run : Run start steps x) (h : Meanwhile x d y) : Run start (steps ++ [d]) y

variable {env} in
theorem Run.trans {x y z : Execution ε} {before after : List StoreStep} (first : Run env x before y)
    (rest : Run env y after z) : Run env x (before ++ after) z := by
  induction rest with
  | start => rwa [List.append_nil]
  | own _ h ih =>
      rw [← List.append_assoc]
      exact ih.own h
  | meanwhile _ h ih =>
      rw [← List.append_assoc]
      exact ih.meanwhile h

/-- What others do alongside happens between two steps of the handler. -/
theorem meanwhile_of_alongside (x : Execution ε) {v : World} (h : x.world.Alongside v) :
    ∃ d : StoreStep, Meanwhile x d { x with world := v } ∧ ∀ a, d.call? a = none := by
  obtain ⟨program, c, w⟩ := x
  obtain ⟨change, link⟩ := h
  cases change with
  | append a batch o => exact ⟨_, .append ⟨program, c, w⟩ a batch o, fun _ => rfl⟩
  | quiet quiet => exact ⟨_, .other ⟨program, c, w⟩ v quiet link, fun _ => rfl⟩

theorem alongside_of_meanwhile {x y : Execution ε} {d : StoreStep} (h : Meanwhile x d y) :
    y.activity env = x.activity env ∧ x.world.Alongside y.world ∧ ∀ a, d.call? a = none := by
  cases h with
  | append a batch o =>
      refine ⟨rfl, ⟨.append x.world a batch o, fun clear => ?_⟩, fun _ => rfl⟩
      rw [World.link_commit]
      exact clear
  | other v quiet link => exact ⟨rfl, ⟨.quiet quiet, link⟩, fun _ => rfl⟩

/-- A step of the handler is a step of its activity, with the same append if there is one, or only
tells the program something that it knows without one. -/
theorem activity_of_own {x y : Execution ε} {d : StoreStep} (h : Own env x d y) :
    (y.activity env = x.activity env ∧ y.world = x.world ∧ d.call? env.aggregate = none) ∨
      Activity.Step (x.activity env) x.world (y.activity env) y.world ∧
        (d.call? env.aggregate).toList = ((x.activity env).asks x.world).map Attempt.call := by
  cases h with
  | env k c w => exact .inl ⟨rfl, rfl, rfl⟩
  | appends k c w => exact .inl ⟨rfl, rfl, rfl⟩
  | append _ batch k hp =>
      refine .inr ?_
      rw [activity, hp, Program.run_append_direct]
      exact ⟨.append _ _ _ _ _, rfl⟩
  | appendWith _ batch o k hp =>
      refine .inr ?_
      rw [activity, hp, Program.run_appendWith_direct]
      exact ⟨.append _ _ _ _ _, rfl⟩
  | sleep ms t k c w h => exact .inr ⟨.sleep ms t _ w h, rfl⟩
  | note n k c w => exact .inr ⟨.note n _ w, rfl⟩

/-- Each step of the activity is one that the handler can take, with the same append if there is
one. -/
theorem run_of_activity_step (p : Program ε) (c : AppendCursor) (w : World)
    {act : Activity (Except (CommandError ε) Unit × AppendCursor)} {v : World}
    (h : Activity.Step (activity env ⟨p, c, w⟩) w act v) :
    ∃ steps y, Run env ⟨p, c, w⟩ steps y ∧
      steps.filterMap (StoreStep.call? env.aggregate) =
        ((activity env ⟨p, c, w⟩).asks w).map Attempt.call ∧
      y.activity env = act ∧ y.world = v := by
  have once {x y : Execution ε} {d : StoreStep} (own : Own env x d y) : Run env x [d] y :=
    .own .start own
  induction p with
  | done | stop | panic => cases h
  | env k ih =>
      obtain ⟨steps, y, run, rest⟩ := ih env h
      exact ⟨.nothing :: steps, y, (once (.env k c w)).trans run, rest⟩
  | appends k ih =>
      obtain ⟨steps, y, run, rest⟩ := ih c.appends h
      exact ⟨.nothing :: steps, y, (once (.appends k c w)).trans run, rest⟩
  | append batch k ih =>
      rw [activity, Program.run_append_direct] at h ⊢
      cases h
      exact ⟨_, _, once (.append ⟨_, c, w⟩ batch k rfl), rfl, rfl, rfl⟩
  | appendWith batch o k ih =>
      rw [activity, Program.run_appendWith_direct] at h ⊢
      cases h
      exact ⟨_, _, once (.appendWith ⟨_, c, w⟩ batch o k rfl), rfl, rfl, rfl⟩
  | sleep ms k ih =>
      cases h with
      | sleep _ t _ _ ht => exact ⟨_, _, once (.sleep ms t k c w ht), rfl, rfl, rfl⟩
  | note n k ih =>
      cases h
      exact ⟨_, _, once (.note n k c w), rfl, rfl, rfl⟩

section Among
variable {env} {x y : Execution ε} {ts : List Attempt} {steps : List StoreStep} {u : World}
  {act : Activity (Except (CommandError ε) Unit × AppendCursor)}

/-- Whatever course the activity takes among others, it is an execution. -/
theorem run_of_among (h : (x.activity env).Among World.Alongside x.world ts act u) :
    ∃ steps y, Run env x steps y ∧
      steps.filterMap (StoreStep.call? env.aggregate) = ts.map Attempt.call ∧
      y.activity env = act ∧ y.world = u := by
  induction h with
  | start => exact ⟨[], x, .start, rfl, rfl, rfl⟩
  | own _ step ih =>
      obtain ⟨before, ⟨p, c, w⟩, run, calls, rfl, rfl⟩ := ih
      obtain ⟨after, z, more, calls', rest⟩ := run_of_activity_step env p c w step
      refine ⟨before ++ after, z, run.trans more, ?_, rest⟩
      rw [List.filterMap_append, List.map_append, calls, calls']
  | others _ change ih =>
      obtain ⟨before, y, run, calls, rfl, rfl⟩ := ih
      obtain ⟨d, between, silent⟩ := y.meanwhile_of_alongside change
      refine ⟨before ++ [d], _, run.meanwhile between, ?_, rfl, rfl⟩
      rw [StoreStep.calls_snoc, silent, calls]
      exact List.append_nil _

/-- Each execution is a course that the activity can take among others. -/
theorem among_of_run (h : Run env x steps y) :
    ∃ ts, (x.activity env).Among World.Alongside x.world ts (y.activity env) y.world ∧
      ts.map Attempt.call = steps.filterMap (StoreStep.call? env.aggregate) := by
  induction h with
  | start => exact ⟨[], .start, rfl⟩
  | @own steps y z d _ own ih =>
      obtain ⟨ts, among, calls⟩ := ih
      obtain ⟨same, unchanged, silent⟩ | ⟨step, asks⟩ := activity_of_own env own
      · rw [same, unchanged]
        refine ⟨ts, among, ?_⟩
        rw [StoreStep.calls_snoc, silent, calls]
        exact (List.append_nil _).symm
      · refine ⟨_, among.own step, ?_⟩
        rw [List.map_append, calls, ← asks, StoreStep.calls_snoc]
  | @meanwhile steps y z d _ between ih =>
      obtain ⟨ts, among, calls⟩ := ih
      obtain ⟨same, change, silent⟩ := alongside_of_meanwhile env between
      refine ⟨ts, ?_, ?_⟩
      · rw [same]
        exact among.others change
      · rw [StoreStep.calls_snoc, silent, calls]
        exact (List.append_nil _).symm

variable (env x) in
/-- The courses that the activity can take among others are just the executions. -/
theorem among_iff_run {calls : List AppendCall} :
    (∃ ts, (x.activity env).Among World.Alongside x.world ts act u ∧
        ts.map Attempt.call = calls) ↔
      ∃ steps y, Run env x steps y ∧
        steps.filterMap (StoreStep.call? env.aggregate) = calls ∧
        y.activity env = act ∧ y.world = u := by
  constructor
  · rintro ⟨ts, among, rfl⟩
    exact run_of_among among
  · rintro ⟨steps, y, run, rfl, rfl, rfl⟩
    exact among_of_run run

end Among

end Execution
end EventSourcing
