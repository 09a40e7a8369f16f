import EventSourcing.Proofs.Exchanges
import EventSourcing.Proofs.Handler.Execution

/-!
Executions whose appends are tried again.
An access may make a failed append again, with the same request, and the handler does not hear of it
before the last answer. Seen from the store such an execution is one in which the handler stands
where it is after some of its failed appends. The activity of a program under such an access keeps
to these executions, whatever others do between two of its steps, and its next append is always the
one that the program makes next.
-/
namespace EventSourcing

namespace Program
variable {ε : Type}

/-- The append that a program makes next, with the ids that it leaves open filled in; there is none
where the program ends without one. -/
def nextAppend? (env : CommandEnv) (c : AppendCursor) :
    Program ε → Option (List DomainEvent × AppendOptions)
  | .done | .stop _ | .panic => none
  | .env k => (k env).nextAppend? env c
  | .appends k => (k c.appends).nextAppend? env c
  | .append batch _ => some (batch, c.trace env (.expect c.expected))
  | .appendWith batch o _ => some (batch, c.trace env o)
  | .sleep _ k | .note _ k => k.nextAppend? env c

end Program

/-- Left to itself, an activity first of all makes this append to a log, or it exchanges nothing
with the store at all. -/
def Activity.AppendsFirst {α : Type} (x : Activity α) (w : World) (a : AggregateId) :
    Option (List DomainEvent × AppendOptions) → Prop
  | some (batch, o) => ∃ answer rest, x.exchanges w = .append a batch o answer :: rest
  | none => x.exchanges w = []

theorem Activity.Tries.appendsFirst {α : Type} {a : AggregateId} {batch : List DomainEvent}
    {o : AppendOptions} {n : Nat} {y : Activity (Except StoreError Revision)}
    (h : Tries a batch o n y) (f : Except StoreError Revision → Activity α) (w : World) :
    (y.bind f).AppendsFirst w a (some (batch, o)) := by
  induction h generalizing w with
  | last | more => exact ⟨_, _, rfl⟩
  | share _ ih => exact ih _ _
  | count _ _ ih | sleep _ _ ih => exact ih _

namespace Execution
variable {ε : Type}

/-- A step of the handler, or of an access that makes its appends again where they fail, or what
happens in between. -/
inductive Does (env : CommandEnv) : Execution ε → StoreStep → Execution ε → Prop where
  | own {x y : Execution ε} {d : StoreStep} (h : Own env x d y) : Does env x d y
  /-- The handler does not hear of a failed append that is made again. -/
  | again {x y : Execution ε} {d : StoreStep} (h : Own env x d y) (failed : d.IsFailedAppend) :
      Does env x d { y with program := x.program }
  | meanwhile {x y : Execution ε} {d : StoreStep} (h : Meanwhile x d y) : Does env x d y

/-- Executions whose appends may be made again, with whatever happens in between. -/
inductive Course (env : CommandEnv) (start : Execution ε) :
    List StoreStep → Execution ε → Prop where
  | start : Course env start [] start
  | step {steps : List StoreStep} {x y : Execution ε} {d : StoreStep}
      (course : Course env start steps x) (h : Does env x d y) : Course env start (steps ++ [d]) y

theorem Run.course {env : CommandEnv} {start x : Execution ε} {steps : List StoreStep}
    (run : Run env start steps x) : Course env start steps x := by
  induction run with
  | start => exact .start
  | own _ h ih => exact ih.step (.own h)
  | meanwhile _ h ih => exact ih.step (.meanwhile h)

section Retrying
variable {p : Retry.Policy} {env : CommandEnv} {x : Execution ε}

theorem Course.trans {x y z : Execution ε} {before after : List StoreStep}
    (first : Course env x before y) (rest : Course env y after z) :
    Course env x (before ++ after) z := by
  induction rest with
  | start => rwa [List.append_nil]
  | step _ h ih =>
      rw [← List.append_assoc]
      exact ih.step h

/-- What is left of a program once an append of it is answered. -/
def answered (p : Retry.Policy) (env : CommandEnv) (c : AppendCursor)
    (k : Except StoreError Revision → Program ε) (answer : Except StoreError Revision) :
    Activity (Except (CommandError ε) Unit × AppendCursor) :=
  (k answer).run (.retrying p .direct) env (c.after answer)

theorem tries_retrying (p : Retry.Policy) (a : AggregateId) (batch : List DomainEvent)
    (o : AppendOptions) :
    Activity.Tries a batch o (p.attempts - 1 + 1)
      ((StoreAccess.direct.retrying p).append a batch o) :=
  .attemptFrom p _ 1

/-- An activity is what is left of an execution under an access that tries again: its program, or
the attempts that are left of an append and then the rest of the program. -/
inductive Carries (p : Retry.Policy) (env : CommandEnv) :
    Activity (Except (CommandError ε) Unit × AppendCursor) → Execution ε → Prop where
  | program (x : Execution ε) : Carries p env (x.program.run (.retrying p .direct) env x.cursor) x
  | append {x : Execution ε} {batch : List DomainEvent}
      {k : Except StoreError Revision → Program ε} (program : x.program = .append batch k) {n : Nat}
      {left : Activity (Except StoreError Revision)}
      (tries : Activity.Tries env.aggregate batch (x.cursor.trace env (.expect x.cursor.expected))
        n left) : Carries p env (left.bind (answered p env x.cursor k)) x
  | appendWith {x : Execution ε} {batch : List DomainEvent} {o : AppendOptions}
      {k : Except StoreError Revision → Program ε} (program : x.program = .appendWith batch o k)
      {n : Nat} {left : Activity (Except StoreError Revision)}
      (tries : Activity.Tries env.aggregate batch (x.cursor.trace env o) n left) :
      Carries p env (left.bind (answered p env x.cursor k)) x

namespace Carries
variable {act : Activity (Except (CommandError ε) Unit × AppendCursor)}

/-- Whatever becomes of the world. -/
theorem moved (h : Carries p env act x) (v : World) : Carries p env act { x with world := v } := by
  cases h with
  | program => exact .program { x with world := v }
  | append program tries =>
      exact .append (x := { x with world := v }) program tries
  | appendWith program tries =>
      exact .appendWith (x := { x with world := v }) program tries

/-- The next append of what is left is the one that the program makes next. -/
theorem appendsFirst (h : Carries p env act x) (w : World) :
    act.AppendsFirst w env.aggregate (x.program.nextAppend? env x.cursor) := by
  cases h with
  | append program tries =>
      rw [program]
      exact tries.appendsFirst _ w
  | appendWith program tries =>
      rw [program]
      exact tries.appendsFirst _ w
  | program =>
      obtain ⟨program, c, u⟩ := x
      induction program generalizing w with
      | done | stop | panic => rfl
      | env k ih => exact ih env w
      | appends k ih => exact ih c.appends w
      | append batch k =>
          rw [Program.run_append]
          exact (tries_retrying p _ batch _).appendsFirst _ w
      | appendWith batch o k =>
          rw [Program.run_appendWith]
          exact (tries_retrying p _ batch _).appendsFirst _ w
      | sleep ms k ih => exact ih _
      | note n k ih => exact ih _

end Carries

/-- An execution goes on, with these appends, to one of which an activity is left, in this world. -/
def Proceeds (p : Retry.Policy) (env : CommandEnv) (x : Execution ε) (calls : List AppendCall)
    (act : Activity (Except (CommandError ε) Unit × AppendCursor)) (v : World) : Prop :=
  ∃ steps y, Course env x steps y ∧ steps.filterMap (StoreStep.call? env.aggregate) = calls ∧
    Carries p env act y ∧ y.world = v

namespace Proceeds
variable {y : Execution ε} {d : StoreStep} {calls calls' : List AppendCall} {u v : World}
  {act act' : Activity (Except (CommandError ε) Unit × AppendCursor)}

theorem once (does : Does env x d y) (call : (d.call? env.aggregate).toList = calls)
    (carries : Carries p env act y) : Proceeds p env x calls act y.world :=
  ⟨[d], y, .step .start does, (StoreStep.calls_snoc _ [] d).trans call, carries, rfl⟩

/-- A step of the program that the store sees nothing of goes before. -/
theorem lead (own : Own env x .nothing y) (rest : Proceeds p env y calls act v) :
    Proceeds p env x calls act v := by
  obtain ⟨steps, z, course, rest⟩ := rest
  exact ⟨.nothing :: steps, z, (Course.start.step (.own own)).trans course, rest⟩

theorem next (h : Proceeds p env x calls act u)
    (step : ∀ y : Execution ε, Carries p env act y → y.world = u → Proceeds p env y calls' act' v) :
    Proceeds p env x (calls ++ calls') act' v := by
  obtain ⟨before, y, course, rfl, carries, world⟩ := h
  obtain ⟨after, z, more, rfl, rest⟩ := step y carries world
  exact ⟨before ++ after, z, course.trans more, List.filterMap_append, rest⟩

end Proceeds

/-- One step of an append that may be tried again is a pause, an attempt that fails and is made
again, or the attempt whose answer the handler gets. -/
theorem proceeds_of_tries {batch : List DomainEvent} {o : AppendOptions} {n : Nat}
    {k : Except StoreError Revision → Program ε} {left : Activity (Except StoreError Revision)}
    (tries : Activity.Tries env.aggregate batch o n left) {d : StoreStep}
    (made : Own env x d ⟨k (x.world.append env.aggregate batch o).1,
      x.cursor.after (x.world.append env.aggregate batch o).1,
      (x.world.append env.aggregate batch o).2⟩)
    (call : d.call? env.aggregate =
      some ⟨env.aggregate, batch, (x.world.append env.aggregate batch o).1⟩)
    (failed : ∀ e, (x.world.append env.aggregate batch o).1 = .error e → d.IsFailedAppend)
    (remains : ∀ {y : Execution ε} {m : Nat} {rest : Activity (Except StoreError Revision)},
      y.program = x.program → y.cursor = x.cursor →
        Activity.Tries env.aggregate batch o m rest →
        Carries p env (rest.bind (answered p env x.cursor k)) y)
    {act : Activity (Except (CommandError ε) Unit × AppendCursor)} {v : World}
    (h : Activity.Step (left.bind (answered p env x.cursor k)) x.world act v) :
    Proceeds p env x (((left.bind (answered p env x.cursor k)).asks x.world).map Attempt.call)
      act v := by
  have carries : Carries p env
      (answered p env x.cursor k (x.world.append env.aggregate batch o).1) _ :=
    .program ⟨k (x.world.append env.aggregate batch o).1,
      x.cursor.after (x.world.append env.aggregate batch o).1,
      (x.world.append env.aggregate batch o).2⟩
  have calls : (d.call? env.aggregate).toList =
      [(⟨x.world, env.aggregate, batch, o⟩ : Attempt).call] := by
    rw [call]
    rfl
  have pause (v : World) (quiet : x.world.Quiet v) (link : v.link = x.world.link) :
      Does env x .nothing { x with world := v } :=
    .meanwhile (.other x v quiet fun clear => link ▸ clear)
  cases tries with
  | last =>
      cases h
      exact .once (.own made) calls carries
  | @more m _ settled again =>
      cases h
      by_cases passes : ∃ e, (x.world.append env.aggregate batch o).1 = .error e ∧
          e.isTransient = true
      · obtain ⟨e, answer, transient⟩ := passes
        refine .once (.again made (failed e answer)) calls (remains (m := m) rfl ?_ ?_)
        · change x.cursor.after (x.world.append env.aggregate batch o).1 = _
          rw [answer]
          rfl
        · rw [answer]
          exact again e transient
      · have settles := settled (x.world.append env.aggregate batch o).1 fun e answer =>
          Bool.eq_false_iff.2 fun transient => passes ⟨e, answer, transient⟩
        refine .once (.own made) calls ?_
        dsimp only
        rw [settles]
        exact carries
  | share rest =>
      cases h
      exact .once (pause x.world.share.2 rfl rfl) rfl (remains rfl rfl (rest _))
  | count m rest =>
      cases h
      exact .once (pause (x.world.count m) rfl rfl) rfl (remains rfl rfl rest)
  | sleep ms rest =>
      cases h with
      | sleep _ t _ _ ht =>
          exact .once (pause { x.world with now := t } rfl rfl) rfl (remains rfl rfl rest)

section Step
variable {act act' : Activity (Except (CommandError ε) Unit × AppendCursor)} {v : World}

theorem proceeds_of_append {batch : List DomainEvent} {n : Nat}
    {k : Except StoreError Revision → Program ε} (program : x.program = .append batch k)
    {left : Activity (Except StoreError Revision)}
    (tries : Activity.Tries env.aggregate batch (x.cursor.trace env (.expect x.cursor.expected))
      n left)
    (h : Activity.Step (left.bind (answered p env x.cursor k)) x.world act v) :
    Proceeds p env x (((left.bind (answered p env x.cursor k)).asks x.world).map Attempt.call)
      act v := by
  refine proceeds_of_tries tries (.append x batch k program) rfl (fun e failed => ?_) ?_ h
  · change (x.append env batch).1 = _ at failed
    rw [failed]
    trivial
  · intro y m rest program' cursor tries
    rw [← cursor] at tries ⊢
    exact .append (program'.trans program) tries

theorem proceeds_of_appendWith {batch : List DomainEvent} {o : AppendOptions} {n : Nat}
    {k : Except StoreError Revision → Program ε} (program : x.program = .appendWith batch o k)
    {left : Activity (Except StoreError Revision)}
    (tries : Activity.Tries env.aggregate batch (x.cursor.trace env o) n left)
    (h : Activity.Step (left.bind (answered p env x.cursor k)) x.world act v) :
    Proceeds p env x (((left.bind (answered p env x.cursor k)).asks x.world).map Attempt.call)
      act v := by
  refine proceeds_of_tries tries (.appendWith x batch o k program) rfl (fun e failed => ?_) ?_ h
  · change (x.appendWith env batch o).1 = _ at failed
    rw [failed]
    trivial
  · intro y m rest program' cursor tries
    rw [← cursor] at tries ⊢
    exact .appendWith (program'.trans program) tries

/-- Whatever step is taken of what is left of an execution, the execution proceeds with it. -/
theorem proceeds_of_step (carries : Carries p env act x)
    (h : Activity.Step act x.world act' v) :
    Proceeds p env x ((act.asks x.world).map Attempt.call) act' v := by
  cases carries with
  | append program tries => exact proceeds_of_append program tries h
  | appendWith program tries => exact proceeds_of_appendWith program tries h
  | program =>
      obtain ⟨program, c, w⟩ := x
      induction program with
      | done | stop | panic => cases h
      | env k ih => exact .lead (.env k c w) (ih env h)
      | appends k ih => exact .lead (.appends k c w) (ih c.appends h)
      | append batch k ih =>
          rw [Program.run_append] at h ⊢
          exact proceeds_of_append rfl (tries_retrying p _ batch _) h
      | appendWith batch o k ih =>
          rw [Program.run_appendWith] at h ⊢
          exact proceeds_of_appendWith rfl (tries_retrying p _ batch _) h
      | sleep ms k ih =>
          cases h with
          | sleep _ t _ _ ht =>
              exact .once (.own (.sleep ms t k c w ht)) rfl (.program ⟨k, c, { w with now := t }⟩)
      | note n k ih =>
          cases h
          exact .once (.own (.note n k c w)) rfl (.program ⟨k, c, w.note n⟩)

/-- Whatever course is taken among others by what is left of an execution, the execution proceeds
with it. -/
theorem proceeds_of_among {ts : List Attempt} (carries : Carries p env act x)
    (h : act.Among World.Alongside x.world ts act' v) :
    Proceeds p env x (ts.map Attempt.call) act' v := by
  induction h with
  | start => exact ⟨[], x, .start, rfl, carries, rfl⟩
  | own _ step ih =>
      rw [List.map_append]
      refine ih.next fun y carries world => ?_
      subst world
      exact proceeds_of_step carries step
  | others _ change ih =>
      rw [← List.append_nil (List.map _ _)]
      refine ih.next fun y carries world => ?_
      subst world
      obtain ⟨d, between, silent⟩ := y.meanwhile_of_alongside change
      refine .once (.meanwhile between) ?_ (carries.moved _)
      rw [silent]
      rfl

end Step

/-- Whatever course a program takes among others, with its calls made directly or made again where
they fail, it is one of its executions, and the append that it makes next is the program's. -/
theorem course_of_among {s : StoreAccess} (access : s = .direct ∨ ∃ p, s = .retrying p .direct)
    {ts : List Attempt} {act : Activity (Except (CommandError ε) Unit × AppendCursor)} {v : World}
    (h : (x.program.run s env x.cursor).Among World.Alongside x.world ts act v) :
    ∃ steps y, Course env x steps y ∧
      steps.filterMap (StoreStep.call? env.aggregate) = ts.map Attempt.call ∧
      act.AppendsFirst v env.aggregate (y.program.nextAppend? env y.cursor) ∧ y.world = v := by
  obtain ⟨p, rfl⟩ : ∃ p, s = .retrying p .direct := by
    obtain rfl | again := access
    · exact ⟨{ limit := 1 }, rfl⟩
    · exact again
  obtain ⟨steps, y, course, calls, carries, world⟩ := proceeds_of_among (.program x) h
  exact ⟨steps, y, course, calls, carries.appendsFirst v, world⟩

end Retrying
end Execution
end EventSourcing
