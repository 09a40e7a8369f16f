import EventSourcing.Proofs.Engine.Lasting
import EventSourcing.Proofs.Engine.Serial

/-!
The course of an engine for commands.
An engine takes turns: in each it meets a signal, either one that is due or one that comes from
outside, and handles it. Between its turns calls and shutdowns are asked for in the background, and
others may do to the world what they like. A clock says which times the engine may see next; an engine
that is left to itself never lets time pass over what is due.
-/
namespace EventSourcing

/-- A signal with the engine that meets it. -/
structure Turn (ρ : Type) where
  engine : Engine ρ
  signal : Signal

namespace Turn
variable {ρ : Type}

def time (t : Turn ρ) : Nat := t.engine.now

def after (t : Turn ρ) : Engine ρ := t.engine.handle t.signal

/-- Whether the work of a request begins in the turn: it has not yet, and has not been asked to
stop. -/
def starts (t : Turn ρ) (r : Nat) : Bool :=
  decide (t.signal = .work r) && (t.engine.request? r).any fun q => q.isFresh && !q.cancelled

/-- The requests that are submitted in some turns. -/
def submitted (ts : List (Turn ρ)) : List Nat := ts.flatMap fun t => t.signal.submits

theorem submitted_concat (ts : List (Turn ρ)) (t : Turn ρ) :
    submitted (ts ++ [t]) = submitted ts ++ t.signal.submits := by
  simp [submitted]

theorem submitted_append (ts ts' : List (Turn ρ)) :
    submitted (ts ++ ts') = submitted ts ++ submitted ts' := List.flatMap_append

theorem mem_submitted {ts : List (Turn ρ)} {r : Nat} :
    r ∈ submitted ts ↔ ∃ c ∈ ts, c.signal = .call r := by
  rw [submitted, List.mem_flatMap]
  refine exists_congr fun c => and_congr_right fun _ => ?_
  cases c.signal <;> simp [Signal.submits, eq_comm]

end Turn

namespace Engine
variable {ρ : Type}

/-- Time does not pass over what is due. -/
def OnTime (e : Engine ρ) (t : Nat) : Prop := ∀ d ∈ e.agenda, t ≤ max e.now d.time

/-- The turns of an engine that handles what is due until it reaches a goal. -/
def turns (goal : Engine ρ → Bool) : Nat → Engine ρ → List (Turn ρ)
  | 0, _ => []
  | fuel + 1, e =>
    if goal e then []
    else match e.agenda with
      | [] => []
      | d :: rest =>
        let t : Turn ρ := ⟨e.taken [] rest (max e.now d.time), d.signal⟩
        t :: turns goal fuel t.after

end Engine

namespace CommandEngine
open Engine
variable {S ε : Type}

def limit (m : CommandEngine S ε) (c : CommandCall) : Nat :=
  c.limit.getD m.config.pool.defaultTimeout

/-- The turns that an engine may take: requests are made and called in front, what is due is handled,
in any order that the clock allows, and the pool is asked to shut down. -/
inductive Next (m : CommandEngine S ε) (calls : Nat → CommandCall)
    (clock : Engine (CommandResult S ε) → Nat → Prop) (e : Engine (CommandResult S ε)) :
    Turn (CommandResult S ε) → Prop
  | call (foreground : Bool) :
      Next m calls clock e
        ⟨(e.add (m.request (calls e.requests.length) foreground)).2, .call e.requests.length⟩
  | due {before d after} (t : Nat) (ha : e.agenda = before ++ d :: after) (later : e.now ≤ t)
      (hdue : d.time ≤ t) (allowed : clock e t) :
      Next m calls clock e ⟨e.taken before after t, d.signal⟩
  | close (drain : Drain) : Next m calls clock e ⟨(e.addDrain drain).2, .close e.drains.length⟩

/-- What may happen to an engine between its turns: calls and shutdowns are asked for in the
background, time passes, and others do to the world what they like. -/
inductive Between (m : CommandEngine S ε) (calls : Nat → CommandCall)
    (clock : Engine (CommandResult S ε) → Nat → Prop) (e : Engine (CommandResult S ε)) :
    Engine (CommandResult S ε) → Prop
  | spawn (foreground : Bool) :
      Between m calls clock e (e.spawn (m.request (calls e.requests.length) foreground)).2
  | spawnShutDown : Between m calls clock e e.spawnShutDown.2
  | aside (w : World) (later : e.now ≤ w.now) (allowed : clock e w.now) :
      Between m calls clock e { e with world := w }

/-- The turns that lead from one engine to another. -/
inductive Course (m : CommandEngine S ε) (calls : Nat → CommandCall)
    (clock : Engine (CommandResult S ε) → Nat → Prop) (e₀ : Engine (CommandResult S ε)) :
    List (Turn (CommandResult S ε)) → Engine (CommandResult S ε) → Prop
  | start : Course m calls clock e₀ [] e₀
  | turn {ts e t} (h : Course m calls clock e₀ ts e) (next : m.Next calls clock e t) :
      Course m calls clock e₀ (ts ++ [t]) t.after
  | between {ts e e'} (h : Course m calls clock e₀ ts e) (between : m.Between calls clock e e') :
      Course m calls clock e₀ ts e'

variable {m : CommandEngine S ε} {calls : Nat → CommandCall}
  {clock : Engine (CommandResult S ε) → Nat → Prop} {e₀ e e' : Engine (CommandResult S ε)}
  {ts ts' : List (Turn (CommandResult S ε))} {t : Turn (CommandResult S ε)} {sent : List Nat}

theorem Course.trans (h : m.Course calls clock e₀ ts e) (h' : m.Course calls clock e ts' e') :
    m.Course calls clock e₀ (ts ++ ts') e' := by
  induction h' with
  | start =>
      rw [List.append_nil]
      exact h
  | turn _ next ih =>
      rw [← List.append_assoc]
      exact ih.turn next
  | between _ between ih => exact ih.between between

theorem Course.mono {clock' : Engine (CommandResult S ε) → Nat → Prop}
    (h : m.Course calls clock e₀ ts e) (more : ∀ e t, clock e t → clock' e t) :
    m.Course calls clock' e₀ ts e := by
  induction h with
  | start => exact .start
  | turn _ next ih =>
      refine ih.turn ?_
      cases next with
      | call foreground => exact .call foreground
      | due t ha later hdue allowed => exact .due t ha later hdue (more _ t allowed)
      | close drain => exact .close drain
  | between _ between ih =>
      refine ih.between ?_
      cases between with
      | spawn foreground => exact .spawn foreground
      | spawnShutDown => exact .spawnShutDown
      | aside w later allowed => exact .aside w later (more _ w.now allowed)

/-- The engine is in order, as it is between its turns. -/
structure Steady (m : CommandEngine S ε) (calls : Nat → CommandCall) (sent : List Nat)
    (e : Engine (CommandResult S ε)) : Prop where
  order : Orderly (fun r => (calls r).aggregate) e sent none
  tame : e.Tame (fun r => m.limit (calls r)) sent

/-- The engine is in order, as it is when it meets a signal. -/
structure Facing (m : CommandEngine S ε) (calls : Nat → CommandCall) (sent : List Nat)
    (t : Turn (CommandResult S ε)) : Prop where
  order : Orderly (fun r => (calls r).aggregate) t.engine sent t.signal.served
  tame : t.engine.Tame (fun r => m.limit (calls r)) sent
  fit : t.engine.Meets sent t.signal

theorem steady_start (w : World) : m.Steady calls [] (.ofWorld w m.config.pool) :=
  ⟨orderly_ofWorld w m.config.pool, tame_ofWorld w m.config.pool⟩

namespace Steady

theorem add (h : m.Steady calls sent e) (foreground : Bool) :
    m.Steady calls sent (e.add (m.request (calls e.requests.length) foreground)).2 where
  order := h.order.add rfl (m.request_fits _ _) rfl
  tame := h.tame.add rfl ⟨rfl, rfl⟩ rfl

theorem facing (h : m.Steady calls sent e) (next : m.Next calls clock e t) :
    m.Facing calls sent t := by
  cases next with
  | call foreground =>
      obtain ⟨order, tame⟩ := h.add foreground
      obtain ⟨fresh, uncalled⟩ := h.order.uncalled
      refine ⟨order, tame, fun r hr => ?_, fun r hr => ?_, fun r hr => ?_⟩
      · cases hr
        refine ⟨fresh, ?_, uncalled⟩
        rw [request?_add, if_pos rfl]
        rfl
      · cases hr
      · cases hr
  | @due before d after t ha later hdue allowed =>
      refine ⟨h.order.pop ha t, ?_, fun r hr => ?_, fun r hr => ?_, fun r hr q hq fresh => ?_⟩
      · have rest : (before ++ after).Sublist e.agenda := by
          rw [ha]
          exact (List.sublist_cons_self d after).append_left before
        exact ⟨h.tame.limits, h.tame.unreplied, fun d' hd' => h.tame.callers d' (rest.subset hd'),
          h.tame.sorted.sublist rest, h.tame.seated⟩
      · exact h.order.called ha t hr
      · exact h.tame.callers d (by rw [ha]; simp) r hr
      · exact h.order.ready ha hr hq fresh
  | close drain =>
      refine ⟨h.order.alike (alike_aside _ _ _ ⟨rfl, id, rfl⟩), ?_, ?_, ?_, ?_⟩
      · exact ⟨h.tame.limits, h.tame.unreplied, h.tame.callers, h.tame.sorted, h.tame.seated⟩
      · intro r hr
        cases hr
      · intro r hr
        cases hr
      · intro r hr
        cases hr

theorem between (h : m.Steady calls sent e) (between : m.Between calls clock e e') :
    m.Steady calls sent e' := by
  cases between with
  | spawn foreground =>
      obtain ⟨order, tame⟩ := h.add foreground
      obtain ⟨fresh, uncalled⟩ := h.order.uncalled
      refine ⟨order.schedule_call .background ?_ fresh uncalled, tame.schedule _ _ (by simp)⟩
      rw [request?_add, if_pos rfl]
      rfl
  | spawnShutDown =>
      have tame : (e.addDrain { foreground := false }).2.Tame (fun r => m.limit (calls r)) sent :=
        ⟨h.tame.limits, h.tame.unreplied, h.tame.callers, h.tame.sorted, h.tame.seated⟩
      refine ⟨?_, tame.schedule _ _ (by simp)⟩
      have added := h.order.alike
        (e.alike_aside e.pool (e.addDrain { foreground := false }).2.drains ⟨rfl, id, rfl⟩)
      exact added.alike (alike_wake _ _ trivial)
  | aside w later allowed =>
      refine ⟨⟨?_, h.order.cut⟩, ?_⟩
      · exact ⟨h.order.routes, h.order.made, h.order.once, h.order.calls, h.order.known,
          h.order.fits, h.order.unsent, h.order.alive⟩
      · exact ⟨h.tame.limits, h.tame.unreplied, h.tame.callers, h.tame.sorted, h.tame.seated⟩

end Steady

theorem Facing.changes (h : m.Facing calls sent t) :
    Changes (sent ++ t.signal.submits) (t.engine.noted t.signal) t.after :=
  changes_handle h.order h.fit fun r q hr hq => (h.tame.unreplied r q hr hq).1

theorem Facing.after (h : m.Facing calls sent t) :
    m.Steady calls (sent ++ t.signal.submits) t.after where
  order := (h.order.handle h.fit).1
  tame := h.changes.tame ((h.tame.noted t.signal).more (List.subset_append_left ..))

theorem Course.steady (course : m.Course calls clock e₀ ts e) (start : m.Steady calls sent e₀) :
    m.Steady calls (sent ++ Turn.submitted ts) e := by
  induction course with
  | start => simpa [Turn.submitted] using start
  | turn _ next ih =>
      rw [Turn.submitted_concat, ← List.append_assoc]
      exact (ih.facing next).after
  | between _ between ih => exact ih.between between

theorem Next.goesOn (next : m.Next calls clock e t) : GoesOn sent e t.engine := by
  cases next with
  | call foreground => exact e.goesOn_add _
  | due t ha later => exact .of_requests later fun _ _ hq => hq
  | close drain => exact .of_requests (Nat.le_refl _) fun _ _ hq => hq

theorem Facing.goesOn (h : m.Facing calls sent t) : GoesOn sent t.engine t.after := by
  refine GoesOn.trans ?_ h.changes.goesOn (List.Subset.refl sent)
  cases hs : t.signal with
  | call r =>
      refine .move fun q _ => ⟨rfl, fun called => ?_, id, fun _ => id, fun _ => id⟩
      exact absurd called (h.fit.call r hs).1
  | work r =>
      rw [Engine.noted]
      cases hq : t.engine.request? r with
      | none => exact .of_requests (Nat.le_refl _) fun _ _ hq => hq
      | some q =>
          dsimp only
          split
          · rename_i starting
            refine .move fun q' hq' => ⟨rfl, fun _ => rfl, id, fun t ht => ?_, fun _ => id⟩
            rw [hq, Option.some.injEq] at hq'
            rw [← hq', (h.order.fits r q hq).fresh starting.1] at ht
            cases ht
          · exact .of_requests (Nat.le_refl _) fun _ _ hq => hq
  | caller | worker | slot | outcome | close | drained =>
      exact .of_requests (Nat.le_refl _) fun _ _ hq => hq

theorem Between.goesOn (between : m.Between calls clock e e') : GoesOn sent e e' := by
  cases between with
  | spawn foreground =>
      exact (e.goesOn_add _).trans (.of_requests (Nat.le_refl _) fun _ _ hq => hq)
        (List.Subset.refl sent)
  | spawnShutDown => exact .of_requests (Nat.le_refl _) fun _ _ hq => hq
  | aside w later => exact .of_requests later fun _ _ hq => hq

theorem Course.goesOn (course : m.Course calls clock e₀ ts e) (start : m.Steady calls sent e₀) :
    GoesOn sent e₀ e := by
  induction course with
  | start => exact .of_requests (Nat.le_refl _) fun _ _ hq => hq
  | turn course next ih =>
      have facing := (course.steady start).facing next
      exact ih.trans (next.goesOn.trans facing.goesOn (List.Subset.refl _))
        (List.subset_append_left ..)
  | between _ between ih => exact ih.trans between.goesOn (List.Subset.refl _)

/-- An engine that is left to itself takes the course that the clock allows it. -/
theorem Course.runFor (goal : Engine (CommandResult S ε) → Bool) (fuel : Nat)
    (start : m.Steady calls sent e) :
    m.Course calls OnTime e (e.turns goal fuel) (e.runFor goal fuel) := by
  induction fuel generalizing e sent with
  | zero => exact .start
  | succ fuel ih =>
      rw [Engine.turns, Engine.runFor]
      split
      · exact .start
      · rw [step?]
        cases ha : e.agenda with
        | nil => exact .start
        | cons d rest =>
            let t : Turn (CommandResult S ε) := ⟨e.taken [] rest (max e.now d.time), d.signal⟩
            have first : m.Next calls OnTime e t := by
              refine .due (max e.now d.time) ha (Nat.le_max_left ..) (Nat.le_max_right ..) ?_
              intro d' hd'
              have sorted := start.tame.sorted
              rw [ha] at sorted hd'
              obtain rfl | later := List.mem_cons.1 hd'
              · exact Nat.le_refl _
              · have after := (List.pairwise_cons.1 sorted).1 d' later
                omega
            have taken : m.Course calls OnTime e ([] ++ [t]) t.after := Course.start.turn first
            exact taken.trans (ih (start.facing first).after)

end CommandEngine
end EventSourcing
