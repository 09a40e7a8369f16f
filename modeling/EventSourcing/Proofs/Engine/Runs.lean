import EventSourcing.Engine.Command
import EventSourcing.Proofs.Engine.Work

/-!
Runs of an engine for commands.
What is due may be handled in any order, and calls may come at any time. The runs in which the
earliest goes first, as an engine does when it is left to itself, are among these.
-/
namespace EventSourcing

/-- The requests that are submitted when a signal is handled. -/
def Signal.submits : Signal → List Nat
  | .call r => [r]
  | _ => []

namespace Engine
variable {ρ : Type}

/-- When a signal is handled, no append is answered that there are no revisions. -/
def hasRoom (e : Engine ρ) : Signal → Bool
  | .work r =>
    match e.request? r with
    | some q => (q.next? e.now).all fun x => x.hasRoom q.cancelled e.world
    | none => true
  | _ => true

/-- What is submitted while an engine handles what is due. -/
def submissions (goal : Engine ρ → Bool) : Nat → Engine ρ → List Nat
  | 0, _ => []
  | fuel + 1, e =>
    if goal e then []
    else match e.agenda, e.step? with
      | d :: _, some e' => d.signal.submits ++ submissions goal fuel e'
      | _, _ => []

/-- While an engine handles what is due, no append is answered that there are no revisions. -/
def keepsRoom (goal : Engine ρ → Bool) : Nat → Engine ρ → Bool
  | 0, _ => true
  | fuel + 1, e =>
    goal e ||
      match e.agenda, e.step? with
      | d :: rest, some e' =>
        (e.taken [] rest (max e.now d.time)).hasRoom d.signal && keepsRoom goal fuel e'
      | _, _ => true

end Engine

namespace CommandEngine
variable {S ε : Type}

/-- The runs of an engine on a world that nobody else writes to, with the requests that have been
submitted. Calls are made in front or in the background at any time, and the pool is asked to shut
down; what is due is handled no earlier than that, in any order. Others may read the store and turn
the clock. -/
inductive Run (m : CommandEngine S ε) (calls : Nat → CommandCall) (w : World) :
    List Nat → Engine (CommandResult S ε) → Prop
  | start : Run m calls w [] (.ofWorld w m.config.pool)
  | call {submitted e} (foreground : Bool) (h : Run m calls w submitted e) :
      Run m calls w (submitted ++ [e.requests.length])
        ((e.add (m.request (calls e.requests.length) foreground)).2.onCall e.requests.length)
  | spawn {submitted e} (foreground : Bool) (h : Run m calls w submitted e) :
      Run m calls w submitted (e.spawn (m.request (calls e.requests.length) foreground)).2
  | due {submitted e before d after} (t : Nat) (h : Run m calls w submitted e)
      (ha : e.agenda = before ++ d :: after) (hnow : e.now ≤ t) (hdue : d.time ≤ t)
      (room : (e.taken before after t).hasRoom d.signal = true) :
      Run m calls w (submitted ++ d.signal.submits) ((e.taken before after t).handle d.signal)
  | shutDown {submitted e} (drain : Drain) (h : Run m calls w submitted e) :
      Run m calls w submitted ((e.addDrain drain).2.onClose (e.addDrain drain).1)
  | spawnShutDown {submitted e} (h : Run m calls w submitted e) :
      Run m calls w submitted e.spawnShutDown.2
  | aside {submitted e v} (h : Run m calls w submitted e) (same : e.world.Alike v) :
      Run m calls w submitted { e with world := v }

/-- An engine that is left to itself. -/
theorem Run.runFor {m : CommandEngine S ε} {calls : Nat → CommandCall} {w : World}
    {submitted : List Nat} {e : Engine (CommandResult S ε)} (h : m.Run calls w submitted e)
    (goal : Engine (CommandResult S ε) → Bool) (fuel : Nat) (room : e.keepsRoom goal fuel = true) :
    m.Run calls w (submitted ++ e.submissions goal fuel) (e.runFor goal fuel) := by
  induction fuel generalizing submitted e with
  | zero =>
      rw [Engine.submissions, List.append_nil]
      exact h
  | succ fuel ih =>
      rw [Engine.submissions, Engine.runFor]
      rw [Engine.keepsRoom, Bool.or_eq_true] at room
      by_cases reached : goal e = true
      · rw [if_pos reached, if_pos reached, List.append_nil]
        exact h
      · rw [if_neg reached, if_neg reached]
        cases ha : e.agenda with
        | nil =>
            have idle : e.step? = none := by rw [Engine.step?, ha]
            rw [idle]
            exact (List.append_nil submitted).symm ▸ h
        | cons d rest =>
            have step : e.step? =
                some ((e.taken [] rest (max e.now d.time)).handle d.signal) := by
              rw [Engine.step?, ha]
              rfl
            have roomy := room.resolve_left reached
            simp only [ha, step, Bool.and_eq_true] at roomy ⊢
            have first : e.agenda = [] ++ d :: rest := ha
            have next := h.due (max e.now d.time) first (Nat.le_max_left ..) (Nat.le_max_right ..)
              roomy.1
            rw [← List.append_assoc]
            exact ih next roomy.2

end CommandEngine
end EventSourcing
