import Mathlib.Data.List.Dedup
import Mathlib.Data.List.Perm.Subperm
import EventSourcing.Proofs.Engine.Course

/-!
Aggregates are held.
Of the commands for one aggregate only one at a time is past the head of its lane, until its work has
really stopped, and they come there in the order in which they were submitted. An aggregate therefore
takes at most one place in the pool.
-/
namespace EventSourcing

namespace Engine
variable {ρ : Type} {lane : Nat → AggregateId} {e : Engine ρ} {sent : List Nat} {r r' : Nat}

/-- Whether a request is past the head of its lane: it waits for a slot or holds one, or its work has
begun and has not stopped. -/
def IsPastHead (e : Engine ρ) (r : Nat) : Prop :=
  r ∈ e.pool.line ∨ r ∈ e.pool.handed ∨ r ∈ e.pool.running ∨
    ∃ q, e.request? r = some q ∧ q.begun.isSome ∧ q.hasEnded = false

/-- The requests that have been submitted and are not over. -/
def unfinished (e : Engine ρ) (sent : List Nat) : List Nat :=
  sent.filter fun r => (e.request? r).any fun q => match q.stage with
    | .over => false
    | _ => true

def busy (lane : Nat → AggregateId) (e : Engine ρ) (sent : List Nat) : List AggregateId :=
  ((e.unfinished sent).map lane).dedup

theorem mem_busy (h : Doing lane e sent r) (order : Orderly lane e sent none) :
    lane r ∈ e.busy lane sent := by
  obtain ⟨q, hq⟩ := h.request order
  have goes := h.unfinished
  rw [stage?_eq hq] at goes
  rw [busy, List.mem_dedup]
  refine List.mem_map_of_mem (List.mem_filter.2 ⟨h.sent, ?_⟩)
  rw [hq, Option.any_some]
  split
  · rename_i isOver
    exact absurd (congrArg some isOver) goes
  · rfl

/-- A request that is past the head of its lane is the one that is being done there. -/
theorem IsPastHead.doing (h : e.IsPastHead r) (order : Orderly lane e sent none)
    (seated : e.Seated) : Doing lane e sent r := by
  have placed {q : Request ρ} (hq : e.request? r = some q)
      (place : q.stage = .running ∨ ∃ o, q.stage = .overrun o) : Doing lane e sent r := by
    obtain running | ⟨o, overran⟩ := place
    · exact order.doing hq (by simp [running]) (by simp [running])
    · exact order.doing hq (by simp [overran]) (by simp [overran])
  have waiting (hr : r ∈ e.pool.line ++ e.pool.handed) : Doing lane e sent r := by
    obtain ⟨q, hq, stage⟩ := Option.map_eq_some_iff.1 (seated.waits r hr)
    exact order.doing hq (by simp [stage]) (by simp [stage])
  obtain line | handed | running | ⟨q, hq, begun, goes⟩ := h
  · exact waiting (List.mem_append_left _ line)
  · exact waiting (List.mem_append_right _ handed)
  · obtain ⟨q, hq, place⟩ := (seated.runs r).1 running
    exact placed hq place.1
  · have fits := order.fits r q hq
    refine placed hq (fits.place (fun fresh => ?_) (by simp [goes]))
    rw [fits.fresh fresh] at begun
    cases begun

theorem Doing.eq (h : Doing lane e sent r) (h' : Doing lane e sent r')
    (order : Orderly lane e sent none) (same : lane r = lane r') : r = r' := by
  obtain ⟨past, hcut, hpast, _⟩ := h.cut order
  have here : r' ∈ sent.filter fun x => lane x = lane r := by
    rw [List.mem_filter]
    exact ⟨h'.sent, by simpa using same.symm⟩
  rw [hcut, List.mem_append, List.mem_append, List.mem_singleton] at here
  obtain (hr | hr) | hr := here
  · exact absurd (hpast r' hr) h'.unfinished
  · exact hr.symm
  · rw [same] at hr
    exact absurd hr h'.taken

/-- Each place in the pool belongs to another aggregate. -/
theorem places_le_busy (order : Orderly lane e sent none) (seated : e.Seated) :
    (e.pool.line ++ e.pool.handed ++ e.pool.running).length ≤ (e.busy lane sent).length := by
  have doing {r : Nat} (hr : r ∈ e.pool.line ++ e.pool.handed ++ e.pool.running) :
      Doing lane e sent r := by
    refine IsPastHead.doing ?_ order seated
    simp only [List.mem_append] at hr
    obtain (hr | hr) | hr := hr
    · exact .inl hr
    · exact .inr (.inl hr)
    · exact .inr (.inr (.inl hr))
  have apart : ((e.pool.line ++ e.pool.handed ++ e.pool.running).map lane).Nodup :=
    seated.once.map_on fun r hr r' hr' same => (doing hr).eq (doing hr') order same
  have known : (e.pool.line ++ e.pool.handed ++ e.pool.running).map lane ⊆ e.busy lane sent := by
    intro a ha
    obtain ⟨r, hr, rfl⟩ := List.mem_map.1 ha
    exact mem_busy (doing hr) order
  have places := (List.subperm_of_subset apart known).length_le
  rwa [List.length_map] at places

/-- What is done later in a lane was submitted later. -/
theorem Doing.after {e' : Engine ρ} {more : List Nat} (h : Doing lane e sent r)
    (order : Orderly lane e sent none) (h' : Doing lane e' (sent ++ more) r')
    (on : GoesOn sent e e') (same : lane r = lane r') :
    r = r' ∨ [r, r'].Sublist (sent ++ more) := by
  obtain ⟨past, hcut, hpast, _⟩ := h.cut order
  have here : r' ∈ (sent ++ more).filter fun x => lane x = lane r := by
    rw [List.mem_filter]
    exact ⟨h'.sent, by simpa using same.symm⟩
  have split : (sent ++ more).filter (fun x => lane x = lane r) =
      past ++ r :: (e.queue (lane r) ++ more.filter fun x => lane x = lane r) := by
    rw [List.filter_append, hcut]
    simp
  have gone : r' ∉ past := by
    intro hr
    obtain ⟨q, hq, isOver⟩ := Option.map_eq_some_iff.1 (hpast r' hr)
    obtain ⟨q', hq', goesOn⟩ := on.requests r' q hq
    refine h'.unfinished ?_
    rw [stage?_eq hq', goesOn.isOver isOver]
  rw [split, List.mem_append, List.mem_cons] at here
  obtain hr | hr | hr := here
  · exact absurd hr gone
  · exact .inl hr.symm
  · refine .inr (List.Sublist.trans ?_ (List.filter_sublist (p := fun x => lane x = lane r)))
    rw [split]
    exact ((List.singleton_sublist.2 hr).cons_cons r).trans (List.sublist_append_right _ _)

end Engine

namespace CommandEngine
open Engine
variable {S ε : Type} {m : CommandEngine S ε} {calls : Nat → CommandCall}
  {e : Engine (CommandResult S ε)} {ts : List (Turn (CommandResult S ε))}

/-- However calls, timeouts, breakdowns and shutdowns fall, and whatever the clock does, an aggregate
is held by one command until its work has really stopped, the commands of an aggregate come past the
head of their lane in the order in which they were submitted, and the places that are taken in the
pool, running or waiting, are no more than there are aggregates with commands that are not over. -/
theorem aggregates_are_held_by_one (w : World)
    (course : m.Course calls (fun _ _ => True) (.ofWorld w m.config.pool) ts e) :
    let lane := fun r => (calls r).aggregate
    (∀ r r', e.IsPastHead r → e.IsPastHead r' → lane r = lane r' → r = r') ∧
      (∀ ts' e', m.Course calls (fun _ _ => True) e ts' e' →
        ∀ r r', e.IsPastHead r → e'.IsPastHead r' → lane r = lane r' →
          r = r' ∨ [r, r'].Sublist (Turn.submitted (ts ++ ts'))) ∧
      e.pool.inFlight + e.pool.waiting ≤ (e.busy lane (Turn.submitted ts)).length ∧
      e.pool.config.slots - e.pool.free + e.pool.line.length ≤
        (e.busy lane (Turn.submitted ts)).length := by
  intro lane
  have steady : m.Steady calls (Turn.submitted ts) e := course.steady (steady_start w)
  have places : (e.pool.line ++ e.pool.handed ++ e.pool.running).length ≤
      (e.busy lane (Turn.submitted ts)).length := places_le_busy steady.order steady.tame.seated
  rw [List.length_append, List.length_append] at places
  refine ⟨fun r r' hr hr' same => ?_, fun ts' e' course' r r' hr hr' same => ?_, ?_, ?_⟩
  · have doing := hr.doing steady.order steady.tame.seated
    exact doing.eq (hr'.doing steady.order steady.tame.seated) steady.order same
  · have steady' := course'.steady steady
    rw [Turn.submitted_append]
    have doing := hr.doing steady.order steady.tame.seated
    exact doing.after steady.order (hr'.doing steady'.order steady'.tame.seated)
      (course'.goesOn steady) same
  · rw [Pool.inFlight, Pool.waiting]
    omega
  · have slots := steady.tame.seated.slots
    omega

/-- A command that has overrun its time holds its aggregate and the only slot, while another command
of the aggregate waits for it in the lane and one of another aggregate in the line of the pool. -/
theorem overrun_command_holds_its_aggregate :
    let a : AggregateId := ⟨"job", "a"⟩
    let b : AggregateId := ⟨"job", "b"⟩
    let d : Description Unit Unit := ((Description.ofType "job").withSeed fun _ => ()).withCommand
      "wait" .any (fun _ => .ok ()) fun _ _ => .sleep 50 .done
    let m : CommandEngine Unit Unit := ⟨{ pool.maxConcurrency := 1 }, d, .direct⟩
    let calls : Nat → CommandCall
      | 0 => ⟨a, "wait", .null, some 10, none⟩
      | 1 => ⟨a, "wait", .null, none, none⟩
      | _ => ⟨b, "wait", .null, none, none⟩
    let w : World := { readings := fun n => ⟨n, 0⟩, shares := fun _ => 0 }
    ∃ ts e, m.Course calls (fun _ _ => True) (.ofWorld w m.config.pool) ts e ∧
      Turn.submitted ts = [0, 1, 2] ∧
      (e.answer? 0).map (fun a => (a.1, a.2 matches .error (.pool (.timeout 10)))) =
        some (10, true) ∧
      e.IsPastHead 0 ∧ e.IsPastHead 2 ∧ (e.IsPastHead 1 → (1 : Nat) = 0) ∧
      e.pool.inFlight + e.pool.waiting = 2 ∧
      e.pool.inFlight + e.pool.waiting ≤
        (e.busy (fun r => (calls r).aggregate) (Turn.submitted ts)).length := by
  intro a b d m calls w
  let called (e : Engine _) : Engine _ := (e.spawn (m.request (calls e.requests.length) false)).2
  let e₃ := called (called (called (.ofWorld w m.config.pool)))
  let goal : Engine (CommandResult Unit Unit) → Bool := quietBefore 20
  have spawned : m.Course calls (fun _ _ => True) (.ofWorld w m.config.pool) [] e₃ :=
    ((Course.start.between (.spawn false)).between (.spawn false)).between (.spawn false)
  have steady := spawned.steady (steady_start w)
  have course := spawned.trans ((Course.runFor goal 40 steady).mono fun _ _ _ => trivial)
  have held := aggregates_are_held_by_one w course
  refine ⟨_, _, course, by decide +kernel, by decide +kernel, ?_, ?_, fun head => ?_, by decide +kernel,
    held.2.2.1⟩
  · exact .inr (.inr (.inl (by decide +kernel)))
  · exact .inl (by decide +kernel)
  · exact held.1 1 0 head (.inr (.inr (.inl (by decide +kernel)))) rfl

end CommandEngine
end EventSourcing
