import EventSourcing.Proofs.Lane.Turns

/-!
Serial work.
Jobs are submitted for any aggregates at any time. The worker of a lane looks for the next job without
the lock; where it finds none it looks once more under the lock, takes a job that has come in between,
or gives up the lane. A job that was submitted is neither lost nor run twice, the jobs of an aggregate
run one after the other in the order in which they were submitted, and each caller gets what came of
its own job.
-/
namespace EventSourcing

theorem Assoc.size_eq_zero {κ ν : Type} [DecidableEq κ] {m : Assoc κ ν}
    (none : ∀ k, m.get? k = none) : m.size = 0 := by
  obtain ⟨entries⟩ := m
  cases entries with
  | nil => rfl
  | cons first rest =>
      have found := none first.1
      rw [get?, lookup, if_pos rfl] at found
      cases found

namespace Engine
variable {ρ : Type}

/-- The jobs of an aggregate whose work has begun and has not stopped. -/
def underway (e : Engine ρ) (a : AggregateId) : List Nat :=
  e.requestsWith fun q => q.route = .lane a && q.begun.isSome && !q.hasEnded

/-- What has come of a job. -/
def result? (e : Engine ρ) (r : Nat) : Option (Ending ρ) := (e.request? r).bind Request.result

end Engine

namespace LaneTraffic
open Engine
variable {ρ : Type} {lane : Nat → AggregateId} {clock : Engine ρ → Nat → Prop}

/-- The turns that lead from one engine to another, and the workers that have found no job. A worker
that finds one takes it; one that has found none takes its turn under the lock. -/
inductive Course (lane : Nat → AggregateId) (clock : Engine ρ → Nat → Prop) (e₀ : Engine ρ) :
    List (Turn ρ) → Engine ρ → List AggregateId → Prop
  | start : Course lane clock e₀ [] e₀ []
  | look {ts e looked a} (h : Course lane clock e₀ ts e looked) (live : 0 < e.due (.worker a))
      (none : e.lanes.take? a = none) : Course lane clock e₀ ts e (a :: looked)
  | turn {ts e looked t} (h : Course lane clock e₀ ts e looked)
      (next : Next (Laning lane) clock e t)
      (found : ∀ a, t.signal = .worker a → (t.engine.lanes.take? a).isSome ∨ a ∈ looked) :
      Course lane clock e₀ (ts ++ [t]) t.after (looked.filter fun a => t.signal ≠ .worker a)
  | between {ts e e' looked} (h : Course lane clock e₀ ts e looked)
      (between : Between (Laning lane) clock e e') : Course lane clock e₀ ts e' looked

variable {e e₀ : Engine ρ} {sent : List Nat} {t : Turn ρ} {ts : List (Turn ρ)} {r : Nat}
  {q : Request ρ} {a : AggregateId} {looked : List AggregateId}

namespace Course

theorem order (start : Orderly lane e₀ [] none) (course : Course lane clock e₀ ts e looked) :
    Orderly lane e (Turn.submitted ts) none := by
  induction course with
  | start => exact start
  | look _ _ _ ih => exact ih
  | between _ between ih => exact (ih.between between).1
  | turn _ next _ ih =>
      obtain ⟨order, meets, _⟩ := ih.next next
      rw [Turn.submitted_concat]
      exact (order.handle meets).1

/-- The jobs that have begun are those that were submitted, in their order, without those that still
stand in a queue. -/
theorem in_order (start : Orderly lane e₀ [] none) (empty : ∀ a, e₀.queue a = [])
    (course : Course lane clock e₀ ts e looked) (a : AggregateId) :
    (ts.flatMap Turn.begins).filter (lane · = a) ++ e.queue a =
      (Turn.submitted ts).filter (lane · = a) := by
  induction course with
  | start => exact empty a
  | look _ _ _ ih => exact ih
  | between course between ih =>
      rw [((order start course).between between).2 a]
      exact ih
  | @turn ts e _ t course next _ ih =>
      obtain ⟨order, meets, queue⟩ := (order start course).next next
      have effect : Effect lane t.engine t.after t.signal := (order.handle meets).2
      have moved := begins_in_order effect a
      rw [queue] at moved
      rw [Turn.submitted_concat, List.flatMap_append, List.flatMap_singleton, List.filter_append,
        List.filter_append, List.append_assoc, moved, ← List.append_assoc, ih]

theorem effects (start : Orderly lane e₀ [] none) (course : Course lane clock e₀ ts e looked)
    (ht : t ∈ ts) : Effect lane t.engine t.after t.signal := by
  induction course with
  | start => cases ht
  | look _ _ _ ih => exact ih ht
  | between _ _ ih => exact ih ht
  | turn course next _ ih =>
      obtain before | last := List.mem_append.1 ht
      · exact ih before
      · obtain ⟨steady, meets, _⟩ := (order start course).next next
        rw [List.mem_singleton.1 last]
        exact (steady.handle meets).2

/-- A worker may look twice at once. -/
theorem step (course : Course lane clock e₀ ts e looked) (next : Next (Laning lane) clock e t) :
    ∃ looked', Course lane clock e₀ (ts ++ [t]) t.after looked' := by
  by_cases found : ∀ a, t.signal = .worker a → (t.engine.lanes.take? a).isSome
  · exact ⟨_, course.turn next fun a ha => .inl (found a ha)⟩
  · obtain ⟨a, missing⟩ := not_forall.1 found
    obtain ⟨ha, none⟩ := Classical.not_imp.1 missing
    have nothing : t.engine.lanes.take? a = Option.none := by simpa using none
    have ready : 0 < e.due (.worker a) ∧ e.lanes.take? a = Option.none := by
      cases next with
      | call | close => cases ha
      | @due before d after t hd later hdue allowed =>
          have due := due_taken hd t (.worker a)
          rw [if_pos ha] at due
          exact ⟨by omega, nothing⟩
    refine ⟨_, (course.look ready.1 ready.2).turn next fun b hb => .inr ?_⟩
    rw [ha] at hb
    cases hb
    exact List.mem_cons_self

theorem runFor (course : Course lane clock e₀ ts e looked) (free : ∀ e t, clock e t)
    (goal : Engine ρ → Bool) (fuel : Nat) :
    ∃ looked', Course lane clock e₀ (ts ++ e.turns goal fuel) (e.runFor goal fuel) looked' := by
  refine keeps_runFor (P := fun ts e => ∃ looked, Course lane clock e₀ ts e looked) ⟨_, course⟩
    (fun ts e d rest ha course => ?_) goal fuel
  obtain ⟨_, course⟩ := course
  exact course.step (.due _ ha (Nat.le_max_left ..) (Nat.le_max_right ..) (free _ _))

end Course

section Rest
variable (h : Orderly lane e sent none)
include h

theorem Orderly.mem_underway : r ∈ e.underway a ↔
    r ∈ sent ∧ lane r = a ∧ ∃ q, e.request? r = some q ∧ q.stage = .running := by
  rw [Engine.underway, mem_requestsWith]
  constructor
  · rintro ⟨q, hq, busy⟩
    simp only [Bool.and_eq_true, decide_eq_true_eq, Bool.not_eq_true',
      Option.isSome_iff_ne_none] at busy
    obtain ⟨⟨route, begun⟩, goes⟩ := busy
    have ours : lane r = a := by
      rw [(h.routes r q hq).1] at route
      exact Route.lane.inj route
    cases h.jobs r q hq with
    | queued _ _ idle => exact absurd idle begun
    | finished o _ _ work => simp [Request.hasEnded, work] at goes
    | running stage =>
        refine ⟨?_, ours, q, hq, stage⟩
        by_contra unsent
        have pending := h.unsent r q hq unsent
        simp [stage] at pending
  · rintro ⟨_, ours, q, hq, stage⟩
    refine ⟨q, hq, ?_⟩
    cases h.jobs r q hq with
    | queued pending => simp [stage] at pending
    | finished _ isOver => simp [stage] at isOver
    | running _ begun goes =>
        simp [(h.routes r q hq).1, ours, goes, Option.isSome_iff_ne_none, begun]

/-- A lane has one worker, which either is about to look or does the job that runs. -/
theorem Orderly.workers (a : AggregateId) :
    e.due (.worker a) + (e.underway a).length = e.staff a := by
  obtain ⟨past, doing, hcut, hpast, hdoing, hqueue, hcount⟩ := h.cut a
  have once : (past ++ doing ++ e.queue a).Nodup := by
    rw [← hcut]
    exact h.booked.once.filter _
  have same (r : Nat) : r ∈ doing ↔ r ∈ e.underway a := by
    rw [h.mem_underway]
    constructor
    · intro hr
      obtain ⟨called, ours⟩ := Cut.mem_submitted hcut (.inr (.inl hr))
      obtain ⟨q, hq⟩ := Option.isSome_iff_exists.1 (h.booked.made r called)
      refine ⟨called, ours, q, hq, ?_⟩
      cases h.jobs r q hq with
      | running stage => exact stage
      | finished _ stage => exact absurd ((stage?_eq hq).trans (congrArg some stage)) (hdoing r hr)
      | queued stage =>
          have waits := h.placed r called ((stage?_eq hq).trans (congrArg some stage))
          rw [ours] at waits
          have apart := (List.nodup_append.1 once).2.2
          exact absurd rfl (apart r (List.mem_append_right _ hr) r waits)
    · rintro ⟨called, ours, q, hq, stage⟩
      have running : e.stage? r = some .running := (stage?_eq hq).trans (congrArg some stage)
      obtain isPast | isDoing | isQueued := Cut.mem_part hcut called ours
      · have isOver := hpast r isPast
        simp [running] at isOver
      · exact isDoing
      · have pending := hqueue r isQueued
        simp [running] at pending
  have nodup : doing.Nodup := (List.nodup_append.1 (List.nodup_append.1 once).1).2.1
  have length : doing.length = (e.underway a).length := List.Perm.length_eq
    ((List.perm_ext_iff_of_nodup nodup (nodup_requestsWith _ _)).2 same)
  rw [← length, ← hcount]
  rfl

/-- Where no worker has anything left to do, there is no lane, and all jobs that were submitted are
over. -/
theorem Orderly.at_rest (workers : ∀ a, e.due (.worker a) = 0) (works : ∀ r, e.due (.work r) = 0) :
    (∀ a, e.lanes.get? a = none) ∧ (∀ a, e.queue a = []) ∧ ∀ r ∈ sent, (e.result? r).isSome := by
  have nobody (a : AggregateId) : e.underway a = [] := by
    rw [List.eq_nil_iff_forall_not_mem]
    intro r hr
    obtain ⟨_, _, q, hq, stage⟩ := h.mem_underway.1 hr
    cases h.jobs r q hq with
    | queued pending => simp [stage] at pending
    | finished _ isOver => simp [stage] at isOver
    | running _ _ _ _ _ ahead =>
        have undue := works r
        simp [Engine.ahead, undue] at ahead
  have closed (a : AggregateId) : e.lanes.get? a = none := by
    have staff := h.workers a
    rw [workers, nobody, Engine.staff] at staff
    by_contra some
    rw [if_pos (Option.isSome_iff_ne_none.2 some)] at staff
    cases staff
  have empty (a : AggregateId) : e.queue a = [] := by
    rw [queue, closed]
    rfl
  refine ⟨closed, empty, fun r called => ?_⟩
  obtain ⟨q, hq⟩ := Option.isSome_iff_exists.1 (h.booked.made r called)
  rw [result?, hq, Option.bind_some]
  cases h.jobs r q hq with
  | finished o _ _ _ result => rw [result]; rfl
  | running stage =>
      have busy : r ∈ e.underway (lane r) := h.mem_underway.2 ⟨called, rfl, q, hq, stage⟩
      rw [nobody] at busy
      cases busy
  | queued stage =>
      have waits := h.placed r called ((stage?_eq hq).trans (congrArg some stage))
      rw [empty] at waits
      cases waits

/-- What has come of a job is what its work has come to, and its caller has been told just this, or
will be. -/
theorem Orderly.delivers (hq : e.request? r = some q) :
    (∀ o, q.result = some o ↔ q.work = .ended o) ∧
      (∀ t o, q.answer = some (t, o) → q.result = some o) ∧
      (q.result ≠ none → q.answer ≠ none ∨ 0 < e.due (.caller r)) := by
  cases h.jobs r q hq with
  | queued _ fresh _ result answer =>
      refine ⟨fun o => iff_of_false (by simp [result]) fun work => ?_, by simp [answer],
        by simp [result]⟩
      simp [Request.isFresh, work] at fresh
  | running _ _ goes result answer =>
      refine ⟨fun o => iff_of_false (by simp [result]) fun work => ?_, by simp [answer],
        by simp [result]⟩
      simp [Request.hasEnded, work] at goes
  | finished o _ _ work result _ replied =>
      refine ⟨fun o' => ?_, fun t o' answer => ?_, fun _ => ?_⟩
      · rw [result, work, Option.some.injEq, Work.ended.injEq]
      · obtain ⟨silent, _⟩ | ⟨t', answer'⟩ := replied
        · simp [silent] at answer
        · rw [answer, Option.some.injEq, Prod.mk.injEq] at answer'
          rw [result, answer'.2]
      · obtain ⟨_, waits⟩ | ⟨t, answer⟩ := replied
        · exact .inr (by simpa [Engine.ahead] using waits)
        · exact .inl (by simp [answer])

end Rest

/-- Whatever is submitted, and however the workers take their turns: the jobs of an aggregate begin
once each, in the order in which they were submitted. A lane is there exactly where it has its one
worker, which is about to look or does the only job of the aggregate that runs. Where no worker has
anything left to do, all lanes are gone and all jobs have run. The work of a job changes only by
running, what has come of a job is what its own work has come to, which is `aborted` where it broke
down, and its caller is told just this. Different aggregates have queues of their own. -/
theorem jobs_run_once_and_in_order (w : World) (c : PoolConfig)
    (course : Course lane clock (.ofWorld w c) ts e looked) :
    (Turn.submitted ts).Nodup ∧
      (∀ a, (ts.flatMap Turn.begins).filter (lane · = a) ++ e.queue a =
        (Turn.submitted ts).filter (lane · = a)) ∧
      (∀ a, e.due (.worker a) + (e.underway a).length =
        if (e.lanes.get? a).isSome then 1 else 0) ∧
      ((∀ a, e.due (.worker a) = 0) → (∀ r, e.due (.work r) = 0) → e.lanes.size = 0 ∧
        ∀ r ∈ Turn.submitted ts, (ts.flatMap Turn.begins).count r = 1 ∧ (e.result? r).isSome) ∧
      (∀ t ∈ ts, ∀ r q q', t.engine.request? r = some q → t.after.request? r = some q' →
        q'.work = q.work ∨ ∃ x, q.next? t.time = some x ∧
          q'.work = (x.advance false t.engine.world).2.jobWork t.time) ∧
      (∀ r q, e.request? r = some q → (∀ o, q.result = some o ↔ q.work = .ended o) ∧
        (∀ t o, q.answer = some (t, o) → q.result = some o) ∧
        (q.result ≠ none → q.answer ≠ none ∨ 0 < e.due (.caller r))) ∧
      ∀ a b, a ≠ b → (e.queue a).Disjoint (e.queue b) := by
  have start : Orderly lane (.ofWorld w c : Engine ρ) [] none := orderly_ofWorld w c
  have order := course.order start
  have line := course.in_order start (fun _ => rfl)
  refine ⟨order.booked.once, line, order.workers, fun workers works => ?_,
    fun t ht r q q' hq hq' => work_goes_on (course.effects start ht) hq hq',
    fun r q hq => order.delivers hq, fun a b hab r hra hrb => ?_⟩
  · obtain ⟨closed, empty, results⟩ := order.at_rest workers works
    refine ⟨Assoc.size_eq_zero closed, fun r called => ⟨?_, results r called⟩⟩
    have same := line (lane r)
    rw [empty, List.append_nil] at same
    have ours : decide (lane r = lane r) = true := by simp
    rw [← List.count_filter (p := (lane · = lane r)) ours, same]
    exact List.count_eq_one_of_mem (order.booked.once.filter _)
      (List.mem_filter.2 ⟨called, ours⟩)
  · have mem (a : AggregateId) (hr : r ∈ e.queue a) : lane r = a := by
      have here := List.mem_append_right ((ts.flatMap Turn.begins).filter (lane · = a)) hr
      rw [line] at here
      simpa using (List.mem_filter.1 here).2
    exact hab ((mem a hra).symm.trans (mem b hrb))

/-- Two aggregates of one canonical form have jobs that run at one time, of which the first breaks
down. When its worker has found no other job, one comes in before it looks again, and runs. -/
theorem late_job_is_not_lost :
    let a : AggregateId := ⟨"a.b", "c"⟩
    let b : AggregateId := ⟨"a", "b.c"⟩
    let lane (r : Nat) : AggregateId := if r = 1 then b else a
    let w : World := { readings := fun n => ⟨n, 0⟩, shares := fun _ => 0 }
    a.canonical = b.canonical ∧
      ∃ (ts ts' : List (Turn Nat)) (e e' : Engine Nat) (looked looked' : List AggregateId),
        Course lane (fun _ _ => True) (.ofWorld w {}) ts e (a :: looked) ∧
        Course lane (fun _ _ => True) (.ofWorld w {}) (ts ++ ts') e' looked' ∧
        (∃ t ∈ ts, t.engine.underway a = [0] ∧ t.engine.underway b = [1]) ∧
        e.queue a = [] ∧ ts'.head?.map Turn.signal = some (.call 2) ∧
        (ts ++ ts').flatMap Turn.begins = [0, 1, 2] ∧
        e'.answer? 0 = some (50, .error .aborted) ∧ e'.answer? 1 = some (50, .ok 1) ∧
        e'.answer? 2 = some (50, .ok 2) ∧ e'.lanes.size = 0 := by
  intro a b lane w
  let q (r : Nat) : Request Nat :=
    { route := .lane (lane r), limit := none, foreground := false
      work := .fresh (if r = 0 then .sleep 50 .panic else if r = 1 then .sleep 50 (.done 1) else .done r) }
  have new (r : Nat) : (q r).IsNew := ⟨_, _, _, _, rfl⟩
  let e₀ : Engine Nat := .ofWorld w {}
  let e₂ := ((e₀.spawn (q 0)).2.spawn (q 1)).2
  have spawned : Course lane (fun _ _ => True) e₀ [] e₂ [] :=
    (Course.start.between (.spawn (q 0) (new 0) rfl)).between (.spawn (q 1) (new 1) rfl)
  let broke (e : Engine Nat) : Bool := (e.result? 0).isSome
  let ts := [] ++ e₂.turns broke 40
  let e := e₂.runFor broke 40
  let t : Turn Nat := ⟨(e.add (q 2)).2, .call e.requests.length⟩
  let e' := t.after.runFor (fun _ => false) 40
  let ts' := [t] ++ t.after.turns (fun _ => false) 40
  have free : ∀ (e : Engine Nat) (t : Nat), True := fun _ _ => trivial
  obtain ⟨looked, course⟩ := spawned.runFor free broke 40
  have live : 0 < e.due (.worker a) := by decide +kernel
  have nothing : (e.lanes.take? a).isSome = false := by decide +kernel
  have looks : Course lane (fun _ _ => True) e₀ ts e (a :: looked) :=
    course.look live (by simpa using nothing)
  have third : e.requests.length = 2 := by decide +kernel
  have route : (q 2).route = .lane (lane e.requests.length) := by rw [third]
  have called : Course lane (fun _ _ => True) e₀ (ts ++ [t]) t.after _ :=
    looks.turn (.call (q 2) (new 2) route) fun _ hs => by cases hs
  obtain ⟨looked', course'⟩ := called.runFor free (fun _ => false) 40
  rw [List.append_assoc] at course'
  change Course lane (fun _ _ => True) e₀ (ts ++ ts') e' looked' at course'
  have together : ∃ t ∈ ts, t.engine.underway a = [0] ∧ t.engine.underway b = [1] := by
    decide +kernel
  have empty : e.queue a = [] := by decide +kernel
  have next : ts'.head?.map Turn.signal = some (.call 2) := by decide +kernel
  have begins : (ts ++ ts').flatMap Turn.begins = [0, 1, 2] := by decide +kernel
  have first : e'.answer? 0 = some (50, .error .aborted) := by decide +kernel
  have second : e'.answer? 1 = some (50, .ok 1) := by decide +kernel
  have last : e'.answer? 2 = some (50, .ok 2) := by decide +kernel
  have done : e'.agenda.length = 0 := by decide +kernel
  clear_value ts e ts' e'
  have idle (s : Signal) : e'.due s = 0 := by
    rw [due, List.length_eq_zero_iff.1 done]
    rfl
  obtain ⟨_, _, _, rest, _⟩ := jobs_run_once_and_in_order w {} course'
  obtain ⟨gone, _⟩ := rest (fun a => idle (.worker a)) fun r => idle (.work r)
  exact ⟨by decide +kernel, ts, ts', e, e', looked, looked', looks, course', together, empty, next,
    begins, first, second, last, gone⟩

end LaneTraffic
end EventSourcing
