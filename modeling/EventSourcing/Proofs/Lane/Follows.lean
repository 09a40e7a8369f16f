import EventSourcing.Proofs.Lane.Moments
import EventSourcing.Proofs.Lane.Serializer
import EventSourcing.Proofs.Lane.Timetable

/-!
Jobs keep to their timetable.
Jobs that only sleep and compute follow the timetable of their aggregate: each turn leaves those that
have begun on the way to the end that their row gives, and the front of the queue begins just when its
row says. Nothing of this depends on the jobs of other aggregates.
-/
namespace EventSourcing

/-- The job that is submitted in a turn. -/
def Turn.arrival? {ρ : Type} (t : Turn ρ) : Option (LaneTraffic.Arrival ρ) :=
  match t.signal with
  | .call r => (t.engine.request? r).bind fun q => match q.work with
    | .fresh x => some ⟨r, t.time, x⟩
    | _ => none
  | _ => none

namespace LaneTraffic
open Engine
variable {ρ : Type} {lane : Nat → AggregateId} {e e' : Engine ρ} {t : Turn ρ}
  {sent : List Nat} {hand : Option Signal} {r : Nat} {q q' : Request ρ} {a : AggregateId}
  {row : Row ρ} {begun waiting : List (Arrival ρ)} {due : Signal → Nat → Prop}

/-- The jobs that are submitted for an aggregate in some turns. -/
def arrivals (lane : Nat → AggregateId) (a : AggregateId) (ts : List (Turn ρ)) : List (Arrival ρ) :=
  (ts.filterMap Turn.arrival?).filter fun v => lane v.job = a

theorem arrivals_append (ts ts' : List (Turn ρ)) :
    arrivals lane a (ts ++ ts') = arrivals lane a ts ++ arrivals lane a ts' := by
  rw [arrivals, List.filterMap_append, List.filter_append, arrivals, arrivals]

theorem arrival?_eq_none (none : t.signal.submits = []) : t.arrival? = Option.none := by
  rw [Turn.arrival?]
  cases hs : t.signal <;> simp [hs, Signal.submits] at none ⊢

theorem time_of_mem_arrivals {v : Arrival ρ} (hv : v ∈ arrivals lane a [t]) : v.time = t.time := by
  obtain ⟨_, ht, arrival⟩ := List.mem_filterMap.1 (List.mem_filter.1 hv).1
  cases List.mem_singleton.1 ht
  rw [Turn.arrival?] at arrival
  split at arrival
  · obtain ⟨q, _, fresh⟩ := Option.bind_eq_some_iff.1 arrival
    split at fresh
    · cases fresh
      rfl
    · cases fresh
  · cases arrival

/-- No job arrives where none is submitted. -/
theorem arrivals_eq_nil {ts : List (Turn ρ)} (none : ∀ t ∈ ts, t.signal.submits = []) :
    arrivals lane a ts = [] := by
  rw [arrivals, List.filterMap_eq_nil_iff.2 fun t ht => arrival?_eq_none (none t ht)]
  rfl

/-- The turn in which a job is submitted. -/
def submission (e : Engine ρ) (a : AggregateId) (x : Activity ρ) : Turn ρ :=
  ⟨(e.add { route := .lane a, limit := none, foreground := false, work := .fresh x }).2,
    .call e.requests.length⟩

/-- A job that is submitted arrives with all its work. -/
theorem arrivals_submission (e : Engine ρ) (b : AggregateId) (x : Activity ρ) :
    arrivals lane a [submission e b x] =
      if lane e.requests.length = a then [⟨e.requests.length, e.now, x⟩] else [] := by
  have arrival : (submission e b x).arrival? = some ⟨e.requests.length, e.now, x⟩ := by
    simp only [Turn.arrival?, submission, request?_add, if_true, Option.bind_some]
    rfl
  simp only [arrivals, List.filterMap_cons, arrival, List.filterMap_nil, List.filter_cons,
    List.filter_nil, decide_eq_true_eq]

section Jobs
variable (h : Orderly lane e sent hand)
include h

/-- A job in a queue has not begun. -/
theorem Orderly.waits (hr : r ∈ e.queue a) (hq : e.request? r = some q) :
    q.stage = .pending ∧ q.isFresh = true ∧ q.begun = none := by
  obtain ⟨_, _, _, _, _, pending, _⟩ := h.cut a
  have waiting : q.stage = .pending := Option.some.inj ((stage?_eq hq).symm.trans (pending r hr))
  cases h.jobs r q hq with
  | queued _ fresh idle => exact ⟨waiting, fresh, idle⟩
  | running stage => simp [stage] at waiting
  | finished _ stage => simp [stage] at waiting

/-- Only callers of jobs that are over are told anything. -/
theorem Orderly.ended_of_replied (hq : e.request? r = some q) (replied : q.answer ≠ none) :
    q.hasEnded = true := by
  cases h.jobs r q hq with
  | queued _ _ _ _ silent => exact absurd silent replied
  | running _ _ _ _ silent => exact absurd silent replied
  | finished o _ _ work => rw [Request.hasEnded, work]

theorem Orderly.arrival (meets : Meets e sent (.call r)) :
    ∃ q x, e.request? r = some q ∧ q.work = .fresh x := by
  obtain ⟨unsent, made, _⟩ := meets.calls r rfl
  obtain ⟨q, hq⟩ := Option.isSome_iff_exists.1 made
  have pending := h.unsent r q hq unsent
  cases h.jobs r q hq with
  | running stage => simp [stage] at pending
  | finished _ stage => simp [stage] at pending
  | queued _ fresh =>
      cases hw : q.work with
      | asleep | ended => simp [Request.isFresh, hw] at fresh
      | fresh x => exact ⟨q, x, hq, hw⟩

end Jobs

/-- A job that has begun keeps to its row: it began at its time, its work leads to its end, and once
that has come its caller is told at once. -/
structure Follows (now : Nat) (row : Row ρ) (q : Request ρ) : Prop where
  begun : q.begun = some row.start
  past : row.start ≤ now
  leads : q.work.Leads row.finish row.ending
  ended : q.hasEnded = true → row.finish ≤ now ∧ (q.answer = none → row.finish = now)
  replied : ∀ τ o, q.answer = some (τ, o) → τ = row.finish

/-- A job that has begun and goes on sleeps, with the rest of its time to come. -/
theorem Follows.asleep {now : Nat} (h : Follows now row q) (goes : q.hasEnded = false) :
    ∃ wake wakeable rest, q.work = .asleep wake wakeable rest ∧ (rest false).IsPlain ∧
      wake + (rest false).span = row.finish ∧ (rest false).ending = row.ending := by
  have leads := h.leads
  cases hw : q.work with
  | fresh x =>
      rw [hw] at leads
      cases leads
  | ended o => simp [Request.hasEnded, hw] at goes
  | asleep wake wakeable rest =>
      rw [hw] at leads
      cases leads with
      | asleep plain time result => exact ⟨wake, wakeable, rest, rfl, plain, time, result⟩

/-- Work that ends where it runs does not sleep any more. -/
theorem span_eq_zero {x : Activity ρ} (plain : x.IsPlain) {w : World} {now : Nat}
    (work : q.work = (x.advance false w).2.jobWork now) (isOver : q.hasEnded = true) :
    x.span = 0 := by
  cases hw : q.work with
  | fresh | asleep => simp [Request.hasEnded, hw] at isOver
  | ended o => exact (plain.leads w now).2 o (work ▸ hw)

/-- What a turn has noted of a job keeps to its row. -/
theorem Follows.of_noted {now : Nat} (noted : Noted now q q') (begun : q'.begun = some row.start)
    (past : row.start ≤ now) (leads : q'.work.Leads row.finish row.ending)
    (ends : q'.hasEnded = true → row.finish ≤ now ∧ (q.answer = none → row.finish = now))
    (before : ∀ τ o, q.answer = some (τ, o) → τ = row.finish)
    (answered : q'.answer ≠ none → q'.hasEnded = true) : Follows now row q' where
  begun := begun
  past := past
  leads := leads
  ended isOver := by
    obtain ⟨past, atOnce⟩ := ends isOver
    refine ⟨past, fun silent => ?_⟩
    obtain same | ⟨silent', _⟩ := noted.answer
    · exact atOnce (same ▸ silent)
    · exact atOnce silent'
  replied τ o replied := by
    obtain same | ⟨silent, o', now'⟩ := noted.answer
    · exact before τ o (same ▸ replied)
    · rw [replied] at now'
      cases now'
      exact ((ends (answered (by simp [replied]))).2 silent).symm

/-- The caller of a job that is over looks for its end at once. -/
theorem Orderly.caller_due (h : Orderly lane e sent none) (punctual : Punctual e e.DueAt)
    (hq : e.request? r = some q) (isOver : q.hasEnded = true) (silent : q.answer = none) :
    e.DueAt (.caller r) e.now := by
  cases h.jobs r q hq with
  | queued _ fresh => simp [q.hasEnded_of_isFresh fresh] at isOver
  | running _ _ goes => simp [goes] at isOver
  | finished _ _ _ _ _ _ replied =>
      obtain ⟨_, waits⟩ | ⟨_, replied⟩ := replied
      · obtain ⟨τ, waits⟩ := due_pos.1 (by simpa [Engine.ahead] using waits)
        have now := punctual.atOnce _ τ waits (by simp)
        rw [now] at waits
        exact waits
      · simp [replied] at silent

/-- While time passes a job keeps to its row. -/
theorem Follows.passes (h : Follows e.now row q) (order : Orderly lane e sent none)
    (punctual : Punctual e e.DueAt) (passes : Passes e e' due) (hq : e.request? r = some q) :
    Follows e'.now row q where
  begun := h.begun
  past := Nat.le_trans h.past passes.now
  leads := h.leads
  ended isOver := by
    obtain ⟨past, atOnce⟩ := h.ended isOver
    refine ⟨Nat.le_trans past passes.now, fun silent => ?_⟩
    rw [passes.now_eq (order.caller_due punctual hq isOver silent)]
    exact atOnce silent
  replied := h.replied

section Turns
variable (order : Orderly lane t.engine sent (some t.signal))
  (meets : Meets t.engine sent t.signal) (hq : t.engine.request? r = some q)
include order meets hq

/-- In each turn a job that has begun keeps to its row. -/
theorem Follows.turn (h : Follows t.time row q) (punctual : Punctual t.engine t.DueAt) :
    ∃ q', t.after.request? r = some q' ∧ Follows t.after.now row q' := by
  have moment : Moment t.engine t.after := order.moment meets
  obtain ⟨after, effect⟩ := order.handle meets
  obtain ⟨q', hq', noted⟩ := moment.becomes hq
  have begun : q'.begun = some row.start := by
    obtain same | ⟨idle, _⟩ := noted.begun
    · exact same.trans h.begun
    · cases h.begun.symm.trans idle
  refine ⟨q', hq', ?_⟩
  rw [moment.now]
  obtain same | ⟨x, next, work⟩ := work_goes_on effect hq hq'
  · refine .of_noted noted begun h.past (same ▸ h.leads) (fun isOver => h.ended ?_) h.replied
      (after.ended_of_replied hq')
    rw [Request.hasEnded, ← same]
    exact isOver
  · have goes : q.hasEnded = false := by
      cases hw : q.work <;> simp [Request.hasEnded, Request.next?, hw] at next ⊢
    obtain ⟨wake, wakeable, rest, asleep, plain, time, result⟩ := h.asleep goes
    simp only [Request.next?, asleep, (order.routes r q hq).2, Bool.and_false, Bool.false_eq_true,
      if_false, Option.ite_none_right_eq_some, Option.some.injEq] at next
    obtain ⟨woken, rfl⟩ := next
    have early := punctual.ahead _ wake (punctual.rouses r q wake wakeable rest hq asleep)
    have now : wake = t.time := Nat.le_antisymm woken early
    have leads := (plain.leads t.engine.world t.time).1
    rw [← work, result, ← now, time] at leads
    refine .of_noted noted begun h.past leads (fun isOver => ?_) h.replied
      (after.ended_of_replied hq')
    have none := span_eq_zero plain work isOver
    have finish : row.finish = t.time := by omega
    exact ⟨Nat.le_of_eq finish, fun _ => finish⟩

/-- A job that still waits after a turn waits with all its work. -/
theorem still_fresh {x : Activity ρ} (fresh : q.work = .fresh x) (waits : r ∈ t.after.queue a) :
    ∃ q', t.after.request? r = some q' ∧ q'.work = .fresh x := by
  have moment : Moment t.engine t.after := order.moment meets
  obtain ⟨after, effect⟩ := order.handle meets
  obtain ⟨q', hq', _⟩ := moment.becomes hq
  refine ⟨q', hq', ?_⟩
  obtain same | ⟨y, _, work⟩ := work_goes_on effect hq hq'
  · exact same.trans fresh
  · obtain ⟨_, still, _⟩ := after.waits waits hq'
    rw [Request.isFresh, work] at still
    cases hp : (y.advance false t.engine.world).2 <;> simp [hp, Activity.Pause.jobWork] at still

/-- A job that begins will keep to the row that its lane is free for now. -/
theorem follows_of_begin {x : Activity ρ} (fresh : q.work = .fresh x) (idle : q.begun = none)
    (plain : x.IsPlain) (hq' : t.after.request? r = some q') (began : q'.begun ≠ none) :
    Follows t.after.now ⟨t.time, t.time + x.span, x.ending⟩ q' := by
  have moment : Moment t.engine t.after := order.moment meets
  obtain ⟨after, effect⟩ := order.handle meets
  obtain ⟨q₁, hq₁, noted⟩ := moment.becomes hq
  cases hq'.symm.trans hq₁
  have begun : q'.begun = some t.time := by
    obtain same | ⟨_, now⟩ := noted.begun
    · exact absurd (same.trans idle) began
    · exact now
  have silent : q.answer = none := by
    by_contra replied
    have ended := order.ended_of_replied hq replied
    rw [Request.hasEnded, fresh] at ended
    cases ended
  rw [moment.now]
  obtain same | ⟨y, next, work⟩ := work_goes_on effect hq hq'
  · have still : q'.isFresh = true := by rw [Request.isFresh, same, fresh]
    cases after.jobs r q' hq' with
    | queued _ _ idle => exact absurd idle began
    | running _ _ _ _ _ _ _ begins => cases begins still
    | finished _ _ _ ended =>
        rw [Request.isFresh, ended] at still
        cases still
  · have unasked := (order.routes r q hq).2
    simp only [Request.next?, fresh, unasked, Bool.false_eq_true, if_false,
      Option.some.injEq] at next
    subst next
    have leads := (plain.leads t.engine.world t.time).1
    rw [← work] at leads
    refine .of_noted noted begun (Nat.le_refl _) leads (fun isOver => ?_) (by simp [silent])
      (after.ended_of_replied hq')
    have none := span_eq_zero plain work isOver
    have finish : t.time + x.span = t.time := by omega
    exact ⟨Nat.le_of_eq finish, fun _ => finish⟩

end Turns

/-- The jobs of an aggregate that have begun keep to their timetable, and the others wait in its
queue, none of them longer than its lane is taken. -/
structure Served (lane : Nat → AggregateId) (a : AggregateId) (e : Engine ρ) (sent : List Nat)
    (begun waiting : List (Arrival ρ)) : Prop where
  calls : (begun ++ waiting).map Arrival.job = sent.filter (lane · = a)
  queue : e.queue a = waiting.map Arrival.job
  follows : ∀ v row, (v, row) ∈ timetable 0 begun →
    ∃ q, e.request? v.job = some q ∧ Follows e.now row q
  fresh : ∀ v ∈ waiting, v.work.IsPlain ∧ ∃ q, e.request? v.job = some q ∧ q.work = .fresh v.work
  waits : ∀ v ∈ waiting, v.time ≤ e.now ∧ e.now ≤ max v.time (freeAfter 0 begun)

theorem served_ofWorld (w : World) (c : PoolConfig) (lane : Nat → AggregateId) (a : AggregateId) :
    Served lane a (ofWorld (ρ := ρ) w c) [] [] [] where
  calls := rfl
  queue := rfl
  follows v row h := by cases h
  fresh v hv := by cases hv
  waits v hv := by cases hv

section Lane
variable (h : Served lane a e sent begun waiting) (order : Orderly lane e sent none)
  (punctual : Punctual e e.DueAt)
include h order

/-- A job of the aggregate that runs sleeps, and keeps to its row. -/
theorem Served.underway (busy : r ∈ e.underway a) : ∃ v row q wake wakeable rest,
    v.job = r ∧ (v, row) ∈ timetable 0 begun ∧ e.request? r = some q ∧
      q.work = .asleep wake wakeable rest ∧ wake ≤ row.finish := by
  obtain ⟨called, ours, q, hq, running⟩ := order.mem_underway.1 busy
  have mine : r ∈ (begun ++ waiting).map Arrival.job := by
    rw [h.calls]
    exact List.mem_filter.2 ⟨called, by simp [ours]⟩
  rw [List.map_append, ← h.queue] at mine
  obtain mine | queued := List.mem_append.1 mine
  · obtain ⟨v, hv, rfl⟩ := List.mem_map.1 mine
    obtain ⟨row, hrow⟩ := exists_row_of_mem 0 hv
    obtain ⟨q₁, hq₁, follows⟩ := h.follows v row hrow
    cases hq.symm.trans hq₁
    have goes : q.hasEnded = false := by
      cases order.jobs _ q hq with
      | queued pending => simp [running] at pending
      | running _ _ goes => exact goes
      | finished _ isOver => simp [running] at isOver
    obtain ⟨wake, wakeable, rest, asleep, _, time, _⟩ := follows.asleep goes
    exact ⟨v, row, q, wake, wakeable, rest, rfl, hrow, hq, asleep, by omega⟩
  · obtain ⟨pending, _⟩ := order.waits queued hq
    simp [running] at pending

/-- Where no job runs, all that have begun are over. -/
theorem Served.free_le (idle : e.underway a = []) : freeAfter 0 begun ≤ e.now := by
  refine freeAfter_le (Nat.zero_le _) fun v row hrow => ?_
  obtain ⟨q, hq, follows⟩ := h.follows v row hrow
  by_cases isOver : q.hasEnded = true
  · exact (follows.ended isOver).1
  · refine absurd (order.mem_underway (a := a) (r := v.job)).2 ?_
    rw [idle]
    have mine : v.job ∈ sent.filter (lane · = a) := by
      rw [← h.calls]
      exact List.mem_map_of_mem (List.mem_append_left _ (mem_of_mem_timetable hrow))
    obtain ⟨called, ours⟩ := List.mem_filter.1 mine
    refine fun busy => List.not_mem_nil (busy ⟨called, by simpa using ours, q, hq, ?_⟩)
    cases order.jobs _ q hq with
    | queued _ _ idle => cases follows.begun.symm.trans idle
    | running stage => exact stage
    | finished o _ _ work => simp [Request.hasEnded, work] at isOver

include punctual

/-- While a job waits its lane has something to do: the worker looks for it now, or a job sleeps that
is over before the lane is free. -/
theorem Served.busy {v : Arrival ρ} (hv : v ∈ waiting) :
    e.DueAt (.worker a) e.now ∨ ∃ r wake, e.DueAt (.work r) wake ∧ wake ≤ freeAfter 0 begun := by
  have there : (e.lanes.get? a).isSome := by
    by_contra closed
    have empty := h.queue
    rw [Option.not_isSome_iff_eq_none] at closed
    rw [Engine.queue, closed] at empty
    cases waiting with
    | nil => cases hv
    | cons => cases empty
  have staff := order.workers a
  rw [Engine.staff, if_pos there] at staff
  by_cases looks : 0 < e.due (.worker a)
  · obtain ⟨τ, looks⟩ := due_pos.1 looks
    have now := punctual.atOnce _ τ looks (by simp)
    rw [now] at looks
    exact .inl looks
  · obtain ⟨r, busy⟩ := List.exists_mem_of_length_pos (l := e.underway a) (by omega)
    obtain ⟨v, row, q, wake, wakeable, rest, _, hrow, hq, work, early⟩ := h.underway order busy
    exact .inr ⟨r, wake, punctual.rouses r q wake wakeable rest hq work,
      Nat.le_trans early (finish_le_freeAfter hrow)⟩

theorem Served.passes (passes : Passes e e' due) (queue : e'.queue a = e.queue a) :
    Served lane a e' sent begun waiting where
  calls := h.calls
  queue := queue.trans h.queue
  follows v row hrow := by
    obtain ⟨q, hq, follows⟩ := h.follows v row hrow
    exact ⟨q, passes.requests _ q hq, follows.passes order punctual passes hq⟩
  fresh v hv := by
    obtain ⟨plain, q, hq, fresh⟩ := h.fresh v hv
    exact ⟨plain, q, passes.requests _ q hq, fresh⟩
  waits v hv := by
    obtain ⟨come, soon⟩ := h.waits v hv
    have later := passes.now
    refine ⟨Nat.le_trans come later, ?_⟩
    obtain looks | ⟨r, wake, sleeps, early⟩ := h.busy order punctual hv
    · rw [passes.now_eq looks]
      exact soon
    · have onTime := passes.onTime _ wake sleeps
      omega

end Lane

section Turns
variable (h : Served lane a t.engine sent begun waiting)
  (order : Orderly lane t.engine sent (some t.signal)) (meets : Meets t.engine sent t.signal)
  (punctual : Punctual t.engine t.DueAt)
include h order meets

include punctual

/-- Nothing happens to the queue of the aggregate. -/
theorem Served.kept {sent' : List Nat} (queue : t.after.queue a = t.engine.queue a)
    (calls : sent'.filter (lane · = a) = sent.filter (lane · = a)) :
    Served lane a t.after sent' begun waiting where
  calls := h.calls.trans calls.symm
  queue := queue.trans h.queue
  follows v row hrow := by
    obtain ⟨q, hq, follows⟩ := h.follows v row hrow
    exact follows.turn order meets hq punctual
  fresh v hv := by
    obtain ⟨plain, q, hq, fresh⟩ := h.fresh v hv
    refine ⟨plain, still_fresh order meets hq fresh (a := a) ?_⟩
    rw [queue, h.queue]
    exact List.mem_map_of_mem hv
  waits v hv := by
    rw [Turn.after, (order.moment meets).now]
    exact h.waits v hv

/-- A job comes to the end of the queue. -/
theorem Served.joins {v : Arrival ρ} (time : v.time = t.time)
    (ours : lane v.job = a) (plain : v.work.IsPlain) (hq : t.engine.request? v.job = some q)
    (fresh : q.work = .fresh v.work) (queue : t.after.queue a = t.engine.queue a ++ [v.job]) :
    Served lane a t.after (sent ++ [v.job]) begun (waiting ++ [v]) where
  calls := by
    rw [← List.append_assoc, List.map_append, h.calls, List.filter_append]
    simp [ours]
  queue := by
    rw [queue, h.queue, List.map_append, List.map_singleton]
  follows v row hrow := by
    obtain ⟨q, hq, follows⟩ := h.follows v row hrow
    exact follows.turn order meets hq punctual
  fresh u hu := by
    obtain old | new := List.mem_append.1 hu
    · obtain ⟨plain, q, hq, fresh⟩ := h.fresh u old
      refine ⟨plain, still_fresh order meets hq fresh (a := a) ?_⟩
      rw [queue, h.queue]
      exact List.mem_append_left _ (List.mem_map_of_mem old)
    · rw [List.mem_singleton.1 new]
      refine ⟨plain, still_fresh order meets hq fresh (a := a) ?_⟩
      rw [queue]
      exact List.mem_append_right _ List.mem_cons_self
  waits u hu := by
    rw [Turn.after, (order.moment meets).now]
    obtain old | new := List.mem_append.1 hu
    · exact h.waits u old
    · rw [List.mem_singleton.1 new, time]
      exact ⟨Nat.le_refl _, Nat.le_max_left ..⟩

omit h in
/-- The job at the front of the queue begins, in a lane that is free. -/
theorem Served.begins {v : Arrival ρ} (h : Served lane a t.engine sent begun (v :: waiting))
    (free : freeAfter 0 begun ≤ t.time) (queue : t.after.queue a = waiting.map Arrival.job)
    (began : ∀ q', t.after.request? v.job = some q' → q'.begun ≠ none) :
    Served lane a t.after sent (begun ++ [v]) waiting := by
  have now : t.after.now = t.time := (order.moment meets).now
  obtain ⟨come, soon⟩ := h.waits v List.mem_cons_self
  obtain ⟨plain, q, hq, fresh⟩ := h.fresh v List.mem_cons_self
  have front : v.job ∈ t.engine.queue a := by
    rw [h.queue]
    exact List.mem_cons_self
  have start : max v.time (freeAfter 0 begun) = t.time :=
    Nat.le_antisymm (Nat.max_le.2 ⟨come, free⟩) soon
  refine ⟨?_, queue, fun u row hrow => ?_, fun u hu => ?_, fun u hu => ?_⟩
  · rw [← h.calls, List.append_assoc]
    rfl
  · rw [timetable_append] at hrow
    obtain old | new := List.mem_append.1 hrow
    · obtain ⟨q, hq, follows⟩ := h.follows u row old
      exact follows.turn order meets hq punctual
    · cases List.mem_singleton.1 new
      rw [Arrival.row, start]
      obtain ⟨_, _, idle⟩ := order.waits front hq
      obtain ⟨q', hq', _⟩ := (order.moment meets).becomes hq
      exact ⟨q', hq', follows_of_begin order meets hq fresh idle plain hq' (began q' hq')⟩
  · obtain ⟨plain, q, hq, fresh⟩ := h.fresh u (List.mem_cons_of_mem _ hu)
    refine ⟨plain, still_fresh order meets hq fresh (a := a) ?_⟩
    rw [queue]
    exact List.mem_map_of_mem hu
  · obtain ⟨come, soon⟩ := h.waits u (List.mem_cons_of_mem _ hu)
    have later : freeAfter 0 begun ≤ freeAfter 0 (begun ++ [v]) := by
      rw [freeAfter_append]
      exact le_freeAfter
    rw [now]
    refine ⟨come, Nat.le_trans soon ?_⟩
    omega

/-- In each turn the jobs of the aggregate keep to their timetable, of which there is one more row
where one more job is submitted. -/
theorem Served.turn (free : t.signal = .worker a → freeAfter 0 begun ≤ t.time)
    (plain : ∀ v ∈ arrivals lane a [t], v.work.IsPlain) :
    ∃ begun' waiting', begun ++ waiting ++ arrivals lane a [t] = begun' ++ waiting' ∧
      Served lane a t.after (sent ++ t.signal.submits) begun' waiting' := by
  have quiet (none : t.signal.submits = []) : arrivals lane a [t] = [] :=
    arrivals_eq_nil (List.forall_mem_singleton.2 none)
  have rests (none : t.signal.submits = []) (queue : t.after.queue a = t.engine.queue a) :
      ∃ begun' waiting', begun ++ waiting ++ arrivals lane a [t] = begun' ++ waiting' ∧
        Served lane a t.after (sent ++ t.signal.submits) begun' waiting' :=
    ⟨begun, waiting, by rw [quiet none, List.append_nil],
      h.kept order meets punctual queue (by rw [none, List.append_nil])⟩
  have effect : Effect lane t.engine t.after t.signal := (order.handle meets).2
  generalize hs : t.signal = s at effect
  cases effect with
  | joins r queue tasks =>
      obtain ⟨q, x, hq, fresh⟩ := order.arrival (hs ▸ meets)
      have arrival : t.arrival? = some ⟨r, t.time, x⟩ := by
        simp [Turn.arrival?, hs, hq, fresh]
      by_cases ours : lane r = a
      · have arrives : arrivals lane a [t] = [⟨r, t.time, x⟩] := by simp [arrivals, arrival, ours]
        refine ⟨begun, waiting ++ [⟨r, t.time, x⟩], by rw [arrives, List.append_assoc], ?_⟩
        refine h.joins order meets punctual (v := ⟨r, t.time, x⟩) rfl ours
          (plain _ (by simp [arrives])) hq fresh ?_
        rw [queue]
        simp [ours]
      · have arrives : arrivals lane a [t] = [] := by simp [arrivals, arrival, ours]
        refine ⟨begun, waiting, by rw [arrives, List.append_nil],
          h.kept order meets punctual ?_ ?_⟩
        · rw [queue]
          simp [ours]
        · simp [Signal.submits, ours]
  | @begins r q x b ours queue hq idle next runs =>
      by_cases mine : lane r = a
      · have line := queue a
        rw [h.queue] at line
        simp only [mine, decide_true, List.filter_cons_of_pos, List.filter_nil,
          List.singleton_append] at line
        cases waiting with
        | nil => cases line
        | cons v rest =>
            obtain ⟨rfl, others⟩ := List.cons.inj line
            obtain ⟨q', hq', _, began⟩ := runs.here
            refine ⟨begun ++ [v], rest, ?_, ?_⟩
            · rw [quiet (by rw [hs]; rfl)]
              simp
            · have starts := Served.begins order meets punctual h
                (free (by rw [hs, ← ours, mine])) others.symm fun q₁ hq₁ => by
                  cases hq'.symm.trans hq₁
                  exact began
              simpa [Signal.submits] using starts
      · have same := queue a
        simp only [mine, decide_false, Bool.false_eq_true, not_false_iff, List.filter_cons_of_neg,
          List.filter_nil, List.nil_append] at same
        exact hs ▸ rests (by rw [hs]; rfl) same.symm
  | resumes r queue => exact hs ▸ rests (by rw [hs]; rfl) (queue a)
  | rests none queue => exact hs ▸ rests (hs ▸ none) (queue a)

end Turns

end LaneTraffic
end EventSourcing
