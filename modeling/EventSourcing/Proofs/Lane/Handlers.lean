import EventSourcing.Proofs.Lane.Jobs

/-!
What an engine with jobs in lanes does.
A job joins its queue when it is called, begins when the worker of its lane takes it, and goes on when
it wakes. Nothing else moves any work, and each turn leaves the jobs and their lanes in order.
-/
namespace EventSourcing

/-- What becomes of the work of a job that has run as far as it can. -/
def Activity.Pause.jobWork {ρ : Type} (now : Nat) : Activity.Pause ρ → Work ρ
  | .finished x => .ended (.ok x)
  | .panicked => .ended (.error .aborted)
  | .asleep ms wakeable rest => .asleep (now + ms) wakeable rest

namespace LaneTraffic
open Engine
variable {ρ : Type} {lane : Nat → AggregateId} {e e' : Engine ρ} {sent : List Nat}
  {hand : Option Signal} {r : Nat} {q : Request ρ} {a : AggregateId} {o : Ending ρ}

/-- The work of a job runs as far as it can, and nothing happens to any other job. -/
structure Runs (e e' : Engine ρ) (r : Nat) (q : Request ρ) (x : Activity ρ) : Prop where
  here : ∃ q', e'.request? r = some q' ∧
    q'.work = (x.advance false e.world).2.jobWork e.now ∧ q'.begun ≠ none
  others : ∀ r', r ≠ r' → e'.request? r' = e.request? r'

/-- What a turn does to the queues and to the work of the jobs. -/
inductive Effect (lane : Nat → AggregateId) (e e' : Engine ρ) : Signal → Prop
  | joins (r : Nat) (queue : ∀ a, e'.queue a = e.queue a ++ [r].filter (lane · = a))
      (tasks : ∀ r, (e'.request? r).map Request.task = (e.request? r).map Request.task) :
      Effect lane e e' (.call r)
  | begins {r : Nat} {q : Request ρ} {x : Activity ρ} (a : AggregateId) (ours : lane r = a)
      (queue : ∀ b, e.queue b = [r].filter (lane · = b) ++ e'.queue b)
      (hq : e.request? r = some q) (idle : q.begun = none) (next : q.next? e.now = some x)
      (runs : Runs e e' r q x) : Effect lane e e' (.worker a)
  | resumes {q : Request ρ} {x : Activity ρ} (r : Nat) (queue : ∀ a, e'.queue a = e.queue a)
      (hq : e.request? r = some q) (begun : q.begun ≠ none) (next : q.next? e.now = some x)
      (runs : Runs e e' r q x) : Effect lane e e' (.work r)
  | rests {s : Signal} (none : s.submits = []) (queue : ∀ a, e'.queue a = e.queue a)
      (tasks : ∀ r, (e'.request? r).map Request.task = (e.request? r).map Request.task) :
      Effect lane e e' s

section Counts
variable (e)

theorem ahead_schedule (hand : Option Signal) (t : Nat) (rank : Rank) (s s' : Signal) :
    (e.schedule t rank s).ahead hand s' = e.ahead hand s' + if s = s' then 1 else 0 := by
  rw [ahead, ahead, due_schedule, Nat.add_right_comm]

theorem ahead_wake (hand : Option Signal) (rank : Rank) (s s' : Signal) :
    (e.wake rank s).ahead hand s' = e.ahead hand s' + if s = s' then 1 else 0 :=
  ahead_schedule e hand e.now rank s s'

/-- A signal that is put aside is one less to be handled. -/
theorem ahead_none (s s' : Signal) :
    e.ahead none s' + (if s = s' then 1 else 0) = e.ahead (some s) s' := by
  simp [ahead]

theorem ahead_of_ne {s s' : Signal} (hs : s ≠ s') : e.ahead none s' = e.ahead (some s) s' := by
  rw [← ahead_none e s s', if_neg hs, Nat.add_zero]

end Counts

theorem get?_submit (alive : ∀ l, e.lanes.get? a = some l → l.dead = false) (r : Nat) :
    ∃ isNew x, e.lanes.submit a r = (isNew, ⟨e.lanes.table.put a x⟩) ∧ x.dead = false ∧
      x.queue = e.queue a ++ [r] ∧ (isNew = true ↔ e.staff a = 0) := by
  rw [Lanes.submit]
  cases hl : e.lanes.get? a with
  | none =>
      refine ⟨true, { queue := [r] }, rfl, rfl, ?_, ?_⟩
      · rw [queue, hl]
        rfl
      · simp [staff, hl]
  | some l =>
      have alive := alive l hl
      refine ⟨false, { l with queue := l.queue ++ [r] }, by simp only [alive, Bool.false_eq_true,
        if_false], alive, ?_, ?_⟩
      · rw [queue, hl]
        rfl
      · simp [staff, hl]

section Aside
variable (h : Orderly lane e sent hand)
include h

/-- The world, the pool and the waits for it do not matter for the lanes. -/
theorem Orderly.aside {p : Pool} (idle : p.running = [] ∧ p.line = []) (ds : List Drain)
    (w : World) : Orderly lane { e with pool := p, drains := ds, world := w } sent hand :=
  h.still (fun _ _ => ⟨rfl, rfl, rfl, id, fun _ hd _ => hd⟩) (fun _ => id) rfl (fun _ => rfl)
    (h.booked.alike rfl rfl) h.heard h.signals idle

theorem Orderly.gauge : Orderly lane e.gaugeLanes sent hand := h.aside h.idle e.drains _

end Aside

/-- A signal for a request that was never made is nothing to anybody. -/
theorem Orderly.drop {s : Signal} (h : Orderly lane e sent (some s))
    (unknown : ∀ r, (e.request? r).isSome → s ≠ .work r ∧ s ≠ .caller r)
    (nobody : ∀ a, s ≠ .worker a) : Orderly lane e sent none :=
  h.still (fun r made => ⟨rfl, ahead_of_ne e (unknown r made).1, ahead_of_ne e (unknown r made).2,
    by simp [(unknown r made).1], fun _ hd _ => hd⟩) (fun _ => id) rfl
    (fun a => ahead_of_ne e (nobody a)) h.booked h.heard h.signals h.idle

/-- A worker that is in hand may come back later. -/
theorem Orderly.wake_worker (h : Orderly lane e sent (some (.worker a))) (rank : Rank) :
    Orderly lane (e.wake rank (.worker a)) sent none := by
  have due (s : Signal) : (e.wake rank (.worker a)).ahead none s = e.ahead (some (.worker a)) s := by
    rw [ahead_wake, ahead_none]
  refine h.still (fun r _ => ⟨rfl, due _, due _, by simp, fun d hd hs => ?_⟩) (fun _ => id) rfl
    (fun _ => due _) (h.booked.schedule e.now rank (by simp) (by simp)) (fun r hr => ?_)
    (fun d hd => ?_) h.idle
  · obtain rfl | hd := Agenda.mem_push.1 hd
    · cases hs
    · exact hd
  · rw [due_wake, if_neg (by simp), Nat.add_zero] at hr
    exact h.heard r hr
  · obtain rfl | hd := Agenda.mem_push.1 hd
    · rfl
    · exact h.signals d hd

theorem stage?_modify {f : Request ρ → Request ρ} (stage : ∀ q, (f q).stage = q.stage)
    (r r' : Nat) : (e.modify r f).stage? r' = e.stage? r' := by
  rw [stage?, request?_modify, stage?]
  split
  · rw [Option.map_map]
    exact congrArg (Option.map · (e.request? r')) (funext stage)
  · rfl

theorem task_modify {f : Request ρ → Request ρ} (task : ∀ q, (f q).task = q.task) (r r' : Nat) :
    ((e.modify r f).request? r').map Request.task = (e.request? r').map Request.task := by
  rw [request?_modify]
  split
  · rw [Option.map_map]
    exact congrArg (Option.map · (e.request? r')) (funext task)
  · rfl

theorem enterLane_eq {isNew : Bool} {lanes : Lanes}
    (submits : e.lanes.submit a r = (isNew, lanes)) :
    e.enterLane r a = if isNew then
      ({ e with lanes } : Engine ρ).gaugeLanes.wake .background (.worker a)
      else { e with lanes } := by
  rw [enterLane, submits]

theorem onCall_eq (hq : e.request? r = some q) (route : q.route = .lane a) :
    e.onCall r = (e.modify r fun q => { q with called := e.now }).enterLane r a := by
  rw [onCall]
  simp only [request?_modify_self hq, route]

/-- Nobody waits for the pool, and nothing runs in it. -/
theorem onClose_eq (idle : e.pool.running = [] ∧ e.pool.line = []) (d : Nat) :
    ∃ ds, e.onClose d = { e with pool := e.pool.close, drains := ds } := by
  have quiet : e.pool.close.inFlight = 0 := congrArg List.length idle.1
  rw [onClose]
  simp only [idle.2, List.foldl_nil, quiet, if_true]
  exact ⟨_, rfl⟩

section Handlers

/-- A call joins the queue of its lane. -/
theorem Orderly.call (h : Orderly lane e sent (some (.call r))) (fresh : r ∉ sent)
    (made : (e.request? r).isSome) (uncalled : e.due (.call r) = 0) :
    Orderly lane (e.onCall r) (sent ++ [r]) none ∧ Effect lane e (e.onCall r) (.call r) := by
  obtain ⟨q, hq⟩ := Option.isSome_iff_exists.1 made
  obtain ⟨route, unasked⟩ := h.routes r q hq
  have pending := h.unsent r q hq fresh
  let e₁ : Engine ρ := e.modify r fun q => { q with called := e.now }
  have hq₁ : e₁.request? r = some { q with called := e.now } := request?_modify_self hq _
  obtain ⟨isNew, x, submits, alive, line, new⟩ := get?_submit (h.alive (lane r)) r
  let joined : Engine ρ := { e₁ with lanes := ⟨e.lanes.table.put (lane r) x⟩ }
  have laneOf (a : AggregateId) :
      joined.lanes.get? a = if lane r = a then some x else e.lanes.get? a :=
    Engine.get?_put e.lanes (lane r) a x
  have queueOf (a : AggregateId) : joined.queue a = e.queue a ++ [r].filter (lane · = a) := by
    rw [queue, laneOf]
    by_cases ha : lane r = a
    · subst ha
      simp [line]
    · simp [ha, queue]
  have stageOf (r' : Nat) : joined.stage? r' = e.stage? r' :=
    stage?_modify (e := e) (f := fun q => { q with called := e.now }) (fun _ => rfl) r r'
  have taskOf (r' : Nat) :
      (joined.request? r').map Request.task = (e.request? r').map Request.task :=
    task_modify (e := e) (f := fun q => { q with called := e.now }) (fun _ => rfl) r r'
  have order : Orderly lane joined (sent ++ [r])
      (if isNew then some (.worker (lane r)) else none) := by
    have same (s : Signal) (call : Signal.call r ≠ s) (worker : ∀ a, .worker a ≠ s) :
        joined.ahead (if isNew then some (.worker (lane r)) else none) s =
          e.ahead (some (.call r)) s := by
      rw [ahead, ahead]
      cases isNew <;> simp [call, worker] <;> rfl
    refine h.step (fun r' q' hq' => ?_) (fun r' => List.mem_append_left _)
      (((h.booked.send fresh made uncalled).modify r _).alike rfl rfl)
      (fun r' hr' => (request?_modify_isSome ..).trans (h.heard r' hr')) h.signals h.idle
      (fun a l hl => ?_) (fun r' hr' waits => ?_) fun a => ?_
    · by_cases hr : r = r'
      · subst hr
        rw [show joined.request? r = _ from hq₁, Option.some.injEq] at hq'
        subst hq'
        refine .inr ⟨⟨route, unasked⟩, fun _ => pending, ?_⟩
        cases h.jobs r q hq with
        | queued stage fresh begun result answer works callers =>
            exact .queued stage fresh begun result answer
              ((same _ (by simp) (by simp)).trans works)
              ((same _ (by simp) (by simp)).trans callers)
        | running stage => simp [stage] at pending
        | finished _ stage => simp [stage] at pending
      · refine .inl ⟨?_, same _ (by simp) (by simp), same _ (by simp) (by simp), by simp,
          fun d hd _ => hd⟩
        exact (request?_modify ..).trans (if_neg hr)
    · rw [laneOf] at hl
      split at hl
      · cases hl
        exact alive
      · exact h.alive a l hl
    · rw [stageOf] at waits
      rw [queueOf]
      obtain old | new := List.mem_append.1 hr'
      · exact List.mem_append_left _ (h.placed r' old waits)
      · rw [List.mem_singleton.1 new]
        simp
    · by_cases ha : lane r = a
      · subst ha
        refine (h.cut (lane r)).submit ?_ (fun r' _ => stageOf r') ?_ ?_ rfl ?_
        · rw [stageOf, stage?_eq hq, pending]
        · rw [queueOf]
          simp
        · rw [staff, laneOf, if_pos rfl]
          rfl
        · rw [← new]
          cases isNew <;> simp [Signal.served]
      · refine (h.cut a).congr ?_ ?_ ?_ ?_ fun r' _ _ => stageOf r'
        · rw [queueOf]
          simp [ha]
        · rw [staff, laneOf, if_neg ha, staff]
        · cases isNew <;> simp [Signal.served, ha] <;> rfl
        · simp [List.filter_append, ha]
  rw [onCall_eq hq route, enterLane_eq (e := e₁) submits]
  have effect (e' : Engine ρ) (lanes : e'.lanes = joined.lanes)
      (requests : e'.requests = joined.requests) : Effect lane e e' (.call r) := by
    refine .joins r (fun a => ?_) fun r' => ?_
    · rw [← queueOf, queue, lanes, queue]
    · rw [← taskOf, request?, requests, request?]
  split
  · rename_i isNew
    rw [if_pos isNew] at order
    exact ⟨order.gauge.wake_worker .background, effect _ rfl rfl⟩
  · rename_i isOld
    rw [if_neg isOld] at order
    exact ⟨order, effect _ rfl rfl⟩

/-- The caller of a job is told what has come of it. -/
theorem Orderly.caller (h : Orderly lane e sent (some (.caller r))) (hq : e.request? r = some q) :
    Orderly lane (e.onCaller r) sent none ∧ Effect lane e (e.onCaller r) (.caller r) := by
  obtain ⟨route, unasked⟩ := h.routes r q hq
  have here : 0 < e.ahead (some (.caller r)) (.caller r) := by simp [ahead]
  cases h.jobs r q hq with
  | queued stage fresh begun result answer works callers => omega
  | running stage begun goes result answer works callers => omega
  | finished o stage begun work result works replied =>
      have same (s : Signal) (hs : Signal.caller r ≠ s) :
          e.ahead none s = e.ahead (some (.caller r)) s := ahead_of_ne e hs
      have tells (f : Request ρ → Request ρ) (t : Nat) (task : ∀ q, (f q).task = q.task)
          (stages : ∀ q, (f q).stage = q.stage) (asked : (f q).cancelled = q.cancelled)
          (results : (f q).result = q.result) (answer : (f q).answer = some (t, o)) :
          Orderly lane (e.modify r f) sent none ∧
            Effect lane e (e.modify r f) (.caller r) := by
        have task' := task q
        simp only [Request.task, Prod.mk.injEq] at task'
        obtain ⟨route', work', begun'⟩ := task'
        refine ⟨h.step (fun r' q' hq' => ?_) (fun _ => id) (h.booked.modify r f)
          (fun r' hr' => (request?_modify_isSome ..).trans (h.heard r' hr')) h.signals h.idle h.alive
          (fun r' hr' waits => ?_) fun a => ?_, .rests rfl (fun _ => rfl) (task_modify task r)⟩
        · by_cases hr : r = r'
          · subst hr
            rw [request?_modify_self hq, Option.some.injEq] at hq'
            subst hq'
            refine .inr ⟨⟨route'.trans route, asked.trans unasked⟩, fun unsent => ?_, ?_⟩
            · rw [stages]
              exact h.unsent r q hq unsent
            · refine .finished o ((stages q).trans stage) ?_ (work'.trans work)
                (results.trans result) ((same _ (by simp)).trans works) (.inr ⟨t, answer⟩)
              rw [begun']
              exact begun
          · exact .inl ⟨(request?_modify ..).trans (if_neg hr), same _ (by simp),
              same _ (by simp [hr]), by simp, fun d hd _ => hd⟩
        · rw [stage?_modify stages] at waits
          exact h.placed r' hr' waits
        · exact (h.cut a).congr rfl rfl (by simp [Signal.served]; rfl) rfl
            fun r' _ _ => stage?_modify stages r r'
      rw [onCaller]
      simp only [hq, result]
      split
      · rename_i before
        obtain ⟨silent, _⟩ | ⟨t, answer⟩ := replied
        · simp [silent] at before
        · have idle : e.modify r id = e := by
            rw [Engine.modify, List.modify_id]
          have kept := tells id t (fun _ => rfl) (fun _ => rfl) rfl rfl answer
          rw [idle] at kept
          exact kept
      · exact tells _ e.now (fun _ => rfl) (fun _ => rfl) rfl rfl rfl

/-- The pool, which nobody uses, is asked to shut down. -/
theorem Orderly.close {d : Nat} (h : Orderly lane e sent (some (.close d))) :
    Orderly lane (e.onClose d) sent none ∧ Effect lane e (e.onClose d) (.close d) := by
  have dropped : Orderly lane e sent none := h.drop (by simp) (by simp)
  obtain ⟨ds, hds⟩ := onClose_eq h.idle d
  rw [hds]
  exact ⟨dropped.aside (p := e.pool.close) ⟨h.idle.1, rfl⟩ ds e.world,
    .rests rfl (fun _ => rfl) fun _ => rfl⟩

end Handlers

theorem not_due_of_mem {s : Signal} (none : e.due s = 0) {d : Due Signal} (hd : d ∈ e.agenda) :
    d.signal ≠ s := by
  intro hs
  have due : 0 < e.due s := List.countP_pos_iff.2 ⟨d, hd, by simp [hs]⟩
  omega

/-- The job has come to its end, and its caller will look for what has come of it. -/
def stopped (e : Engine ρ) (r : Nat) (a : AggregateId) (o : Ending ρ) (rank : Rank) : Engine ρ :=
  ({ e.modify r (fun q => { q with work := .ended o, stage := .over, result := some o }) with
    lanes := e.lanes.finish a } : Engine ρ).wake rank (.caller r)

theorem endWork_eq (route : q.route = .lane a) :
    e.endWork r q o = (stopped e r a o (.notice q.foreground)).wake .immediate (.worker a) := by
  rw [endWork]
  simp only [route]
  rw [finishJob, modify_modify]
  rfl

theorem startJob_eq {x : Activity ρ} (hq : e.request? r = some q) (route : q.route = .lane a)
    (work : q.work = .fresh x) : e.startJob r =
      (e.modify r fun q => { q with stage := .running, begun := some e.now }).runWork r
        { q with stage := .running } x := by
  rw [startJob]
  simp only [hq, route]
  rw [onWork, request?_modify_self hq]
  simp only [work, route]
  rw [modify_modify]
  rfl

theorem onWork_eq {wake : Nat} {wakeable : Bool} {rest : Bool → Activity ρ}
    (hq : e.request? r = some q) (unasked : q.cancelled = false)
    (work : q.work = .asleep wake wakeable rest) (now : wake ≤ e.now) :
    e.onWork r = e.runWork r q (rest false) := by
  rw [onWork]
  simp [hq, work, unasked, now]

section Running
variable (h : Orderly lane e sent (some (.work r))) (hq : e.request? r = some q)
  (stage : q.stage = .running)
include h hq stage

theorem Orderly.underway :
    q.begun ≠ none ∧ q.answer = none ∧ q.result = none ∧ e.due (.work r) = 0 ∧ r ∈ sent := by
  have sent : r ∈ sent := by
    by_contra unsent
    have pending := h.unsent r q hq unsent
    rw [stage] at pending
    cases pending
  cases h.jobs r q hq with
  | queued pending => simp [stage] at pending
  | finished _ isOver => simp [stage] at isOver
  | running _ begun _ result answer works =>
      rw [ahead, if_pos rfl] at works
      exact ⟨begun, answer, result, by omega, sent⟩

/-- A job that runs has been taken out of its queue. -/
theorem Orderly.taken : r ∉ e.queue (lane r) := by
  obtain ⟨past, doing, _, _, _, pending, _⟩ := h.cut (lane r)
  intro hr
  have waits := pending r hr
  rw [stage?_eq hq, stage] at waits
  cases waits

theorem Orderly.ended (o : Ending ρ) (rank : Rank) :
    Orderly lane (stopped e r (lane r) o rank) sent (some (.worker (lane r))) := by
  obtain ⟨begun, silent, _, undue, called⟩ := h.underway hq stage
  let f (q : Request ρ) : Request ρ := { q with work := .ended o, stage := .over, result := some o }
  have requestOf (r' : Nat) :
      (stopped e r (lane r) o rank).request? r' = (e.modify r f).request? r' := rfl
  have due (s : Signal) : (stopped e r (lane r) o rank).due s =
      e.due s + if .caller r = s then 1 else 0 := due_wake _ rank _ s
  have finished := alike_finish (e.modify r f) (lane r)
  have stageOf (r' : Nat) (hr : r ≠ r') :
      (stopped e r (lane r) o rank).stage? r' = e.stage? r' := stage?_modify_of_ne hr f
  have known : Engine.Booked { e.modify r f with lanes := e.lanes.finish (lane r) } sent :=
    (h.booked.modify r f).alike rfl rfl
  have booked : (stopped e r (lane r) o rank).Booked sent :=
    known.schedule e.now rank (by simp) (by simp)
  refine h.step (fun r' q' hq' => ?_) (fun _ => id) booked (fun r' hr' => ?_) (fun d hd => ?_)
    h.idle (fun a l hl => ?_) (fun r' hr' waits => ?_) fun a => ?_
  · by_cases hr : r = r'
    · subst hr
      rw [requestOf, request?_modify_self hq, Option.some.injEq] at hq'
      subst hq'
      refine .inr ⟨h.routes r q hq, fun unsent => absurd called unsent, ?_⟩
      refine .finished o rfl begun rfl rfl ?_ (.inl ⟨silent, ?_⟩)
      · simp [ahead, due, undue]
      · simp [ahead, due]
    · have same (s : Signal) (caller : Signal.caller r ≠ s) (work : Signal.work r ≠ s)
          (worker : Signal.worker (lane r) ≠ s) :
          (stopped e r (lane r) o rank).ahead (some (.worker (lane r))) s =
            e.ahead (some (.work r)) s := by
        simp [ahead, due, caller, work, worker]
      refine .inl ⟨(request?_modify ..).trans (if_neg hr), same _ (by simp) (by simp [hr]) (by simp),
        same _ (by simp [hr]) (by simp) (by simp), by simp [hr], fun d hd hs => ?_⟩
      obtain rfl | hd := Agenda.mem_push.1 hd
      · cases hs
      · exact hd
  · rw [requestOf, request?_modify_isSome]
    by_cases hr : r = r'
    · rw [← hr, hq]
      rfl
    · rw [due, if_neg fun hs => hr (Signal.caller.inj hs), Nat.add_zero] at hr'
      exact h.heard r' hr'
  · obtain rfl | hd := Agenda.mem_push.1 hd
    · rfl
    · exact h.signals d hd
  · have seen : ((stopped e r (lane r) o rank).lanes.get? a).map Lane.seen =
        (e.lanes.get? a).map Lane.seen := finished.lanes a
    rw [hl, Option.map_some] at seen
    obtain ⟨l₀, hl₀, hseen⟩ := Option.map_eq_some_iff.1 seen.symm
    exact (congrArg Prod.snd hseen).symm.trans (h.alive a l₀ hl₀)
  · by_cases hr : r = r'
    · subst hr
      rw [stage?, requestOf, request?_modify_self hq] at waits
      cases waits
    · rw [stageOf r' hr] at waits
      have line : (stopped e r (lane r) o rank).queue (lane r') = e.queue (lane r') :=
        finished.queue (lane r')
      rw [line]
      exact h.placed r' hr' waits
  · have workers : (stopped e r (lane r) o rank).due (.worker a) = e.due (.worker a) := by
      rw [due, if_neg (by simp), Nat.add_zero]
    by_cases ha : lane r = a
    · subst ha
      refine (h.cut (lane r)).retire called ?_ (h.taken hq stage) ?_
        (fun r' _ hr => stageOf r' hr) (finished.queue _) (finished.staff _) workers
      · rw [stage?_eq hq, stage]
        simp
      · rw [stage?, requestOf, request?_modify_self hq]
        rfl
    · refine (h.cut a).congr (finished.queue a) (finished.staff a) ?_ rfl fun r' _ ours => ?_
      · simp [workers, Signal.served, ha]
      · refine stageOf r' ?_
        rintro rfl
        exact ha ours

theorem Orderly.asleep (wake : Nat) (wakeable : Bool) (rest : Bool → Activity ρ) :
    Orderly lane ((e.modify r fun q => { q with work := .asleep wake wakeable rest }).schedule wake
      .background (.work r)) sent none := by
  obtain ⟨begun, silent, unfinished, undue, called⟩ := h.underway hq stage
  let f (q : Request ρ) : Request ρ := { q with work := .asleep wake wakeable rest }
  have due (s : Signal) : ((e.modify r f).schedule wake .background (.work r)).due s =
      e.due s + if .work r = s then 1 else 0 := due_schedule _ wake _ _ s
  have same (s : Signal) : ((e.modify r f).schedule wake .background (.work r)).ahead none s =
      e.ahead (some (.work r)) s := by
    simp [ahead, due]
  have booked : ((e.modify r f).schedule wake .background (.work r)).Booked sent := by
    refine (h.booked.modify r f).schedule wake .background (by simp) fun r' hs => ?_
    rw [request?_modify_isSome, ← Signal.work.inj hs, hq]
    rfl
  refine h.step (fun r' q' hq' => ?_) (fun _ => id) booked (fun r' hr' => ?_) (fun d hd => ?_)
    h.idle h.alive (fun r' hr' waits => ?_) fun a => ?_
  · by_cases hr : r = r'
    · subst hr
      have here : ((e.modify r f).schedule wake .background (.work r)).request? r = some (f q) :=
        request?_modify_self hq f
      rw [here, Option.some.injEq] at hq'
      subst hq'
      refine .inr ⟨h.routes r q hq, fun unsent => absurd called unsent, ?_⟩
      cases h.jobs r q hq with
      | queued pending => simp [stage] at pending
      | finished _ isOver => simp [stage] at isOver
      | running _ _ _ _ _ works callers =>
          refine .running stage begun rfl unfinished silent ((same _).trans works)
            ((same _).trans callers) (fun fresh => by cases fresh) ?_
          rintro _ _ _ hw d hd hs
          cases hw
          obtain rfl | hd := Agenda.mem_push.1 hd
          · exact Nat.le_refl _
          · exact absurd hs (not_due_of_mem undue hd)
    · refine .inl ⟨(request?_modify ..).trans (if_neg hr), same _, same _, by simp [hr],
        fun d hd hs => ?_⟩
      obtain rfl | hd := Agenda.mem_push.1 hd
      · exact absurd (Signal.work.inj hs) hr
      · exact hd
  · rw [due, if_neg (by simp), Nat.add_zero] at hr'
    exact (request?_modify_isSome ..).trans (h.heard r' hr')
  · obtain rfl | hd := Agenda.mem_push.1 hd
    · rfl
    · exact h.signals d hd
  · have stages : (e.modify r f).stage? r' = e.stage? r' :=
      stage?_modify (e := e) (f := f) (fun _ => rfl) r r'
    exact h.placed r' hr' (stages ▸ waits)
  · refine (h.cut a).congr rfl rfl ?_ rfl fun r' _ _ =>
      stage?_modify (e := e) (f := f) (fun _ => rfl) r r'
    rw [due, if_neg (by simp)]
    simp [Signal.served]

/-- The work of a job runs up to its end or its next wait. -/
theorem Orderly.run {p : Request ρ} (route : p.route = .lane (lane r)) (unasked : p.cancelled = false)
    (x : Activity ρ) :
    Orderly lane (e.runWork r p x) sent none ∧ (∀ a, (e.runWork r p x).queue a = e.queue a) ∧
      Runs e (e.runWork r p x) r q x := by
  have began := (h.underway hq stage).1
  have others (f : Request ρ → Request ρ) (r' : Nat) (hr : r ≠ r') :
      (e.modify r f).request? r' = e.request? r' := (request?_modify ..).trans (if_neg hr)
  rw [runWork, unasked]
  cases hadv : x.advance false e.world with
  | mk w pause =>
      have now : w.now = e.now := by
        have same := x.advance_now false e.world
        rw [hadv] at same
        exact same
      let e₁ : Engine ρ := { e with world := w }
      have order : Orderly lane e₁ sent (some (.work r)) := h.aside h.idle e.drains w
      have ends (o : Ending ρ) (work : (Work.ended o) = pause.jobWork e.now) :
          Orderly lane (e₁.endWork r p o) sent none ∧
            (∀ a, (e₁.endWork r p o).queue a = e.queue a) ∧ Runs e (e₁.endWork r p o) r q x := by
        rw [endWork_eq route]
        refine ⟨(order.ended hq stage o _).wake_worker .immediate,
          fun a => (alike_finish e (lane r)).queue a, ⟨⟨_, request?_modify_self hq _, ?_, began⟩,
            others _⟩⟩
        rw [hadv]
        exact work
      cases pause with
      | finished y => exact ends (.ok y) rfl
      | panicked =>
          simp only [route]
          exact ends (.error .aborted) rfl
      | asleep ms wakeable rest =>
          refine ⟨order.asleep hq stage (w.now + ms) wakeable rest, fun _ => rfl,
            ⟨⟨_, request?_modify_self hq _, ?_, began⟩, others _⟩⟩
          rw [hadv, ← now]
          rfl

/-- A job that has slept goes on. -/
theorem Orderly.resume {wake : Nat} {wakeable : Bool} {rest : Bool → Activity ρ}
    (work : q.work = .asleep wake wakeable rest) (now : wake ≤ e.now) :
    Orderly lane (e.onWork r) sent none ∧ Effect lane e (e.onWork r) (.work r) := by
  obtain ⟨route, unasked⟩ := h.routes r q hq
  have began := (h.underway hq stage).1
  have next : q.next? e.now = some (rest false) := by
    rw [Request.next?, work]
    simp [unasked, now]
  obtain ⟨order, line, runs⟩ := h.run hq stage route unasked (rest false)
  rw [onWork_eq hq unasked work now]
  exact ⟨order, .resumes r line hq began next runs⟩

end Running

section Worker
variable (h : Orderly lane e sent (some (.worker a)))
include h

/-- A worker that looks at its lane takes the job at the front, or finds none. -/
theorem Orderly.takeOrRetire :
    (∃ r rest x, e.queue a = r :: rest ∧
      e.lanes.takeOrRetire a = (some r, ⟨e.lanes.table.put a x⟩) ∧ x.dead = false ∧
        x.queue = rest) ∨
    e.queue a = [] ∧ e.lanes.takeOrRetire a = (none, ⟨e.lanes.table.erase a⟩) := by
  rw [Lanes.takeOrRetire, Lanes.take?, queue]
  cases hl : e.lanes.get? a with
  | none => exact .inr ⟨rfl, rfl⟩
  | some l =>
      cases line : l.queue with
      | nil => exact .inr ⟨line, by simp only [line]⟩
      | cons r rest =>
          exact .inl ⟨r, rest, { l with queue := rest, current := some r }, line,
            by simp only [line], h.alive a l hl, rfl⟩

/-- The job at the front of the queue has not begun. -/
theorem Orderly.front {rest : List Nat} (front : e.queue a = r :: rest) :
    lane r = a ∧ ∃ q x, e.request? r = some q ∧ q.work = .fresh x ∧ q.begun = none := by
  obtain ⟨called, ours, pending, _⟩ := (h.cut a).front h.booked.once front
  obtain ⟨q, hq⟩ := Option.isSome_iff_exists.1 (h.booked.made r called)
  have waiting : q.stage = .pending := Option.some.inj ((stage?_eq hq).symm.trans pending)
  cases h.jobs r q hq with
  | running stage => simp [stage] at waiting
  | finished _ stage => simp [stage] at waiting
  | queued _ fresh idle =>
      cases hw : q.work with
      | asleep | ended => simp [Request.isFresh, hw] at fresh
      | fresh x => exact ⟨ours, q, x, hq, hw, idle⟩

theorem Orderly.giveUp (empty : e.queue a = []) :
    Orderly lane { e with lanes := ⟨e.lanes.table.erase a⟩ } sent none ∧
      ∀ b, Engine.queue { e with lanes := ⟨e.lanes.table.erase a⟩ } b = e.queue b := by
  have laneOf (b : AggregateId) :
      Lanes.get? ⟨e.lanes.table.erase a⟩ b = if a = b then none else e.lanes.get? b :=
    Engine.get?_erase e.lanes a b
  have queueOf (b : AggregateId) :
      Engine.queue { e with lanes := ⟨e.lanes.table.erase a⟩ } b = e.queue b := by
    rw [queue, laneOf]
    split
    · rename_i hab
      rw [← hab, empty]
      rfl
    · rfl
  have same (s : Signal) (hs : Signal.worker a ≠ s) :
      e.ahead none s = e.ahead (some (.worker a)) s := ahead_of_ne e hs
  refine ⟨h.step (fun r q hq => .inl ⟨rfl, same _ (by simp), same _ (by simp), by simp,
    fun d hd _ => hd⟩) (fun _ => id) (h.booked.alike rfl rfl) h.heard h.signals h.idle
    (fun b l hl => ?_) (fun r hr waits => ?_) fun b => ?_, queueOf⟩
  · rw [laneOf] at hl
    split at hl
    · cases hl
    · exact h.alive b l hl
  · rw [queueOf]
    exact h.placed r hr waits
  · by_cases hab : a = b
    · subst hab
      refine (h.cut a).giveUp empty (fun _ _ => rfl) ((queueOf a).trans empty) ?_ rfl
      rw [staff, laneOf, if_pos rfl]
      rfl
    · refine (h.cut b).congr (queueOf b) ?_ ?_ rfl fun _ _ _ => rfl
      · rw [staff, laneOf, if_neg hab, staff]
      · simp [Signal.served, hab]
        rfl

/-- The job at the front of the queue is taken, and its work is about to begin. -/
theorem Orderly.taking {rest : List Nat} {x : Lane} (front : e.queue a = r :: rest)
    (alive : x.dead = false) (line : x.queue = rest) (t : Nat) :
    Orderly lane (({ e with lanes := ⟨e.lanes.table.put a x⟩ } : Engine ρ).modify r fun q =>
      { q with stage := .running, begun := some t }) sent (some (.work r)) := by
  obtain ⟨called, ours, pending, gone⟩ := (h.cut a).front h.booked.once front
  obtain ⟨q, hq⟩ := Option.isSome_iff_exists.1 (h.booked.made r called)
  have waiting : q.stage = .pending := Option.some.inj ((stage?_eq hq).symm.trans pending)
  let f (q : Request ρ) : Request ρ := { q with stage := .running, begun := some t }
  let taken : Engine ρ := ({ e with lanes := ⟨e.lanes.table.put a x⟩ } : Engine ρ).modify r f
  have laneOf (b : AggregateId) :
      taken.lanes.get? b = if a = b then some x else e.lanes.get? b :=
    Engine.get?_put e.lanes a b x
  have stageOf (r' : Nat) (hr : r ≠ r') : taken.stage? r' = e.stage? r' :=
    stage?_modify_of_ne hr f
  have here : taken.stage? r = some .running := stage?_eq (request?_modify_self hq f)
  have line : taken.queue a = rest := by
    rw [queue, laneOf, if_pos rfl]
    exact line
  have elsewhere (b : AggregateId) (hab : a ≠ b) : taken.queue b = e.queue b := by
    rw [queue, laneOf, if_neg hab, queue]
  have same (s : Signal) (work : Signal.work r ≠ s) (worker : Signal.worker a ≠ s) :
      taken.ahead (some (.work r)) s = e.ahead (some (.worker a)) s := by
    rw [ahead, ahead]
    simp [work, worker]
    rfl
  have booked : taken.Booked sent := (h.booked.modify r f).alike rfl rfl
  refine h.step (fun r' q' hq' => ?_) (fun _ => id) booked
    (fun r' hr' => (request?_modify_isSome ..).trans (h.heard r' hr')) h.signals h.idle
    (fun b l hl => ?_) (fun r' hr' waits => ?_) fun b => ?_
  · by_cases hr : r = r'
    · subst hr
      rw [show taken.request? r = some (f q) from request?_modify_self hq f,
        Option.some.injEq] at hq'
      subst hq'
      refine .inr ⟨h.routes r q hq, fun unsent => absurd called unsent, ?_⟩
      cases h.jobs r q hq with
      | running stage => simp [stage] at waiting
      | finished _ stage => simp [stage] at waiting
      | queued _ fresh _ result answer works callers =>
          have undue : e.due (.work r) = 0 := by
            rw [ahead] at works
            omega
          have goes : q.hasEnded = false := q.hasEnded_of_isFresh fresh
          refine .running rfl (by simp [f]) goes result answer ?_
            ((same _ (by simp) (by simp)).trans callers) (fun _ => rfl) fun _ _ _ hw => ?_
          · rw [ahead, if_pos rfl]
            exact congrArg (· + 1) undue
          · have asleep : q.work = _ := hw
            simp [Request.isFresh, asleep] at fresh
    · exact .inl ⟨(request?_modify ..).trans (if_neg hr), same _ (by simp [hr]) (by simp),
        same _ (by simp) (by simp), by simp, fun d hd _ => hd⟩
  · rw [laneOf] at hl
    split at hl
    · cases hl
      exact alive
    · exact h.alive b l hl
  · have hr : r ≠ r' := by
      rintro rfl
      rw [here] at waits
      cases waits
    rw [stageOf r' hr] at waits
    have old := h.placed r' hr' waits
    by_cases hab : a = lane r'
    · rw [← hab, front] at old
      rw [← hab, line]
      exact (List.mem_cons.1 old).resolve_left (Ne.symm hr)
    · rw [elsewhere _ hab]
      exact old
  · by_cases hab : a = b
    · subst hab
      refine (h.cut a).take h.booked.once front ?_ (fun r' _ hr => stageOf r' hr) line ?_ rfl
      · rw [here]
        simp
      · rw [staff, laneOf, if_pos rfl]
        rfl
    · refine (h.cut b).congr (elsewhere b hab) ?_ ?_ rfl fun r' _ theirs => stageOf r' ?_
      · rw [staff, laneOf, if_neg hab, staff]
      · simp [Signal.served, hab]
        rfl
      · rintro rfl
        exact hab (ours.symm.trans theirs)

/-- The worker of a lane begins the next job, or gives up the lane that it finds empty. -/
theorem Orderly.worker :
    Orderly lane (e.onWorker a) sent none ∧ Effect lane e (e.onWorker a) (.worker a) := by
  rw [onWorker]
  obtain ⟨r, rest, x, front, takes, alive, line⟩ | ⟨empty, retires⟩ := h.takeOrRetire
  · rw [takes]
    obtain ⟨ours, q, y, hq, work, idle⟩ := h.front front
    obtain ⟨route, unasked⟩ := h.routes r q hq
    let e₁ : Engine ρ := { e with lanes := ⟨e.lanes.table.put a x⟩ }
    let taken : Engine ρ :=
      e₁.modify r fun q => { q with stage := .running, begun := some e.now }
    have begins : e₁.startJob r = taken.runWork r { q with stage := .running } y :=
      startJob_eq (e := e₁) hq route work
    have order : Orderly lane taken sent (some (.work r)) := h.taking front alive line e.now
    obtain ⟨order, queue, ⟨here, others⟩⟩ := order.run (p := { q with stage := .running })
      (request?_modify_self hq _) rfl route unasked y
    have next : q.next? e.now = some y := by
      rw [Request.next?, work]
      simp [unasked]
    change Orderly lane (e₁.startJob r) sent none ∧ Effect lane e (e₁.startJob r) (.worker a)
    rw [begins]
    refine ⟨order, .begins a ours (fun b => ?_) hq idle next ⟨here, fun r' hr => ?_⟩⟩
    · have laneOf : taken.lanes.get? b = if a = b then some x else e.lanes.get? b :=
        Engine.get?_put e.lanes a b x
      rw [queue, Engine.queue, Engine.queue, laneOf]
      by_cases hab : a = b
      · subst hab
        simp only [if_true, Option.map_some, Option.getD_some, line]
        rw [← Engine.queue, front]
        simp [ours]
      · simp [hab, ours]
    · exact (others r' hr).trans ((request?_modify ..).trans (if_neg hr))
  · rw [retires]
    obtain ⟨order, queue⟩ := h.giveUp empty
    exact ⟨order.gauge, .rests rfl queue fun _ => rfl⟩

end Worker

/-- What holds of a signal that an engine with jobs in lanes meets: calls come once, and work that
goes on has begun and has slept long enough. -/
structure Meets (e : Engine ρ) (sent : List Nat) (s : Signal) : Prop where
  laning : s.isLaning = true
  calls : e.CallsOnce sent s
  ready : ∀ r, s = .work r → ∀ q, e.request? r = some q → q.stage = .running →
    q.isFresh = false ∧
      ∀ wake wakeable rest, q.work = .asleep wake wakeable rest → wake ≤ e.now

/-- Work that goes on has slept long enough. -/
theorem Orderly.sleeps (h : Orderly lane e sent (some (.work r))) (meets : Meets e sent (.work r))
    (hq : e.request? r = some q) : q.stage = .running ∧
      ∃ wake wakeable rest, q.work = .asleep wake wakeable rest ∧ wake ≤ e.now := by
  have here : 0 < e.ahead (some (.work r)) (.work r) := by simp [ahead]
  cases h.jobs r q hq with
  | queued _ _ _ _ _ works => omega
  | finished _ _ _ _ _ works => omega
  | running stage _ goes =>
      obtain ⟨old, ready⟩ := meets.ready r rfl q hq stage
      cases hw : q.work with
      | fresh x => simp [Request.isFresh, hw] at old
      | ended o => simp [Request.hasEnded, hw] at goes
      | asleep wake wakeable rest => exact ⟨stage, _, _, _, rfl, ready _ _ _ hw⟩

section Handle
variable {s : Signal} (h : Orderly lane e sent (some s))
include h

theorem Orderly.handle (meets : Meets e sent s) :
    Orderly lane (e.handle s) (sent ++ s.submits) none ∧ Effect lane e (e.handle s) s := by
  have nothing {e' : Engine ρ} {s : Signal} (kept : Orderly lane e' sent none ∧ Effect lane e e' s) :
      Orderly lane e' (sent ++ []) none ∧ Effect lane e e' s := by
    rw [List.append_nil]
    exact kept
  cases s with
  | slot | outcome | drained => cases meets.laning
  | call r =>
      obtain ⟨fresh, made, uncalled⟩ := meets.calls r rfl
      exact h.call fresh made uncalled
  | caller r =>
      refine nothing ?_
      cases hq : e.request? r with
      | some q => exact h.caller hq
      | none =>
          rw [Engine.handle, onCaller, hq]
          refine ⟨h.drop (fun r' made => ⟨by simp, ?_⟩) (by simp), .rests rfl (fun _ => rfl)
            fun _ => rfl⟩
          rintro hs
          cases hs
          rw [hq] at made
          cases made
  | worker a => exact nothing h.worker
  | work r =>
      refine nothing ?_
      cases hq : e.request? r with
      | some q =>
          obtain ⟨stage, wake, wakeable, rest, work, now⟩ := h.sleeps meets hq
          exact h.resume hq stage work now
      | none =>
          rw [Engine.handle, onWork, hq]
          refine ⟨h.drop (fun r' made => ⟨?_, by simp⟩) (by simp), .rests rfl (fun _ => rfl)
            fun _ => rfl⟩
          rintro hs
          cases hs
          rw [hq] at made
          cases made
  | close d => exact nothing h.close

end Handle
end LaneTraffic
end EventSourcing
