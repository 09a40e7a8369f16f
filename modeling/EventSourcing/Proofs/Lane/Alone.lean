import Mathlib.Algebra.GroupWithZero.Nat
import EventSourcing.Proofs.Lane.Follows

/-!
An aggregate on its own.
An engine whose jobs only sleep and compute comes to rest: each signal that it handles leaves one signal
less to come, of those that are due and those that the jobs will still send. So such jobs may be
submitted for one aggregate alone at any times, and be run for as long as one likes.
-/
namespace EventSourcing

namespace Activity
variable {ρ : Type} {x : Activity ρ}

/-- How often plain work goes to sleep at most, where nobody asks it to stop. -/
def sleeps : Activity ρ → Nat
  | .count _ k | .note _ k => k.sleeps
  | .sleep _ k => k.sleeps + 1
  | .sleepUnlessCancelled _ k => (k false).sleeps + 1
  | .cancelled k => (k false).sleeps
  | .done _ | .panic | .load .. | .append .. | .draw _ | .share _ => 0

/-- Plain work that goes to sleep has a sleep less before it. -/
theorem IsPlain.sleeps_lt (h : x.IsPlain) {w : World} {ms : Nat} {wakeable : Bool}
    {rest : Bool → Activity ρ} (asleep : (x.advance false w).2 = .asleep ms wakeable rest) :
    (rest false).sleeps < x.sleeps := by
  induction x generalizing w with
  | done | panic => cases asleep
  | load | append | draw | share => cases h
  | count m k ih | note n k ih => exact ih h asleep
  | cancelled k ih => exact ih false h asleep
  | sleep ms k ih =>
      rw [advance] at asleep
      split at asleep
      · exact Nat.lt_succ_of_lt (ih h asleep)
      · cases asleep
        exact Nat.lt_succ_self _
  | sleepUnlessCancelled ms k ih =>
      rw [advance] at asleep
      simp only [Bool.false_eq_true, if_false] at asleep
      split at asleep
      · exact Nat.lt_succ_of_lt (ih false h asleep)
      · cases asleep
        exact Nat.lt_succ_self _

end Activity

namespace Work
variable {ρ : Type} {w : Work ρ} {finish : Nat} {o : Ending ρ}

/-- What is left of the work only sleeps and computes. -/
def IsPlain : Work ρ → Prop
  | .fresh x => x.IsPlain
  | .asleep _ _ rest => (rest false).IsPlain
  | .ended _ => True

theorem Leads.isPlain (h : Leads finish o w) : w.IsPlain := by
  cases h with
  | ended => trivial
  | asleep plain => exact plain

/-- The signals that plain work will still send: one for each sleep, and at its end one to its caller
and one to the worker of its lane. -/
def toSend : Work ρ → Nat
  | .fresh x => x.sleeps + 2
  | .asleep _ _ rest => (rest false).sleeps + 2
  | .ended _ => 0

end Work

theorem Agenda.length_push {σ : Type} (d : Due σ) (a : Agenda σ) :
    (push d a).length = a.length + 1 := by
  simpa using countP_push (fun _ => true) d a

namespace LaneTraffic
open Engine
variable {ρ : Type} {lane : Nat → AggregateId} {e e' : Engine ρ} {t : Turn ρ} {ts : List (Turn ρ)}
  {sent : List Nat} {r : Nat} {p q : Request ρ} {a : AggregateId}

section Signals

/-- How many signals are to come: those that are due, and those that the jobs will still send. -/
def toCome (e : Engine ρ) : Nat :=
  e.agenda.length + (e.requests.map fun q => q.work.toSend).sum

theorem toCome_schedule (e : Engine ρ) (time : Nat) (rank : Rank) (s : Signal) :
    toCome (e.schedule time rank s) = toCome e + 1 := by
  rw [toCome, schedule, Agenda.length_push, toCome]
  exact Nat.add_right_comm ..

theorem toCome_wake (e : Engine ρ) (rank : Rank) (s : Signal) :
    toCome (e.wake rank s) = toCome e + 1 := toCome_schedule ..

theorem toCome_taken {before after : Agenda Signal} {d : Due Signal}
    (ha : e.agenda = before ++ d :: after) (time : Nat) :
    toCome (e.taken before after time) + 1 = toCome e := by
  rw [toCome, taken, toCome, ha]
  simp only [List.length_append, List.length_cons]
  omega

theorem sum_toSend_modify {requests : List (Request ρ)} (hq : requests[r]? = some q)
    (f : Request ρ → Request ρ) :
    ((requests.modify r f).map fun q => q.work.toSend).sum + q.work.toSend =
      (requests.map fun q => q.work.toSend).sum + (f q).work.toSend := by
  induction requests generalizing r with
  | nil => cases hq
  | cons first rest ih =>
      cases r with
      | zero =>
          cases hq
          simp only [List.modify_zero_cons, List.map_cons, List.sum_cons]
          omega
      | succ r =>
          have others := ih hq
          simp only [List.modify_succ_cons, List.map_cons, List.sum_cons]
          omega

section Job
variable (hq : e.request? r = some q)
include hq

theorem toCome_modify (f : Request ρ → Request ρ) :
    toCome (e.modify r f) + q.work.toSend = toCome e + (f q).work.toSend := by
  have sums := sum_toSend_modify hq f
  change e.agenda.length + ((e.requests.modify r f).map fun q => q.work.toSend).sum + _ =
    e.agenda.length + _ + _
  omega

/-- Work that ends sends its last two signals. -/
theorem toCome_endWork (route : p.route = .lane a) (o : Ending ρ) :
    toCome (e.endWork r p o) + q.work.toSend = toCome e + 2 := by
  have ended := toCome_modify hq fun q =>
    { q with work := .ended o, stage := .over, result := some o }
  rw [endWork_eq route, toCome_wake, stopped, toCome_wake]
  change toCome (e.modify r _) + 1 + 1 + _ = _
  rw [Nat.add_right_comm, Nat.add_right_comm _ 1, ended]
  rfl

/-- Work that runs sends no more than it was to send. -/
theorem toCome_runWork (route : p.route = .lane a) (unasked : p.cancelled = false)
    {x : Activity ρ} (plain : x.IsPlain) (work : q.work.toSend = x.sleeps + 2) :
    toCome (e.runWork r p x) ≤ toCome e := by
  rw [runWork, unasked]
  cases hadv : x.advance false e.world with
  | mk w pause =>
      have ends (o : Ending ρ) : toCome (({ e with world := w } : Engine ρ).endWork r p o) ≤
          toCome e := by
        have ended := toCome_endWork (e := { e with world := w }) hq route o
        change _ = toCome e + 2 at ended
        omega
      cases pause with
      | finished y => exact ends _
      | panicked => exact ends _
      | asleep ms wakeable rest =>
          have fewer := plain.sleeps_lt (w := e.world) (by rw [hadv])
          have sleeps := toCome_modify (e := { e with world := w }) hq fun q =>
            { q with work := .asleep (w.now + ms) wakeable rest }
          change _ = toCome e + ((rest false).sleeps + 2) at sleeps
          dsimp only
          rw [toCome_schedule]
          change toCome (Engine.modify { e with world := w } r fun q =>
            { q with work := .asleep (w.now + ms) wakeable rest }) + 1 ≤ _
          omega

end Job

/-- A signal that is handled sends what the jobs were to send, and no more. -/
theorem Orderly.toCome_handle {s : Signal} (h : Orderly lane e sent (some s))
    (meets : Meets e sent s) (none : s.submits = [])
    (plain : ∀ r q, e.request? r = some q → q.work.IsPlain) : toCome (e.handle s) ≤ toCome e := by
  cases s with
  | slot | outcome | drained => cases meets.laning
  | call r => cases none
  | caller r =>
      rw [Engine.handle, onCaller]
      cases hq : e.request? r with
      | none => exact Nat.le_refl _
      | some q =>
          have replied (o : Ending ρ) : toCome (e.tell r o) ≤ toCome e := by
            have same := toCome_modify hq fun q => { q with answer := some (e.now, o) }
            exact Nat.le_of_eq (Nat.add_right_cancel same)
          dsimp only
          split
          · exact Nat.le_refl _
          · split
            · exact replied _
            · split
              · exact replied _
              · exact Nat.le_refl _
  | worker a =>
      rw [Engine.handle, onWorker]
      obtain ⟨r, rest, x, front, takes, _, _⟩ | ⟨_, retires⟩ := h.takeOrRetire
      · obtain ⟨_, q, y, hq, work, _⟩ := h.front front
        obtain ⟨route, unasked⟩ := h.routes r q hq
        have fresh := plain r q hq
        rw [work] at fresh
        let e₁ : Engine ρ := { e with lanes := ⟨e.lanes.table.put a x⟩ }
        let f (q : Request ρ) : Request ρ := { q with stage := .running, begun := some e.now }
        have begun : toCome (e₁.modify r f) = toCome e :=
          Nat.add_right_cancel (toCome_modify (e := e₁) hq f)
        have runs := toCome_runWork (e := e₁.modify r f) (p := { q with stage := .running })
          (request?_modify_self hq f) route unasked fresh (congrArg Work.toSend work)
        rw [takes]
        change toCome (e₁.startJob r) ≤ _
        rw [startJob_eq (e := e₁) hq route work, ← begun]
        exact runs
      · rw [retires]
        exact Nat.le_refl _
  | work r =>
      rw [Engine.handle]
      cases hq : e.request? r with
      | none =>
          have idle : e.onWork r = e := by rw [onWork, hq]
          exact Nat.le_of_eq (congrArg toCome idle)
      | some q =>
          obtain ⟨_, wake, wakeable, rest, work, now⟩ := h.sleeps meets hq
          obtain ⟨route, unasked⟩ := h.routes r q hq
          have asleep := plain r q hq
          rw [work] at asleep
          rw [onWork_eq hq unasked work now]
          exact toCome_runWork hq route unasked asleep (congrArg Work.toSend work)
  | close d =>
      obtain ⟨ds, hds⟩ := onClose_eq h.idle d
      rw [Engine.handle, hds]
      exact Nat.le_refl _

end Signals

/-- All jobs only sleep and compute, and all of them have been submitted. -/
structure Plain (e : Engine ρ) (sent : List Nat) : Prop where
  plain : ∀ r q, e.request? r = some q → q.work.IsPlain
  called : ∀ r, (e.request? r).isSome → r ∈ sent

theorem plain_ofWorld (w : World) (c : PoolConfig) : Plain (ofWorld (ρ := ρ) w c) [] where
  plain r q hq := by cases hq
  called r made := by cases made

/-- Nobody is to be called. -/
theorem Plain.submits {d : Due Signal} (h : Plain e sent) (order : Orderly lane e sent none)
    (hd : d ∈ e.agenda) : d.signal.submits = [] := by
  cases hs : d.signal with
  | call r =>
      obtain ⟨unsent, made, _⟩ := order.booked.calls r (due_pos.2 ⟨_, d, hd, hs, rfl⟩)
      exact absurd (h.called r made) unsent
  | caller | worker | slot | outcome | work | close | drained => rfl

/-- Once those who are called in a turn have been, all that were made have been. -/
theorem Orderly.plain (order : Orderly lane t.engine sent (some t.signal))
    (meets : Meets t.engine sent t.signal)
    (plain : ∀ r q, t.engine.request? r = some q → q.work.IsPlain)
    (called : ∀ r, (t.engine.request? r).isSome → r ∈ sent ++ t.signal.submits) :
    Plain t.after (sent ++ t.signal.submits) where
  plain r q' hq' := by
    obtain ⟨q, hq, _⟩ := (order.moment meets).was r q' hq'
    obtain same | ⟨x, next, work⟩ := work_goes_on (order.handle meets).2 hq hq'
    · rw [same]
      exact plain r q hq
    · have runs : x.IsPlain := by
        have old := plain r q hq
        have unasked := (order.routes r q hq).2
        obtain fresh | ⟨wake, wakeable, rest, _, asleep, rfl⟩ := Request.next?_eq_some next
        · rw [fresh] at old
          exact old
        · simp only [Request.next?, asleep, unasked, Bool.and_false, Bool.false_eq_true,
            if_false] at next
          split at next
          · rw [asleep] at old
            exact Option.some.inj next ▸ old
          · cases next
      rw [work]
      exact (runs.leads ..).1.isPlain
  called r made := by
    obtain ⟨q', hq'⟩ := Option.isSome_iff_exists.1 made
    obtain ⟨q, hq, _⟩ := (order.moment meets).was r q' hq'
    exact called r (by rw [hq]; rfl)

section Courses
variable {w : World} {c : PoolConfig} {looked : List AggregateId} {τ : Nat}

theorem Course.punctual (course : Course lane OnTime (.ofWorld w c) ts e looked) :
    Punctual e e.DueAt := by
  induction course with
  | start => exact punctual_ofWorld w c
  | look _ _ _ ih => exact ih
  | between _ between ih => exact ih.passes (passes_between between)
  | turn course next _ ih =>
      obtain ⟨order, meets, _⟩ := (course.order (orderly_ofWorld w c)).next next
      exact (ih.passes (passes_next ih.ahead next)).turn order meets

theorem Course.sorted {clock : Engine ρ → Nat → Prop}
    (course : Course lane clock (.ofWorld w c) ts e looked) : e.Sorted := by
  induction course with
  | start => exact .nil
  | look _ _ _ ih => exact ih
  | between _ between ih => exact ih.between between
  | turn course next _ ih =>
      obtain ⟨order, meets, _⟩ := (course.order (orderly_ofWorld w c)).next next
      exact (order.moment meets).sorted (ih.next next)

/-- A job may be submitted at any time. -/
theorem Course.submit (course : Course lane OnTime (.ofWorld w c) ts e looked) (x : Activity ρ)
    (ours : a = lane e.requests.length) :
    ∃ looked', Course lane OnTime (.ofWorld w c) (ts ++ [submission e a x]) (submission e a x).after
      looked' :=
  course.step (.call _ ⟨_, _, _, _, rfl⟩ (congrArg Route.lane ours))

theorem request?_submission {x : Activity ρ} (hq : (submission e a x).engine.request? r = some q) :
    e.requests.length = r ∧
      ({ route := .lane a, limit := none, foreground := false, work := .fresh x } : Request ρ) = q ∨
    e.request? r = some q := by
  have added : (e.add _).2.request? r = some q := hq
  rw [request?_add] at added
  split at added
  · rename_i here
    exact .inl ⟨here, Option.some.inj added⟩
  · exact .inr added

section Plain
variable (course : Course lane OnTime (.ofWorld w c) ts e looked)
  (plain : Plain e (Turn.submitted ts))
include course plain

/-- What is due next may be handled, and fewer signals are to come after that. -/
theorem Course.handles {d : Due Signal} {rest : Agenda Signal} (ha : e.agenda = d :: rest) :
    ∃ t looked', Course lane OnTime (.ofWorld w c) (ts ++ [t]) t.after looked' ∧
      t.signal.submits = [] ∧ Plain t.after (Turn.submitted (ts ++ [t])) ∧
      toCome t.after < toCome e ∧ t.after.now = max e.now d.time := by
  let t : Turn ρ := ⟨e.taken [] rest (max e.now d.time), d.signal⟩
  have next : Next (Laning lane) OnTime e t :=
    .due _ ha (Nat.le_max_left ..) (Nat.le_max_right ..) (course.sorted.onTime ha)
  have order := course.order (orderly_ofWorld w c)
  obtain ⟨facing, meets, _⟩ := order.next next
  obtain ⟨looked', turned⟩ := course.step next
  have none : t.signal.submits = [] :=
    plain.submits order (by rw [ha]; exact List.mem_cons_self)
  have taken : toCome t.engine + 1 = toCome e := toCome_taken ha _
  have handled : toCome t.after ≤ toCome t.engine :=
    facing.toCome_handle meets none plain.plain
  refine ⟨t, looked', turned, none, ?_, by omega, (facing.moment meets).now⟩
  rw [Turn.submitted_concat]
  exact facing.plain meets plain.plain fun r made => List.mem_append_left _ (plain.called r made)

/-- Everything that is due before a time has been handled in the end, and the time comes. -/
theorem Course.rests (early : e.now ≤ τ) :
    ∃ ts' e' looked', Course lane OnTime (.ofWorld w c) (ts ++ ts') e' looked' ∧
      (∀ t ∈ ts', t.signal.submits = []) ∧ Plain e' (Turn.submitted (ts ++ ts')) ∧ e'.now = τ ∧
        quietBefore τ e' = true := by
  generalize hn : toCome e = n
  induction n using Nat.strongRecOn generalizing ts e looked with
  | ind n ih =>
      by_cases quiet : quietBefore τ e = true
      · let w' : World := { e.world with now := τ }
        have passed := course.between (.aside w' early (course.sorted.onTime_of_quiet quiet))
        rw [← List.append_nil ts] at passed plain
        exact ⟨[], _, _, passed, by simp, ⟨plain.plain, plain.called⟩, rfl, quiet⟩
      · cases ha : e.agenda with
        | nil => simp [quietBefore, ha] at quiet
        | cons d rest =>
            have soon : d.time < τ := by simpa [quietBefore, ha] using quiet
            obtain ⟨t, _, turned, none, plain, fewer, now⟩ := course.handles plain ha
            obtain ⟨ts', e', looked', course', silent, plain', rests⟩ :=
              ih _ (hn ▸ fewer) turned plain (by omega) rfl
            rw [List.append_assoc] at course' plain'
            exact ⟨t :: ts', e', looked', course', List.forall_mem_cons.2 ⟨none, silent⟩, plain',
              rests⟩

/-- Where a plain job is submitted, all jobs stay plain. -/
theorem Course.plain_submission {x : Activity ρ} (work : x.IsPlain)
    (ours : a = lane e.requests.length) :
    Plain (submission e a x).after (Turn.submitted (ts ++ [submission e a x])) ∧
      (submission e a x).after.now = e.now := by
  have next : Next (Laning lane) OnTime e (submission e a x) :=
    .call _ ⟨_, _, _, _, rfl⟩ (congrArg Route.lane ours)
  obtain ⟨facing, meets, _⟩ := (course.order (orderly_ofWorld w c)).next next
  rw [Turn.submitted_concat]
  refine ⟨facing.plain meets (fun r q hq => ?_) fun r made => ?_, (facing.moment meets).now⟩
  · obtain ⟨_, rfl⟩ | old := request?_submission hq
    · exact work
    · exact plain.plain r q old
  · obtain ⟨q, hq⟩ := Option.isSome_iff_exists.1 made
    obtain ⟨rfl, _⟩ | old := request?_submission hq
    · exact List.mem_append_right _ List.mem_cons_self
    · exact List.mem_append_left _ (plain.called r (by rw [old]; rfl))

end Plain

/-- Jobs are submitted one after the other. -/
theorem Course.times (course : Course lane OnTime (.ofWorld w c) ts e looked) (a : AggregateId) :
    w.now ≤ e.now ∧ ((arrivals lane a ts).Pairwise fun v v' => v.time ≤ v'.time) ∧
      ∀ v ∈ arrivals lane a ts, w.now ≤ v.time ∧ v.time ≤ e.now := by
  induction course with
  | start => exact ⟨Nat.le_refl _, .nil, by simp [arrivals]⟩
  | look _ _ _ ih => exact ih
  | between _ between ih =>
      obtain ⟨start, sorted, past⟩ := ih
      have later := (passes_between between).now
      exact ⟨Nat.le_trans start later, sorted, fun v hv =>
        ⟨(past v hv).1, Nat.le_trans (past v hv).2 later⟩⟩
  | @turn ts e _ t course next _ ih =>
      obtain ⟨start, sorted, past⟩ := ih
      obtain ⟨facing, meets, _⟩ := (course.order (orderly_ofWorld w c)).next next
      have now : t.after.now = t.time := (facing.moment meets).now
      have later : e.now ≤ t.time := (passes_next course.punctual.ahead next).now
      have here (v : Arrival ρ) (hv : v ∈ arrivals lane a [t]) : v.time = t.time :=
        time_of_mem_arrivals hv
      rw [arrivals_append, now]
      refine ⟨Nat.le_trans start later, List.pairwise_append.2 ⟨sorted, ?_, fun v hv v' hv' => ?_⟩,
        fun v hv => ?_⟩
      · exact List.pairwise_of_forall_mem_list fun v hv v' hv' =>
          Nat.le_of_eq ((here v hv).trans (here v' hv').symm)
      · rw [here v' hv']
        exact Nat.le_trans (past v hv).2 later
      · obtain old | new := List.mem_append.1 hv
        · exact ⟨(past v old).1, Nat.le_trans (past v old).2 later⟩
        · rw [here v new]
          exact ⟨Nat.le_trans start later, Nat.le_refl _⟩

/-- Plain jobs may be submitted for an aggregate at any times to come, where all others are for it as
well. -/
theorem Course.submits (course : Course (fun _ => a) OnTime (.ofWorld w c) ts e looked)
    (plain : Plain e (Turn.submitted ts)) (vs : List (Nat × Activity ρ))
    (works : ∀ v ∈ vs, v.2.IsPlain) (sorted : vs.Pairwise fun v v' => v.1 ≤ v'.1)
    (later : ∀ v ∈ vs, e.now ≤ v.1) (early : e.now ≤ τ) (past : ∀ v ∈ vs, v.1 ≤ τ) :
    ∃ ts' e' looked', Course (fun _ => a) OnTime (.ofWorld w c) (ts ++ ts') e' looked' ∧
      (arrivals (fun _ => a) a ts').map Arrival.terms = vs ∧ e'.now = τ ∧ quietBefore τ e' = true := by
  induction vs generalizing ts e looked with
  | nil =>
      obtain ⟨ts', e', looked', rested, silent, _, rests⟩ := course.rests plain early
      exact ⟨ts', e', looked', rested, by rw [arrivals_eq_nil silent]; rfl, rests⟩
  | cons v rest ih =>
      obtain ⟨here, sorted⟩ := List.pairwise_cons.1 sorted
      obtain ⟨work, works⟩ := List.forall_mem_cons.1 works
      obtain ⟨soon, _⟩ := List.forall_mem_cons.1 later
      obtain ⟨now, past⟩ := List.forall_mem_cons.1 past
      obtain ⟨ts₁, e₁, looked₁, rested, silent, plain₁, now₁, _⟩ := course.rests plain soon
      obtain ⟨_, called⟩ := rested.submit (a := a) v.2 rfl
      obtain ⟨plain₂, now₂⟩ := rested.plain_submission plain₁ work (a := a) rfl
      rw [now₁] at now₂
      obtain ⟨ts₂, e₂, looked₂, course₂, same, rests⟩ := ih called plain₂ works sorted
        (now₂ ▸ here) (now₂ ▸ now) past
      refine ⟨ts₁ ++ [submission e₁ a v.2] ++ ts₂, e₂, looked₂, by simpa using course₂, ?_, rests⟩
      rw [arrivals_append, arrivals_append, arrivals_eq_nil silent, arrivals_submission, if_pos rfl,
        List.map_append, same, now₁]
      rfl

/-- The jobs of an aggregate may be submitted at the same times without all others. -/
theorem Course.alone (course : Course lane OnTime (.ofWorld w c) ts e looked)
    (plain : ∀ v ∈ arrivals lane a ts, v.work.IsPlain) (τ : Nat) :
    ∃ ts' e' looked', Course (fun _ => a) OnTime (.ofWorld w c) ts' e' looked' ∧
      (arrivals lane a ts).map Arrival.terms = (arrivals (fun _ => a) a ts').map Arrival.terms ∧
        e'.Past τ := by
  obtain ⟨start, sorted, times⟩ := course.times a
  have new : Course (fun _ => a) OnTime (ofWorld (ρ := ρ) w c) [] _ [] := .start
  let vs : List (Nat × Activity ρ) := (arrivals lane a ts).map Arrival.terms
  have works : ∀ v ∈ vs, v.2.IsPlain := List.forall_mem_map.2 plain
  have later : ∀ v ∈ vs, w.now ≤ v.1 := List.forall_mem_map.2 fun v hv => (times v hv).1
  have soon : e.now ≤ max e.now τ + 1 := by omega
  have past : ∀ v ∈ vs, v.1 ≤ max e.now τ + 1 :=
    List.forall_mem_map.2 fun v hv => Nat.le_trans (times v hv).2 soon
  obtain ⟨ts', e', looked', course', same, now, quiet⟩ := new.submits (plain_ofWorld w c) vs works
    (List.pairwise_map.2 sorted) later (Nat.le_trans start soon) past
  refine ⟨ts', e', looked', course', same.symm, by omega, fun d hd => ?_⟩
  have later := course'.sorted.le_of_quiet quiet hd
  omega

end Courses

end LaneTraffic
end EventSourcing
