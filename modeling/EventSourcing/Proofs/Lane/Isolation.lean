import EventSourcing.Proofs.Lane.Alone

/-!
Aggregates do not disturb each other.
In every run in which no time passes over what is due, the jobs of an aggregate keep to the timetable of
this aggregate, whatever is submitted for other aggregates meanwhile. So two runs with the same jobs for
an aggregate, submitted at the same times, cannot be told apart by when these jobs start and end, or by
what comes of them; one of these runs is that in which nothing is submitted for other aggregates.
-/
namespace EventSourcing.LaneTraffic
open Engine
variable {ρ : Type} {lane : Nat → AggregateId} {e e' : Engine ρ} {ts : List (Turn ρ)}
  {sent : List Nat} {r : Nat} {q : Request ρ} {a : AggregateId} {row : Row ρ}
  {begun waiting : List (Arrival ρ)}

section Courses
variable {w : World} {c : PoolConfig} {looked : List AggregateId}

/-- An engine that is left to itself lets no time pass over what is due. -/
theorem Course.runOnTime (course : Course lane OnTime (.ofWorld w c) ts e looked)
    (goal : Engine ρ → Bool) (fuel : Nat) :
    ∃ looked', Course lane OnTime (.ofWorld w c) (ts ++ e.turns goal fuel) (e.runFor goal fuel)
      looked' := by
  refine keeps_runFor (P := fun ts e => ∃ looked, Course lane OnTime (.ofWorld w c) ts e looked)
    ⟨_, course⟩ (fun ts e d rest ha course => ?_) goal fuel
  obtain ⟨_, course⟩ := course
  exact course.step (.due _ ha (Nat.le_max_left ..) (Nat.le_max_right ..) (course.sorted.onTime ha))

/-- An engine is left to itself up to a moment. -/
theorem Course.upTo (course : Course lane OnTime (.ofWorld w c) ts e looked) (time fuel : Nat)
    (reached : let e' := e.runFor (quietBefore time) fuel
      quietBefore time e' = true ∧ e'.now ≤ time) :
    ∃ looked', Course lane OnTime (.ofWorld w c) (ts ++ e.turns (quietBefore time) fuel)
      { e.runFor (quietBefore time) fuel with world.now := time } looked' := by
  obtain ⟨looked', left⟩ := course.runOnTime (quietBefore time) fuel
  obtain ⟨quiet, later⟩ := reached
  let w : World := { (e.runFor (quietBefore time) fuel).world with now := time }
  exact ⟨looked', left.between (.aside w later (left.sorted.onTime_of_quiet quiet))⟩

/-- In every run the jobs of an aggregate keep to the timetable of all that were submitted for it. -/
theorem Course.served (course : Course lane OnTime (.ofWorld w c) ts e looked)
    (plain : ∀ v ∈ arrivals lane a ts, v.work.IsPlain) :
    ∃ begun waiting, arrivals lane a ts = begun ++ waiting ∧
      Served lane a e (Turn.submitted ts) begun waiting := by
  induction course with
  | start => exact ⟨[], [], rfl, served_ofWorld w c lane a⟩
  | look _ _ _ ih => exact ih plain
  | between course between ih =>
      obtain ⟨begun, waiting, same, served⟩ := ih plain
      have order := course.order (orderly_ofWorld w c)
      exact ⟨begun, waiting, same, served.passes order course.punctual (passes_between between)
        ((order.between between).2 a)⟩
  | @turn ts e _ t course next _ ih =>
      rw [arrivals_append] at plain ⊢
      obtain ⟨begun, waiting, same, served⟩ := ih fun v hv => plain v (List.mem_append_left _ hv)
      have order := course.order (orderly_ofWorld w c)
      have punctual := course.punctual
      have passes := passes_next punctual.ahead next
      obtain ⟨facing, meets, queue⟩ := order.next next
      have free (hs : t.signal = .worker a) : freeAfter 0 begun ≤ t.time := by
        obtain looks | ⟨_, asked⟩ := passes.asked (.worker a) t.time (.inl ⟨hs, rfl⟩)
        · have looks := due_pos.2 ⟨_, looks⟩
          have staff := order.workers a
          rw [Engine.staff] at staff
          have idle : (e.underway a).length = 0 := by
            split at staff <;> omega
          exact Nat.le_trans (served.free_le order (List.length_eq_zero_iff.1 idle)) passes.now
        · simp at asked
      rw [Turn.submitted_concat, same]
      exact (served.passes order punctual passes (queue a)).turn facing meets
        (punctual.passes passes) free fun v hv => plain v (List.mem_append_right _ hv)

end Courses

/-- What becomes of a job is what its row says, and it becomes so at the times of the row. -/
structure KeepsTo (e : Engine ρ) (r : Nat) (row : Row ρ) : Prop where
  starts : e.Past row.start → e.begun? r = some row.start
  started : ∀ τ, e.begun? r = some τ → τ = row.start ∧ τ ≤ e.now
  ends : e.Past row.finish →
    e.result? r = some row.ending ∧ e.answer? r = some (row.finish, row.ending)
  ended : ∀ o, e.result? r = some o → o = row.ending ∧ row.finish ≤ e.now
  replied : ∀ τ o, e.answer? r = some (τ, o) → τ = row.finish ∧ o = row.ending

section Rows
variable (order : Orderly lane e sent none) (punctual : Punctual e e.DueAt)
  (hq : e.request? r = some q)
include order punctual hq

theorem Follows.keepsTo (h : Follows e.now row q) : KeepsTo e r row := by
  have begun : e.begun? r = some row.start := by
    rw [begun?, hq, Option.bind_some, h.begun]
  obtain ⟨delivers, tells, _⟩ := order.delivers hq
  have own (o : Ending ρ) (work : q.work = .ended o) : o = row.ending := by
    have leads := h.leads
    rw [work] at leads
    cases leads
    rfl
  refine ⟨fun _ => begun, fun τ began => ?_, fun past => ?_, fun o result => ?_,
    fun τ o replied => ?_⟩
  · cases begun.symm.trans began
    exact ⟨rfl, h.past⟩
  · rw [result?, answer?, hq, Option.bind_some, Option.bind_some]
    cases order.jobs r q hq with
    | queued _ _ idle => cases h.begun.symm.trans idle
    | running _ _ goes =>
        obtain ⟨wake, wakeable, rest, asleep, _, time, _⟩ := h.asleep goes
        have due := punctual.rouses r q wake wakeable rest hq asleep
        exact (past.not_due due (by omega)).elim
    | finished o _ _ work result _ replied =>
        have isOver : q.hasEnded = true := by rw [Request.hasEnded, work]
        obtain ⟨silent, _⟩ | ⟨τ, replied⟩ := replied
        · have due := order.caller_due punctual hq isOver silent
          have finish := (h.ended isOver).2 silent
          exact (past.not_due due (by omega)).elim
        · rw [result, replied, h.replied τ o replied, own o work]
          exact ⟨rfl, rfl⟩
  · rw [result?, hq, Option.bind_some, delivers] at result
    exact ⟨own o result, (h.ended (by rw [Request.hasEnded, result])).1⟩
  · rw [answer?, hq, Option.bind_some] at replied
    exact ⟨h.replied τ o replied, own o ((delivers o).1 (tells τ o replied))⟩

end Rows

/-- Every job of the aggregate keeps to its row, whether it has begun or still waits. -/
theorem Served.keepsTo {v : Arrival ρ} (h : Served lane a e sent begun waiting)
    (order : Orderly lane e sent none) (punctual : Punctual e e.DueAt)
    (hrow : (v, row) ∈ timetable 0 (begun ++ waiting)) : KeepsTo e v.job row := by
  rw [timetable_append] at hrow
  obtain begun | waits := List.mem_append.1 hrow
  · obtain ⟨q, hq, follows⟩ := h.follows v row begun
    exact follows.keepsTo order punctual hq
  · have hv := mem_of_mem_timetable waits
    obtain ⟨start, finish⟩ := le_start waits
    obtain ⟨_, q, hq, fresh⟩ := h.fresh v hv
    have queued : v.job ∈ e.queue a := by
      rw [h.queue]
      exact List.mem_map_of_mem hv
    obtain ⟨_, _, idle⟩ := order.waits queued hq
    obtain ⟨delivers, tells, _⟩ := order.delivers hq
    have unfinished (o : Ending ρ) : q.result ≠ some o := by
      rw [Ne, delivers, fresh]
      simp
    have early (past : e.Past row.start) : False := by
      have soon := (h.waits v hv).2
      obtain looks | ⟨r, wake, sleeps, late⟩ := h.busy order punctual hv
      · exact past.not_due looks (by omega)
      · exact past.not_due sleeps (by omega)
    refine ⟨fun past => (early past).elim, fun τ began => ?_, fun past => ?_, fun o result => ?_,
      fun τ o replied => ?_⟩
    · rw [begun?, hq, Option.bind_some, idle] at began
      cases began
    · exact (early (past.mono (by omega))).elim
    · rw [result?, hq, Option.bind_some] at result
      exact absurd result (unfinished o)
    · rw [answer?, hq, Option.bind_some] at replied
      exact absurd (tells τ o replied) (unfinished o)

theorem Course.keepsTo {w : World} {c : PoolConfig} {looked : List AggregateId} {v : Arrival ρ}
    (course : Course lane OnTime (.ofWorld w c) ts e looked)
    (plain : ∀ v ∈ arrivals lane a ts, v.work.IsPlain)
    (hrow : (v, row) ∈ timetable 0 (arrivals lane a ts)) : KeepsTo e v.job row := by
  obtain ⟨begun, waiting, same, served⟩ := course.served plain
  exact served.keepsTo (course.order (orderly_ofWorld w c)) course.punctual (same ▸ hrow)

/-- Up to a time, a job began in one run when another did in another run, and their callers were told
the same at the same times. -/
def Agree (τ : Nat) (e e' : Engine ρ) (r r' : Nat) : Prop :=
  ∀ t ≤ τ, (e.begun? r = some t ↔ e'.begun? r' = some t) ∧
    ∀ o, e.answer? r = some (t, o) ↔ e'.answer? r' = some (t, o)

/-- Jobs with one row look the same. -/
theorem KeepsTo.agree {τ r' : Nat} (h : KeepsTo e r row) (h' : KeepsTo e' r' row) (past : e.Past τ)
    (past' : e'.Past τ) : Agree τ e e' r r' := by
  refine fun t soon => ⟨⟨fun began => ?_, fun began => ?_⟩,
    fun o => ⟨fun replied => ?_, fun replied => ?_⟩⟩
  · obtain ⟨rfl, _⟩ := h.started t began
    exact h'.starts (past'.mono soon)
  · obtain ⟨rfl, _⟩ := h'.started t began
    exact h.starts (past.mono soon)
  · obtain ⟨rfl, rfl⟩ := h.replied t o replied
    exact (h'.ends (past'.mono soon)).2
  · obtain ⟨rfl, rfl⟩ := h'.replied t o replied
    exact (h.ends (past.mono soon)).2

/-- Whatever is submitted for other aggregates, the jobs of an aggregate that only sleep and compute
keep to the timetable of this aggregate alone: each starts at the later of its submission and the end
of the job before it, ends as much later as it sleeps, and comes to what it comes to on its own. The
run without all other submissions exists, for as long as one likes; and in any second run in which the
same jobs are submitted for the aggregate at the same times, as in this one, they start and end at the
same times and come to the same. -/
theorem aggregates_do_not_disturb_each_other (w : World) (c : PoolConfig)
    {looked : List AggregateId} (course : Course lane OnTime (.ofWorld w c) ts e looked)
    (a : AggregateId) (plain : ∀ v ∈ arrivals lane a ts, v.work.IsPlain) :
    (arrivals lane a ts).map Arrival.job = (Turn.submitted ts).filter (lane · = a) ∧
      (∀ v row, (v, row) ∈ timetable 0 (arrivals lane a ts) → KeepsTo e v.job row) ∧
      (∀ τ, ∃ (ts' : List (Turn ρ)) (e' : Engine ρ) (looked' : List AggregateId),
        Course (fun _ => a) OnTime (.ofWorld w c) ts' e' looked' ∧
        (arrivals lane a ts).map Arrival.terms = (arrivals (fun _ => a) a ts').map Arrival.terms ∧
        e'.Past τ) ∧
      ∀ (lane' : Nat → AggregateId) (w' : World) (c' : PoolConfig) (ts' : List (Turn ρ))
        (e' : Engine ρ) (looked' : List AggregateId),
        Course lane' OnTime (.ofWorld w' c') ts' e' looked' →
        (arrivals lane a ts).map Arrival.terms = (arrivals lane' a ts').map Arrival.terms →
        ∀ (i : Nat) (v v' : Arrival ρ),
          (arrivals lane a ts)[i]? = some v → (arrivals lane' a ts')[i]? = some v' →
          ∀ τ, e.Past τ → e'.Past τ → Agree τ e e' v.job v'.job := by
  obtain ⟨begun, waiting, same, served⟩ := course.served plain
  refine ⟨same ▸ served.calls, fun v row => course.keepsTo plain, course.alone plain, ?_⟩
  intro lane' w' c' ts' e' looked' course' alike i v v' hv hv' τ past past'
  have plain' (u : Arrival ρ) (hu : u ∈ arrivals lane' a ts') : u.work.IsPlain := by
    have mine : u.terms ∈ (arrivals lane' a ts').map Arrival.terms := List.mem_map_of_mem hu
    rw [← alike] at mine
    obtain ⟨u', hu', same⟩ := List.mem_map.1 mine
    exact (Prod.mk.inj same).2 ▸ plain u' hu'
  obtain ⟨row, hrow⟩ := exists_row 0 hv
  obtain ⟨row', hrow'⟩ := exists_row 0 hv'
  obtain rfl := row_eq alike hrow hrow'
  exact (course.keepsTo plain (List.mem_of_getElem? hrow)).agree
    (course'.keepsTo plain' (List.mem_of_getElem? hrow')) past past'

/-- A job of one aggregate breaks down while one of another runs; a second job of the first aggregate
that has come in meanwhile starts when the first is over. Without the other aggregate it is the same.
-/
theorem second_job_starts_when_the_first_is_over :
    let a : AggregateId := ⟨"a.b", "c"⟩
    let b : AggregateId := ⟨"a", "b.c"⟩
    let lane (r : Nat) : AggregateId := if r = 1 then b else a
    let w : World := { readings := fun n => ⟨n, 0⟩, shares := fun _ => 0 }
    let first : Activity Nat := .sleep 50 .panic
    let second : Activity Nat := .sleep 20 (.done 2)
    ∃ (ts ts' : List (Turn Nat)) (e e' : Engine Nat) (looked looked' : List AggregateId),
      Course lane OnTime (.ofWorld w {}) ts e looked ∧
      Course (fun _ => a) OnTime (.ofWorld w {}) ts' e' looked' ∧
      arrivals lane a ts = [⟨0, 0, first⟩, ⟨2, 20, second⟩] ∧
      arrivals lane b ts = [⟨1, 0, .sleep 60 (.done 1)⟩] ∧
      arrivals (fun _ => a) a ts' = [⟨0, 0, first⟩, ⟨1, 20, second⟩] ∧
      e.answer? 0 = some (50, .error .aborted) ∧ e.begun? 2 = some 50 ∧
      e.answer? 2 = some (70, .ok 2) ∧ Agree 70 e e' 0 0 ∧ Agree 70 e e' 2 1 := by
  intro a b lane w first second
  let e₀ : Engine Nat := .ofWorld w {}
  let t₁ := submission e₀ a first
  let t₂ := submission t₁.after b (.sleep 60 (.done 1))
  let last (e : Engine Nat) : Turn Nat := submission e a second
  let rest (e : Engine Nat) : List (Turn Nat) := (last e).after.turns (fun _ => false) 40
  let done (e : Engine Nat) : Engine Nat := (last e).after.runFor (fun _ => false) 40
  obtain ⟨early, e₂, ⟨_, before⟩, two, silent, past⟩ : ∃ early e,
      (∃ looked, Course lane OnTime e₀ ([] ++ [t₁] ++ [t₂] ++ early) e looked) ∧
      (e.requests.length = 2 ∧ e.now = 20) ∧
      ((∀ t ∈ early, t.signal.submits = []) ∧ ∀ t ∈ rest e, t.signal.submits = []) ∧
      (done e).Past 70 := by
    have new : Course lane OnTime e₀ [] e₀ [] := .start
    obtain ⟨_, course⟩ := new.submit (a := a) first rfl
    obtain ⟨_, course⟩ := course.submit (a := b) (.sleep 60 (.done 1)) rfl
    exact ⟨_, _, course.upTo 20 40 (by decide +kernel), by decide +kernel, by decide +kernel,
      by decide +kernel⟩
  obtain ⟨early', e₁, ⟨_, before'⟩, one, silent', past'⟩ : ∃ early e,
      (∃ looked, Course (fun _ => a) OnTime e₀ ([] ++ [t₁] ++ early) e looked) ∧
      (e.requests.length = 1 ∧ e.now = 20) ∧
      ((∀ t ∈ early, t.signal.submits = []) ∧ ∀ t ∈ rest e, t.signal.submits = []) ∧
      (done e).Past 70 := by
    have new : Course (fun _ => a) OnTime e₀ [] e₀ [] := .start
    obtain ⟨_, course⟩ := new.submit first rfl
    exact ⟨_, _, course.upTo 20 40 (by decide +kernel), by decide +kernel, by decide +kernel,
      by decide +kernel⟩
  let ts := [] ++ [t₁] ++ [t₂] ++ early ++ [last e₂] ++ rest e₂
  let ts' := [] ++ [t₁] ++ early' ++ [last e₁] ++ rest e₁
  obtain ⟨looked, course⟩ : ∃ looked, Course lane OnTime e₀ ts (done e₂) looked := by
    obtain ⟨_, course⟩ := before.submit (a := a) second (by rw [two.1]; rfl)
    exact course.runOnTime (fun _ => false) 40
  obtain ⟨looked', course'⟩ : ∃ looked, Course (fun _ => a) OnTime e₀ ts' (done e₁) looked := by
    obtain ⟨_, course⟩ := before'.submit second rfl
    exact course.runOnTime (fun _ => false) 40
  have mine : arrivals lane a ts = [⟨0, 0, first⟩, ⟨2, 20, second⟩] := by
    simp only [ts, last, arrivals_append, t₁, t₂, arrivals_submission, two,
      arrivals_eq_nil silent.1, arrivals_eq_nil silent.2]
    rfl
  have others : arrivals lane b ts = [⟨1, 0, .sleep 60 (.done 1)⟩] := by
    simp only [ts, last, arrivals_append, t₁, t₂, arrivals_submission, two,
      arrivals_eq_nil silent.1, arrivals_eq_nil silent.2]
    rfl
  have mine' : arrivals (fun _ => a) a ts' = [⟨0, 0, first⟩, ⟨1, 20, second⟩] := by
    simp only [ts', last, arrivals_append, t₁, arrivals_submission, one,
      arrivals_eq_nil silent'.1, arrivals_eq_nil silent'.2]
    rfl
  clear_value ts ts'
  obtain ⟨_, keeps, _, same⟩ := aggregates_do_not_disturb_each_other w {} course a
    (by simp [mine, first, second, Activity.IsPlain])
  have agree := same (fun _ => a) w {} ts' _ looked' course' (by rw [mine, mine']; rfl)
  rw [mine] at keeps
  rw [mine, mine'] at agree
  have broken := keeps ⟨0, 0, first⟩ ⟨0, 50, .error .aborted⟩ List.mem_cons_self
  have late := keeps ⟨2, 20, second⟩ ⟨50, 70, .ok 2⟩ (List.mem_cons_of_mem _ List.mem_cons_self)
  exact ⟨ts, ts', _, _, looked, looked', course, course', mine, others, mine',
    (broken.ends (past.mono (by decide))).2, late.starts (past.mono (by decide)),
    (late.ends past).2, agree 0 _ _ rfl rfl 70 past past', agree 1 _ _ rfl rfl 70 past past'⟩

end EventSourcing.LaneTraffic
