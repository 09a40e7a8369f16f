import Mathlib.Algebra.BigOperators.Intervals
import EventSourcing.Proofs.Interleaving
import EventSourcing.Proofs.Store.Clock
import EventSourcing.Retry.Loop

/-!
Attempts under a policy.
An operation is attempted, its outcome is judged, and after a wait it is attempted again, until an
outcome is accepted or the last attempt is made. What is called may remember earlier calls: its n-th
call is given apart from the others, and so is what it does to the world. The time that passes is
that of the calls and of the waits, of which each lasts as long as was decided, or thirty years if
that is less.
-/
namespace EventSourcing.Retry
variable {ρ : Type}

/-- How long to wait after an attempt. The random part of a wait of the policy's own comes from the
next share of the world. -/
def wait (p : Policy) (attempt : Nat) (w : World) : Decision → Nat
  | .retryAfter ms => ms
  | _ => backoff p.delay attempt w.share.1

/-- The world after the wait that follows an attempt. -/
def paused (p : Policy) (attempt : Nat) (w : World) (d : Decision) : World :=
  let v := match d with
    | .retryAfter _ => w
    | _ => if drawsJitter Float p.delay attempt then w.share.2 else w
  { v.count .retryAttempts with now := w.now + Activity.sleepSpan (wait p attempt w d) }

/-- A wait that has no random part is the same for all shares. -/
theorem backoff_of_not_drawsJitter {delay attempt : Nat}
    (h : drawsJitter Float delay attempt = false) (x y : Float) :
    backoff delay attempt x = backoff delay attempt y := by
  have none : ¬ WaitNumber.isPositive (base delay attempt : Float) = true := by
    rw [← drawsJitter, h]
    exact Bool.false_ne_true
  simp only [backoff, if_neg none]

theorem run_pauseThen (p : Policy) (attempt : Nat) (k : Activity ρ) (d : Decision) (w : World) :
    (pauseThen p attempt k d).run w = k.run (paused p attempt w d) := by
  have own : ((if drawsJitter Float p.delay attempt then
      .share fun x => .count .retryAttempts (.sleep (backoff p.delay attempt x) k)
      else .count .retryAttempts (.sleep (backoff p.delay attempt (0 : Float)) k) :
        Activity ρ)).run w = k.run (paused p attempt w .retry) := by
    cases h : drawsJitter Float p.delay attempt with
    | true =>
        simp only [paused, wait, h, if_true]
        rfl
    | false =>
        simp only [paused, wait, h]
        rw [backoff_of_not_drawsJitter h w.share.1 0]
        rfl
  cases d with
  | retryAfter ms => rfl
  | stop => exact own
  | retry => exact own

/-- The calls that are made from attempt `first` on, where `limit` is the last that may be made. -/
structure Course (p : Policy) (operation : Nat → Activity ρ) (judge : Nat → ρ → Activity Decision)
    (first limit : Nat) (w : World) where
  /-- The number of the attempt that is the last. -/
  final : Nat
  outcome : Nat → ρ
  decision : Nat → Decision
  /-- The worlds in which an attempt begins and ends, and in which its outcome has been judged. -/
  before : Nat → World
  after : Nat → World
  judged : Nat → World
  first_le : first ≤ final
  le_limit : final ≤ limit
  starts : before first = w
  attempts : ∀ n, first ≤ n → n ≤ final → (operation n).run (before n) = (some (outcome n), after n)
  /-- Each outcome is judged once, but not that of an attempt after which none may follow. -/
  judges : ∀ n, first ≤ n → n ≤ final → n < limit →
    (judge n (outcome n)).run (after n) = (some (decision n), judged n)
  goes_on : ∀ n, first ≤ n → n < final →
    decision n ≠ .stop ∧ before (n + 1) = paused p n (judged n) (decision n)
  settles : final < limit → decision final = .stop

namespace Course
variable {p : Policy} {operation : Nat → Activity ρ} {judge : Nat → ρ → Activity Decision}
  {first limit : Nat} {w : World}

/-- The world after all calls. -/
def finish (c : Course p operation judge first limit w) : World :=
  if c.final < limit then c.judged c.final else c.after c.final

/-- What is waited after an attempt. -/
def wait (c : Course p operation judge first limit w) (n : Nat) : Nat :=
  Retry.wait p n (c.judged n) (c.decision n)

/-- How long an attempt took. -/
def took (c : Course p operation judge first limit w) (n : Nat) : Nat :=
  (c.after n).now - (c.before n).now

/-- How long it took to judge an outcome. -/
def weighed (c : Course p operation judge first limit w) (n : Nat) : Nat :=
  (c.judged n).now - (c.after n).now

/-- The last attempt that may be made ends the course. -/
def last {o : ρ} {v : World} (h : (operation limit).run w = (some o, v)) :
    Course p operation judge limit limit w where
  final := limit
  outcome _ := o
  decision _ := .stop
  before _ := w
  after _ := v
  judged _ := v
  first_le := Nat.le_refl _
  le_limit := Nat.le_refl _
  starts := rfl
  attempts n least most := by
    rw [Nat.le_antisymm most least]
    exact h
  judges n least _ below := absurd below (Nat.not_lt.2 least)
  goes_on n least below := absurd below (Nat.not_lt.2 least)
  settles below := absurd below (Nat.lt_irrefl _)

/-- An outcome that is accepted ends the course. -/
def accepted {o : ρ} {v u : World} (h : (operation first).run w = (some o, v))
    (stop : (judge first o).run v = (some .stop, u)) (more : first < limit) :
    Course p operation judge first limit w where
  final := first
  outcome _ := o
  decision _ := .stop
  before _ := w
  after _ := v
  judged _ := u
  first_le := Nat.le_refl _
  le_limit := Nat.le_of_lt more
  starts := rfl
  attempts n least most := by
    rw [Nat.le_antisymm most least]
    exact h
  judges n least most _ := by
    rw [Nat.le_antisymm most least]
    exact stop
  goes_on n least below := absurd below (Nat.not_lt.2 least)
  settles _ := rfl

/-- An outcome that is not accepted is followed by all calls from the next attempt on. -/
def again {o : ρ} {d : Decision} {v u : World} (h : (operation first).run w = (some o, v))
    (hd : (judge first o).run v = (some d, u)) (unsettled : d ≠ .stop)
    (rest : Course p operation judge (first + 1) limit (paused p first u d)) :
    Course p operation judge first limit w where
  final := rest.final
  outcome n := if n = first then o else rest.outcome n
  decision n := if n = first then d else rest.decision n
  before n := if n = first then w else rest.before n
  after n := if n = first then v else rest.after n
  judged n := if n = first then u else rest.judged n
  first_le := Nat.le_of_succ_le rest.first_le
  le_limit := rest.le_limit
  starts := if_pos rfl
  attempts n least most := by
    by_cases here : n = first
    · subst here
      simpa using h
    · simpa [here] using rest.attempts n (by omega) most
  judges n least most below := by
    by_cases here : n = first
    · subst here
      simpa using hd
    · simpa [here] using rest.judges n (by omega) most below
  goes_on n least below := by
    by_cases here : n = first
    · subst here
      simpa [unsettled] using rest.starts
    · have later : n + 1 ≠ first := by omega
      simpa [here, later] using rest.goes_on n (by omega) below
  settles below := by
    have later : rest.final ≠ first := by
      have := rest.first_le
      omega
    simpa [later] using rest.settles below

theorem finish_again {o : ρ} {d : Decision} {v u : World}
    (h : (operation first).run w = (some o, v)) (hd : (judge first o).run v = (some d, u))
    (unsettled : d ≠ .stop)
    (rest : Course p operation judge (first + 1) limit (paused p first u d)) :
    let c := again h hd unsettled rest
    c.outcome c.final = rest.outcome rest.final ∧ c.finish = rest.finish := by
  have later : rest.final ≠ first := by
    have := rest.first_le
    omega
  simp [again, finish, later]

end Course

theorem exists_result {α : Type} {x : Activity α} {w : World} (h : (x.run w).1.isSome) :
    ∃ a v, x.run w = (some a, v) := by
  obtain ⟨a, answer⟩ := Option.isSome_iff_exists.1 h
  exact ⟨a, (x.run w).2, Prod.ext answer rfl⟩

theorem exists_of_run_bind {α β : Type} {x : Activity α} {f : α → Activity β} {b : β} {w v : World}
    (h : (x.bind f).run w = (some b, v)) :
    ∃ a u, x.run w = (some a, u) ∧ (f a).run u = (some b, v) := by
  rw [Activity.run_bind] at h
  split at h
  · rename_i a u first
    exact ⟨a, u, first, h⟩
  · cases h

/-- Attempts that come to an outcome are made in a course that ends with it. -/
theorem course_of_run {p : Policy} {operation : Nat → Activity ρ}
    {judge : Nat → ρ → Activity Decision} {attempt further limit : Nat}
    (left : attempt + further = limit) {o : ρ} {w v : World}
    (h : (attemptFrom p operation judge attempt further).run w = (some o, v)) :
    ∃ c : Course p operation judge attempt limit w, c.outcome c.final = o ∧ c.finish = v := by
  induction further generalizing attempt w with
  | zero =>
      obtain rfl := left
      exact ⟨.last h, rfl, if_neg (Nat.lt_irrefl _)⟩
  | succ further ih =>
      rw [attemptFrom] at h
      obtain ⟨outcome, u, tried, h⟩ := exists_of_run_bind h
      obtain ⟨d, u', judged, h⟩ := exists_of_run_bind h
      by_cases stop : d = .stop
      · subst stop
        have more : attempt < limit := by omega
        obtain ⟨same, ends⟩ := Prod.mk.inj h
        exact ⟨.accepted tried judged more, Option.some.inj same, (if_pos more).trans ends⟩
      · have again : (pauseThen p attempt
            (attemptFrom p operation judge (attempt + 1) further) d).run u' = (some o, v) := by
          cases d with
          | stop => exact absurd rfl stop
          | retry => exact h
          | retryAfter ms => exact h
        rw [run_pauseThen] at again
        have fewer : attempt + 1 + further = limit := by omega
        obtain ⟨rest, last, ends⟩ := ih fewer again
        obtain ⟨outcome, finish⟩ := Course.finish_again tried judged stop rest
        exact ⟨.again tried judged stop rest, outcome.trans last, finish.trans ends⟩

section Runs
variable (p : Policy) {operation : Nat → Activity ρ} {judge : Nat → ρ → Activity Decision}
  (answers : ∀ n w, ((operation n).run w).1.isSome)
  (decides : ∀ n o w, ((judge n o).run w).1.isSome)
include answers decides

theorem isSome_run_attemptFrom (further attempt : Nat) (w : World) :
    ((attemptFrom p operation judge attempt further).run w).1.isSome := by
  induction further generalizing attempt w with
  | zero => exact answers attempt w
  | succ further ih =>
      obtain ⟨o, v, h⟩ := exists_result (answers attempt w)
      obtain ⟨d, u, hd⟩ := exists_result (decides attempt o v)
      have rest := ih (attempt + 1) (paused p attempt u d)
      rw [← run_pauseThen] at rest
      rw [attemptFrom, Activity.run_bind, h]
      simp only [Activity.run_bind, hd]
      cases d with
      | stop => rfl
      | retry => exact rest
      | retryAfter ms => exact rest

/-- The attempts that are left are made in a course, and end with its last outcome. -/
theorem exists_course {attempt further limit : Nat} (left : attempt + further = limit) (w : World) :
    ∃ c : Course p operation judge attempt limit w,
      (attemptFrom p operation judge attempt further).run w =
        (some (c.outcome c.final), c.finish) := by
  obtain ⟨o, v, run⟩ := exists_result (isSome_run_attemptFrom p answers decides further attempt w)
  obtain ⟨c, outcome, finish⟩ := course_of_run left run
  exact ⟨c, by rw [run, outcome, finish]⟩

end Runs

namespace Course
variable {p : Policy} {operation : Nat → Activity ρ} {judge : Nat → ρ → Activity Decision}
  {first limit : Nat} {w : World} (c : Course p operation judge first limit w)

theorem now_after {n : Nat} (least : first ≤ n) (most : n ≤ c.final) :
    (c.after n).now = (c.before n).now + c.took n := by
  have later := (operation n).now_le_run (c.before n)
  rw [c.attempts n least most] at later
  exact (Nat.add_sub_cancel' later).symm

theorem now_judged {n : Nat} (least : first ≤ n) (most : n ≤ c.final) (asked : n < limit) :
    (c.judged n).now = (c.after n).now + c.weighed n := by
  have later := (judge n (c.outcome n)).now_le_run (c.after n)
  rw [c.judges n least most asked] at later
  exact (Nat.add_sub_cancel' later).symm

theorem now_again {n : Nat} (least : first ≤ n) (more : n < c.final) :
    (c.before (n + 1)).now =
      (c.before n).now + c.took n + c.weighed n + min (c.wait n) Activity.longestSleep := by
  rw [(c.goes_on n least more).2, ← c.now_after least (Nat.le_of_lt more),
    ← c.now_judged least (Nat.le_of_lt more) (Nat.lt_of_lt_of_le more c.le_limit)]
  rfl

/-- How much time has passed before an attempt. -/
theorem now_before {n : Nat} (least : first ≤ n) (most : n ≤ c.final) :
    (c.before n).now = w.now + ∑ i ∈ Finset.Ico first n,
      (c.took i + c.weighed i + min (c.wait i) Activity.longestSleep) := by
  induction n, least using Nat.le_induction with
  | base => rw [c.starts, Finset.Ico_self, Finset.sum_empty, Nat.add_zero]
  | succ n least ih =>
      rw [Finset.sum_Ico_succ_top least, c.now_again least most, ih (Nat.le_of_succ_le most)]
      simp only [Nat.add_assoc]

/-- All time that passes is that of the attempts, of the judgements and of the waits. -/
theorem now_finish :
    c.finish.now = w.now + ∑ n ∈ Finset.Icc first c.final, c.took n +
      ∑ n ∈ Finset.Ico first (min (c.final + 1) limit), c.weighed n +
      ∑ n ∈ Finset.Ico first c.final, min (c.wait n) Activity.longestSleep := by
  have before := c.now_before c.first_le (Nat.le_refl _)
  have after := c.now_after c.first_le (Nat.le_refl _)
  rw [Finset.sum_add_distrib, Finset.sum_add_distrib] at before
  rw [← Finset.Ico_add_one_right_eq_Icc, Finset.sum_Ico_succ_top c.first_le]
  rw [finish]
  split
  · rename_i asked
    rw [Nat.min_eq_left asked, Finset.sum_Ico_succ_top c.first_le,
      c.now_judged c.first_le (Nat.le_refl _) asked]
    omega
  · rename_i unasked
    have whole : min (c.final + 1) limit = c.final := by
      have := c.le_limit
      omega
    rw [whole]
    omega

end Course

/-- A limit beyond the greatest is refused before anything is called. Under any other an operation
is attempted until the first outcome that is not to be tried again, or as often as the limit says;
each outcome but that of the last attempt allowed is judged once, and the last outcome is the result.
The time that passes is that of all these calls and of the waits between the attempts, each as it was
decided, or thirty years of 365 days where that is less. -/
theorem attempts_end_with_the_accepted_outcome (p : Policy) {operation : Nat → Activity ρ}
    {judge : Nat → ρ → Activity Decision} (answers : ∀ n w, ((operation n).run w).1.isSome)
    (decides : ∀ n o w, ((judge n o).run w).1.isSome) :
    (31 < p.limit → retry p operation judge = .error ⟨p.limit⟩) ∧
    (p.limit ≤ 31 → ∃ x, retry p operation judge = .ok x ∧
      ∀ w, ∃ c : Course p operation judge 1 (max p.limit 1) w,
        x.run w = (some (c.outcome c.final), c.finish) ∧
        c.finish.now = w.now + ∑ n ∈ Finset.Icc 1 c.final, c.took n +
          ∑ n ∈ Finset.Ico 1 (min (c.final + 1) (max p.limit 1)), c.weighed n +
          ∑ n ∈ Finset.Ico 1 c.final, min (c.wait n) (30 * 365 * 24 * 60 * 60 * 1000)) := by
  refine ⟨fun high => ?_, fun low => ⟨attempts p operation judge, ?_, fun w => ?_⟩⟩
  · rw [retry, Policy.validate, maxLimit, if_pos high]
    rfl
  · rw [retry, Policy.validate, maxLimit, if_neg (Nat.not_lt.2 low)]
    rfl
  · have left : 1 + (p.attempts - 1) = max p.limit 1 := Nat.add_sub_cancel' (Nat.le_max_right ..)
    obtain ⟨c, run⟩ := exists_course p answers decides left w
    exact ⟨c, run, c.now_finish⟩

/-- An operation that takes ten milliseconds succeeds when it is tried again after a quarter of a
second. -/
theorem second_attempt_is_accepted :
    let operation (n : Nat) : Activity Nat := .sleep 10 (.done n)
    let judge (_ o : Nat) : Activity Decision := .done (if o < 2 then .retryAfter 250 else .stop)
    let w : World := { readings := fun n => ⟨n, 7⟩, shares := fun _ => 0 }
    (∀ n w, ((operation n).run w).1.isSome) ∧ (∀ n o w, ((judge n o).run w).1.isSome) ∧
      ∃ x, retry { limit := 3 } operation judge = .ok x ∧ (x.run w).1 = some 2 ∧
        (x.run w).2.now = 270 := by
  intro operation judge w
  have answers : ∀ n w, ((operation n).run w).1.isSome := fun _ _ => rfl
  have decides : ∀ n o w, ((judge n o).run w).1.isSome := fun _ _ _ => rfl
  refine ⟨answers, decides, ?_⟩
  obtain ⟨x, hx, runs⟩ :=
    (attempts_end_with_the_accepted_outcome { limit := 3 } answers decides).2 (by decide)
  obtain ⟨c, run, now⟩ := runs w
  have attempted (n : Nat) (least : 1 ≤ n) (most : n ≤ c.final) :
      c.outcome n = n ∧ c.took n = 10 := by
    obtain ⟨outcome, after⟩ := Prod.mk.inj (c.attempts n least most)
    refine ⟨(Option.some.inj outcome).symm, ?_⟩
    rw [Course.took, ← after]
    exact Nat.add_sub_cancel_left ..
  have asked (n : Nat) (least : 1 ≤ n) (most : n ≤ c.final) (below : n < 3) :
      c.decision n = (if n < 2 then .retryAfter 250 else .stop) ∧ c.weighed n = 0 := by
    obtain ⟨decision, judged⟩ := Prod.mk.inj (c.judges n least most below)
    rw [(attempted n least most).1] at decision
    refine ⟨(Option.some.inj decision).symm, ?_⟩
    rw [Course.weighed, ← judged]
    exact Nat.sub_self _
  have final : c.final = 2 := by
    have least := c.first_le
    obtain few | same | many := Nat.lt_trichotomy c.final 2
    · have one : c.final = 1 := by omega
      have stop := c.settles (Nat.lt_succ_of_lt few)
      rw [one, (asked 1 (by decide) least (by decide)).1] at stop
      cases stop
    · exact same
    · have more := (c.goes_on 2 (by decide) many).1
      exact absurd (asked 2 (by decide) (Nat.le_of_lt many) (by decide)).1 more
  refine ⟨x, hx, ?_, ?_⟩
  · rw [run, final]
    exact congrArg some (attempted 2 (by decide) (Nat.le_of_eq final.symm)).1
  · have first := asked 1 (by decide) (by omega) (by decide)
    have second := asked 2 (by decide) (by omega) (by decide)
    have waited : c.wait 1 = 250 := by
      rw [Course.wait, first.1]
      rfl
    rw [run, now, final]
    simp [Finset.sum_Icc_succ_top, Finset.sum_Ico_succ_top, waited, first.2, second.2,
      (attempted 1 (by decide) (by omega)).2, (attempted 2 (by decide) (by omega)).2, w]

/-- A wait of more than thirty years is cut short. -/
theorem overlong_wait_is_cut :
    let operation (n : Nat) : Activity Nat := .done n
    let judge (_ _ : Nat) : Activity Decision := .done (.retryAfter 946080000001)
    let w : World := { readings := fun n => ⟨n, 7⟩, shares := fun _ => 0 }
    ∃ x, retry { limit := 2 } operation judge = .ok x ∧ (x.run w).1 = some 2 ∧
      (x.run w).2.now = 946080000000 ∧ (x.run w).2.now ≠ w.now + 946080000001 :=
  ⟨_, rfl, rfl, rfl, by decide⟩

end EventSourcing.Retry
