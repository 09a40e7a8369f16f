import Mathlib.Algebra.Order.Floor.Semiring
import Mathlib.Algebra.Order.SuccPred
import Mathlib.Algebra.Ring.CharZero
import Mathlib.Data.Nat.SuccPred
import Mathlib.Data.Rat.Floor
import EventSourcing.Proofs.Retry.Attempts

/-!
The windows of waits.
Waits are looked at here in exact numbers in place of binary fractions; any ordered field with
rounding will do. A wait lies between its base
and twice its base, both rounded up. Twice the base is a whole number and the base of the next wait,
so that one window begins where the one before ends, and no draw makes a wait shorter than the wait
before.
-/
namespace EventSourcing.Retry

section Exact
variable {R : Type} [Field R] [LinearOrder R] [FloorSemiring R]

/-- Exact numbers, of which any fraction may be drawn. -/
instance : WaitNumber R where
  ofNat n := n
  add x y := x + y
  mul x y := x * y
  half x := x / 2
  isPositive x := decide (0 < x)
  ceil x := min ⌈x⌉₊ (2 ^ 64 - 1)

theorem base_eq (delay attempt : ℕ) :
    (base delay attempt : R) = delay * 2 ^ min (max attempt 1 - 1) 31 / 2 := by
  have exponent : doublings attempt = min (max attempt 1 - 1) 31 := by
    rw [doublings, maxLimit]
    omega
  rw [← exponent]
  exact congrArg (fun factor : R => delay * factor / 2) (Nat.cast_pow 2 (doublings attempt))

variable {delay attempt : ℕ} {x y : R}

theorem base_eq_zero_iff (delay attempt : ℕ) : (base delay attempt : R) = 0 ↔ delay = 0 := by
  rw [base_eq, div_eq_zero_iff, mul_eq_zero, Nat.cast_eq_zero]
  simp

/-- The window of an attempt ends where that of the next begins. -/
theorem base_succ (first : 1 ≤ attempt) (last : attempt < 32) :
    (base delay (attempt + 1) : R) = 2 * base delay attempt := by
  have exponent : min (max (attempt + 1) 1 - 1) 31 = min (max attempt 1 - 1) 31 + 1 := by omega
  rw [base_eq, base_eq, exponent, pow_succ]
  ring

/-- Twice the base is a whole number. -/
theorem two_mul_base (delay attempt : ℕ) :
    2 * (base delay attempt : R) = (delay * 2 ^ min (max attempt 1 - 1) 31 : ℕ) := by
  rw [base_eq, mul_div_cancel₀ _ two_ne_zero, Nat.cast_mul, Nat.cast_pow, Nat.cast_ofNat]

variable [IsStrictOrderedRing R]

theorem base_nonneg (delay attempt : ℕ) : 0 ≤ (base delay attempt : R) := by
  rw [base_eq]
  positivity

theorem backoff_eq (delay attempt : ℕ) (x : R) :
    backoff delay attempt x =
      min ⌈(base delay attempt : R) + base delay attempt * x⌉₊ (2 ^ 64 - 1) := by
  have jitter : (if WaitNumber.isPositive (base delay attempt : R) then
      WaitNumber.mul (base delay attempt) x else WaitNumber.ofNat 0) = base delay attempt * x := by
    split
    · rfl
    · rename_i flat
      have zero : (base delay attempt : R) = 0 :=
        le_antisymm (not_lt.1 fun positive => flat (decide_eq_true positive)) (base_nonneg ..)
      rw [zero, zero_mul]
      exact Nat.cast_zero
  rw [backoff, jitter]
  rfl

/-- Any part of a base is drawn as some share of it. -/
theorem exists_share {b jitter : R} (least : 0 ≤ jitter) (most : jitter ≤ b) :
    ∃ x, 0 ≤ x ∧ x ≤ 1 ∧ b * x = jitter := by
  refine ⟨jitter / b, div_nonneg least (least.trans most), div_le_one_of_le₀ most
    (least.trans most), ?_⟩
  obtain rfl | positive := (least.trans most).eq_or_lt
  · rw [zero_mul, le_antisymm most least]
  · exact mul_div_cancel₀ _ positive.ne'

theorem ceil_base_le_backoff (delay attempt : ℕ) (least : 0 ≤ x) :
    min ⌈(base delay attempt : R)⌉₊ (2 ^ 64 - 1) ≤ backoff delay attempt x := by
  rw [backoff_eq]
  refine min_le_min_right _ (Nat.ceil_le_ceil ?_)
  exact le_add_of_nonneg_right (mul_nonneg (base_nonneg ..) least)

theorem backoff_le_ceil (delay attempt : ℕ) (most : x ≤ 1) :
    backoff delay attempt x ≤ min ⌈2 * (base delay attempt : R)⌉₊ (2 ^ 64 - 1) := by
  rw [backoff_eq, two_mul]
  refine min_le_min_right _ (Nat.ceil_le_ceil ?_)
  exact add_le_add_right (mul_le_of_le_one_right (base_nonneg ..) most) _

theorem backoff_eq_zero_iff (least : 0 ≤ x) : backoff delay attempt x = 0 ↔ delay = 0 := by
  rw [← show (base delay attempt : R) = 0 ↔ delay = 0 from base_eq_zero_iff ..]
  constructor
  · intro zero
    have low := ceil_base_le_backoff delay attempt least
    have none : ⌈(base delay attempt : R)⌉₊ = 0 := by omega
    exact le_antisymm (Nat.ceil_eq_zero.1 none) (base_nonneg ..)
  · intro zero
    rw [backoff_eq, zero, zero_mul, add_zero, Nat.ceil_zero]
    rfl

theorem backoff_le_backoff_succ (first : 1 ≤ attempt) (last : attempt < 32) (most : x ≤ 1)
    (least : 0 ≤ y) : backoff delay attempt x ≤ backoff delay (attempt + 1) y := by
  have high := backoff_le_ceil delay attempt most
  rw [← base_succ first last] at high
  exact high.trans (ceil_base_le_backoff _ _ least)

/-- The waits of attempts that follow each other never get shorter, whatever is drawn for each. -/
theorem monotoneOn_backoff (delay : ℕ) {draws : ℕ → R} {n : ℕ} (last : n ≤ 32)
    (drawn : ∀ i, 1 ≤ i → i < n → 0 ≤ draws i ∧ draws i ≤ 1) :
    MonotoneOn (fun i => backoff delay i (draws i)) (Set.Ico 1 n) := by
  refine monotoneOn_of_le_add_one Set.ordConnected_Ico fun i _ here next => ?_
  have least := (drawn (i + 1) next.1 next.2).1
  have most := (drawn i here.1 here.2).2
  exact backoff_le_backoff_succ here.1 (Nat.lt_of_lt_of_le here.2 last) most least

theorem backoff_le (delay n : ℕ) (most : x ≤ 1) : backoff delay (n + 1) x ≤ delay * 2 ^ n := by
  have high := backoff_le_ceil delay (n + 1) most
  rw [two_mul_base, Nat.ceil_natCast] at high
  calc backoff delay (n + 1) x ≤ delay * 2 ^ min (max (n + 1) 1 - 1) 31 :=
        high.trans (min_le_left ..)
    _ ≤ delay * 2 ^ n := Nat.mul_le_mul_left _ (Nat.pow_le_pow_right (by decide) (by omega))

/-- The longest waits are the delay, twice the delay and so on. -/
theorem sum_backoff_add_delay_le (delay : ℕ) {draws : ℕ → R} (n : ℕ)
    (drawn : ∀ i, 1 ≤ i → i < n + 1 → draws i ≤ 1) :
    ∑ i ∈ Finset.Ico 1 (n + 1), backoff delay i (draws i) + delay ≤ delay * 2 ^ n := by
  induction n with
  | zero => simp
  | succ n ih =>
      have before := ih fun i first last => drawn i first (Nat.lt_succ_of_lt last)
      have next := backoff_le delay n (drawn (n + 1) (Nat.le_add_left ..) (Nat.lt_succ_self _))
      have twice : delay * 2 ^ (n + 1) = delay * 2 ^ n + delay * 2 ^ n := by
        rw [pow_succ, ← mul_assoc, mul_two]
      rw [Finset.sum_Ico_succ_top (Nat.le_add_left ..), twice]
      omega

end Exact

/-- The wait after an attempt, computed in other numbers from the share that is drawn for it. -/
def waitIn {R : Type} [WaitNumber R] (read : Float → R) (p : Policy) (attempt : ℕ) (w : World) :
    Decision → ℕ
  | .retryAfter ms => ms
  | _ => backoff p.delay attempt (read w.share.1)

/-- In the numbers of the loop it is the wait itself. -/
theorem waitIn_id (p : Policy) (attempt : ℕ) (w : World) (d : Decision) :
    waitIn id p attempt w d = wait p attempt w d := by
  cases d with
  | stop => rfl
  | retry => rfl
  | retryAfter ms => rfl

namespace Course
variable {ρ : Type} {p : Policy} {operation : ℕ → Activity ρ} {judge : ℕ → ρ → Activity Decision}
  {first limit : ℕ} {w : World} {R : Type}

/-- What is waited after an attempt, in other numbers. -/
def waitIn [WaitNumber R] (read : Float → R) (c : Course p operation judge first limit w) (n : ℕ) :
    ℕ :=
  Retry.waitIn read p n (c.judged n) (c.decision n)

variable [Field R] [LinearOrder R] [FloorSemiring R]

/-- All waits of a course are of the policy's own, and each share that is drawn for them is read as
a part of one. -/
def Jittered (c : Course p operation judge first limit w) (read : Float → R) : Prop :=
  ∀ n, first ≤ n → n < c.final →
    c.decision n = .retry ∧ 0 ≤ read (c.judged n).share.1 ∧ read (c.judged n).share.1 ≤ 1

theorem Jittered.waitIn_eq {c : Course p operation judge first limit w} {read : Float → R}
    (h : c.Jittered read) {n : ℕ} (least : first ≤ n) (more : n < c.final) :
    c.waitIn read n = backoff p.delay n (read (c.judged n).share.1) := by
  rw [waitIn, (h n least more).1]
  rfl

variable [IsStrictOrderedRing R]

theorem Jittered.monotoneOn_waitIn {c : Course p operation judge 1 limit w} {read : Float → R}
    (h : c.Jittered read) (few : limit ≤ 32) : MonotoneOn (c.waitIn read) (Set.Ico 1 c.final) := by
  have waits := monotoneOn_backoff p.delay (c.le_limit.trans few) fun n least more =>
    (h n least more).2
  exact waits.congr fun n here => (h.waitIn_eq here.1 here.2).symm

theorem Jittered.sum_waitIn_le {c : Course p operation judge 1 limit w} {read : Float → R}
    (h : c.Jittered read) :
    ∑ n ∈ Finset.Ico 1 c.final, c.waitIn read n ≤ p.delay * (2 ^ (c.final - 1) - 1) := by
  obtain ⟨last, final⟩ := Nat.exists_eq_add_of_le' c.first_le
  have bound := sum_backoff_add_delay_le p.delay last fun n least more =>
    (h n least (final ▸ more)).2.2
  have waits : ∑ n ∈ Finset.Ico 1 c.final, c.waitIn read n =
      ∑ n ∈ Finset.Ico 1 c.final, backoff p.delay n (read (c.judged n).share.1) :=
    Finset.sum_congr rfl fun n here =>
      h.waitIn_eq (Finset.mem_Ico.1 here).1 (Finset.mem_Ico.1 here).2
  rw [waits, final, Nat.add_sub_cancel, Nat.mul_sub_one]
  exact Nat.le_sub_of_add_le bound

end Course

/-- Waits are computed here in exact numbers, where any part of the base may be drawn. With the base
half the delay, doubled at most 31 times, a wait lies between its base and twice its base, both
rounded up and none beyond the greatest number of 64 bits; it is zero only where there is no delay.
Up to attempt 32 no wait is longer than the next, whatever is drawn for both. So the waits of a run
of the loop, read from its draws, never get shorter, and of n attempts they last at most 2 ^ (n - 1)
- 1 times the delay. -/
theorem waits_keep_to_their_windows (R : Type) [Field R] [LinearOrder R] [FloorSemiring R]
    [IsStrictOrderedRing R] :
    (∀ delay attempt : ℕ, let b : R := delay * 2 ^ min (max attempt 1 - 1) 31 / 2
      let rounded (r : R) : ℕ := min ⌈r⌉₊ (2 ^ 64 - 1)
      (∀ jitter, 0 ≤ jitter → jitter ≤ b →
        ∃ x : R, 0 ≤ x ∧ x ≤ 1 ∧ backoff delay attempt x = rounded (b + jitter)) ∧
      ∀ x, 0 ≤ x → x ≤ 1 → backoff delay attempt x = rounded (b + b * x) ∧
        rounded b ≤ backoff delay attempt x ∧ backoff delay attempt x ≤ rounded (2 * b) ∧
        (backoff delay attempt x = 0 ↔ delay = 0)) ∧
    (∀ delay attempt, 1 ≤ attempt → attempt < 32 → ∀ x y : R, 0 ≤ x → x ≤ 1 → 0 ≤ y → y ≤ 1 →
      backoff delay attempt x ≤ backoff delay (attempt + 1) y) ∧
    ∀ {ρ : Type} (p : Policy) (operation : ℕ → Activity ρ) (judge : ℕ → ρ → Activity Decision),
      p.limit ≤ 31 → ∃ a, retry p operation judge = .ok a ∧
      ∀ w o v, a.run w = (some o, v) → ∃ c : Course p operation judge 1 (max p.limit 1) w,
        c.outcome c.final = o ∧ c.finish = v ∧ (∀ n, c.waitIn id n = c.wait n) ∧
        ∀ read : Float → R,
          (∀ n, 1 ≤ n → n < c.final → c.decision n = .retry ∧
            0 ≤ read (c.judged n).share.1 ∧ read (c.judged n).share.1 ≤ 1) →
          MonotoneOn (c.waitIn read) (Set.Ico 1 c.final) ∧
          ∑ n ∈ Finset.Ico 1 c.final, c.waitIn read n ≤ p.delay * (2 ^ (c.final - 1) - 1) := by
  refine ⟨fun delay attempt => ⟨fun jitter least most => ?_, fun x least most => ?_⟩,
    fun delay attempt first last x y _ most least _ =>
      backoff_le_backoff_succ first last most least,
    fun p operation judge low => ⟨attempts p operation judge, ?_, fun w o v run => ?_⟩⟩
  · rw [← base_eq] at most ⊢
    obtain ⟨x, none, all, rfl⟩ := exists_share least most
    exact ⟨x, none, all, backoff_eq ..⟩
  · rw [← base_eq]
    exact ⟨backoff_eq .., ceil_base_le_backoff _ _ least, backoff_le_ceil _ _ most,
      backoff_eq_zero_iff least⟩
  · rw [retry, Policy.validate, maxLimit, if_neg (Nat.not_lt.2 low)]
    rfl
  · have left : 1 + (p.attempts - 1) = max p.limit 1 := Nat.add_sub_cancel' (Nat.le_max_right ..)
    obtain ⟨c, outcome, finish⟩ := course_of_run left run
    refine ⟨c, outcome, finish, fun n => waitIn_id .., fun read jittered => ?_⟩
    have few : max p.limit 1 ≤ 32 := by omega
    exact ⟨Course.Jittered.monotoneOn_waitIn jittered few, Course.Jittered.sum_waitIn_le jittered⟩

/-- Three attempts, with half of the base drawn after each. The first base is one and a half
milliseconds; the second is three, where the first window ends. A wait beyond 64 bits is cut. -/
theorem half_of_each_base_is_drawn :
    let operation (n : ℕ) : Activity ℕ := .done n
    let judge (_ o : ℕ) : Activity Decision := .done (if o < 3 then .retry else .stop)
    let w : World := { readings := fun n => ⟨n, 7⟩, shares := fun _ => 0.5 }
    let p : Policy := { limit := 3, delay := 3 }
    let read (_ : Float) : ℚ := 1 / 2
    (∃ a, retry p operation judge = .ok a ∧ ∃ c : Course p operation judge 1 (max p.limit 1) w,
      a.run w = (some 3, c.finish) ∧ c.waitIn read 1 = 3 ∧ c.waitIn read 2 = 5 ∧
      c.waitIn read 1 ≤ c.waitIn read 2 ∧ c.waitIn read 1 + c.waitIn read 2 ≤ 3 * (2 ^ 2 - 1)) ∧
    backoff 3 1 (1 : ℚ) ≤ backoff 3 2 (0 : ℚ) ∧ backoff (2 ^ 52) 32 (1 / 2 : ℚ) = 2 ^ 64 - 1 := by
  intro operation judge w p read
  have answers : ∀ n w, ((operation n).run w).1.isSome := fun _ _ => rfl
  have decides : ∀ n o w, ((judge n o).run w).1.isSome := fun _ _ _ => rfl
  obtain ⟨windows, touch, runs⟩ := waits_keep_to_their_windows ℚ
  refine ⟨?_, touch 3 1 (by decide) (by decide) 1 0 zero_le_one le_rfl le_rfl zero_le_one, ?_⟩
  · obtain ⟨a, ok, courses⟩ := runs p operation judge (by decide)
    obtain ⟨_, ran⟩ := exists_course p answers decides (rfl : 1 + (p.attempts - 1) = 3) w
    have run := (congrArg (·.run w) (Except.ok.inj ok)).symm.trans ran
    obtain ⟨c, same, ends, _, waits⟩ := courses w _ _ run
    have outcome (n : ℕ) (least : 1 ≤ n) (most : n ≤ c.final) : c.outcome n = n :=
      (Option.some.inj (Prod.mk.inj (c.attempts n least most)).1).symm
    have decision (n : ℕ) (least : 1 ≤ n) (most : n ≤ c.final) (asked : n < 3) :
        c.decision n = .retry := by
      have judged := (Prod.mk.inj (c.judges n least most asked)).1
      rw [outcome n least most, if_pos asked] at judged
      exact (Option.some.inj judged).symm
    have final : c.final = 3 := by
      by_contra early
      have asked : c.final < 3 := Nat.lt_of_le_of_ne c.le_limit early
      have stop := c.settles asked
      rw [decision _ c.first_le (Nat.le_refl _) asked] at stop
      cases stop
    have waited (n : ℕ) (least : 1 ≤ n) (asked : n < 3) :
        c.waitIn read n = backoff 3 n (1 / 2 : ℚ) := by
      rw [Course.waitIn, decision n least (by omega) asked]
      rfl
    obtain ⟨grow, bounded⟩ := waits read fun n least more =>
      ⟨decision n least (Nat.le_of_lt more) (by omega), by decide +kernel, by decide +kernel⟩
    rw [final] at grow bounded
    have first : c.waitIn read 1 = 3 := (waited 1 (by decide) (by decide)).trans (by decide +kernel)
    have second : c.waitIn read 2 = 5 :=
      (waited 2 (by decide) (by decide)).trans (by decide +kernel)
    refine ⟨a, ok, c, ?_, first, second, grow (by decide) (by decide) (by decide), bounded⟩
    rw [run, ← same, ← ends, final, outcome 3 (by decide) (Nat.le_of_eq final.symm)]
  · obtain ⟨_, least, most, _⟩ := (windows (2 ^ 52) 32).2 (1 / 2) (by decide +kernel)
      (by decide +kernel)
    have low : (2 : ℕ) ^ 64 - 1 ≤ backoff (2 ^ 52) 32 (1 / 2 : ℚ) :=
      Nat.le_trans (by decide +kernel) least
    exact Nat.le_antisymm (most.trans (Nat.min_le_right ..)) low

end EventSourcing.Retry
