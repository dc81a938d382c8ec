import Mathlib.Algebra.Order.Ring.Int
import OutboxFormal.Service.Dispositions

/-!
# Exponential delays

`exponentialRetryPolicy` doubles a 64-bit duration in a loop that stops at half
of the maximum. The loop is stated over an arithmetic: the wrapping one of the
source, and one that stops at the first sum or product outside the 64-bit range.
Both give the closed form, computed in unbounded integers.
-/

namespace OutboxFormal

open Library GoError

/-! ## Arithmetic -/

/-- 64-bit sums and products; `none` where an overflow is not allowed. -/
structure Arithmetic where
  add : Int64 → Int64 → Option Int64
  mul : Int64 → Int64 → Option Int64

def Arithmetic.wrapping : Arithmetic := ⟨fun x y => some (x + y), fun x y => some (x * y)⟩

/-- The same without overflow. -/
def Arithmetic.exact : Arithmetic where
  add x y := if (x + y).toInt = x.toInt + y.toInt then some (x + y) else none
  mul x y := if (x * y).toInt = x.toInt * y.toInt then some (x * y) else none

/-- The two agree wherever the exact one is defined. -/
structure Arithmetic.Agrees (arithmetic : Arithmetic) : Prop where
  add : ∀ x y, (x + y).toInt = x.toInt + y.toInt → arithmetic.add x y = some (x + y)
  mul : ∀ x y, (x * y).toInt = x.toInt * y.toInt → arithmetic.mul x y = some (x * y)

theorem Arithmetic.agrees_wrapping : wrapping.Agrees := ⟨fun _ _ _ => rfl, fun _ _ _ => rfl⟩

theorem Arithmetic.agrees_exact : exact.Agrees :=
  ⟨fun _ _ fits => if_pos fits, fun _ _ fits => if_pos fits⟩

/-! ## The policy -/

/-- `exponentialRetryPolicy` as `NewExponentialRetryPolicy` builds it. -/
structure ExponentialRetryPolicy where
  baseDelay : Int64
  maxDelay : Int64
  jitter : Option (Int64 → Int64)
  positive : 0 < baseDelay
  capped : baseDelay ≤ maxDelay

def newExponentialRetryPolicy (baseDelay maxDelay : Int64) (jitter : Option (Int64 → Int64)) :
    Except OutboxError ExponentialRetryPolicy :=
  if refused : baseDelay ≤ 0 ∨ maxDelay ≤ 0 ∨ maxDelay < baseDelay then
    .error (leafError .errRetryPolicy ": require 0 < base delay <= maximum delay")
  else
    .ok ⟨baseDelay, maxDelay, jitter, Int64.not_le.mp fun low => refused (.inl low),
      Int64.not_lt.mp fun high => refused (.inr (.inr high))⟩

/-- The loop of `RetryDelay`; `rounds` bounds the steps before `attempt`. -/
def doubled (arithmetic : Arithmetic) (maxDelay attempt : Int64) :
    Nat → Int64 → Int64 → Option Int64
  | 0, _, delay => some delay
  | rounds + 1, step, delay =>
    if step < attempt ∧ delay < maxDelay then
      if maxDelay / 2 < delay then some maxDelay
      else do
        let delay ← arithmetic.mul delay 2
        let step ← arithmetic.add step 1
        doubled arithmetic maxDelay attempt rounds step delay
    else some delay

/-- `RetryDelay`, by `attempt.Attempt`. -/
def ExponentialRetryPolicy.retryDelay (p : ExponentialRetryPolicy) (arithmetic : Arithmetic)
    (attempt : Int64) : Option Int64 := do
  let delay ← doubled arithmetic p.maxDelay attempt (attempt.toInt - 1).toNat 1 p.baseDelay
  match p.jitter with
  | some jitter => return min (jitter delay) p.maxDelay
  | none => return min delay p.maxDelay

/-! ## The closed form -/

/-- `min(base * 2^(attempt-1), max)` in unbounded integers. -/
def exponential (base maximum attempt : Int) : Int :=
  min (base * 2 ^ (attempt - 1).toNat) maximum

theorem exponential_le (base maximum attempt : Int) : exponential base maximum attempt ≤ maximum :=
  min_le_right _ _

theorem exponential_of_le_one {base maximum attempt : Int} (capped : base ≤ maximum)
    (first : attempt ≤ 1) : exponential base maximum attempt = base := by
  unfold exponential
  rw [show (attempt - 1).toNat = 0 by omega, pow_zero, mul_one]
  exact min_eq_left capped

theorem exponential_mono {base maximum first second : Int} (positive : 0 < base)
    (later : first ≤ second) :
    exponential base maximum first ≤ exponential base maximum second := by
  apply min_le_min_right
  apply mul_le_mul_of_nonneg_left _ positive.le
  apply pow_le_pow_right₀ (by decide)
  omega

/-- One more doubling, while it stays below the maximum or not. -/
theorem min_double {delay maximum : Int} (positive : 0 < delay) (rounds : Nat)
    (high : maximum ≤ delay * 2) : min (delay * 2 ^ (rounds + 1)) maximum = maximum := by
  apply min_eq_right
  have grows : 1 ≤ (2 : Int) ^ rounds := one_le_pow₀ (by decide)
  calc maximum ≤ delay * 2 := high
    _ ≤ delay * 2 * 2 ^ rounds := le_mul_of_one_le_right (by omega) grows
    _ = delay * 2 ^ (rounds + 1) := by rw [pow_succ', mul_assoc]

theorem toInt_min (x y : Int64) : (min x y).toInt = min x.toInt y.toInt := by
  by_cases ordered : x ≤ y
  · rw [show min x y = x from if_pos ordered,
      min_eq_left (Int64.le_iff_toInt_le.mp ordered)]
  · rw [show min x y = y from if_neg ordered, min_eq_right]
    exact (lt_of_not_ge fun below => ordered (Int64.le_iff_toInt_le.mpr below)).le

theorem bmod_of_range {value : Int} (low : -2 ^ 63 ≤ value) (high : value < 2 ^ 63) :
    value.bmod (2 ^ 64) = value := by
  apply Int.bmod_eq_of_le <;> omega

theorem toInt_half (x : Int64) (nonneg : 0 ≤ x.toInt) : (x / 2).toInt = x.toInt / 2 := by
  have high := x.toInt_lt
  rw [Int64.toInt_div, show (2 : Int64).toInt = 2 from rfl, Int.tdiv_eq_ediv_of_nonneg nonneg]
  apply bmod_of_range <;> omega

/-- The loop computes the closed form, in either arithmetic. -/
theorem doubled_eq {arithmetic : Arithmetic} (agrees : arithmetic.Agrees)
    {maxDelay attempt : Int64} (rounds : Nat) {step delay : Int64} (counted : 0 < step.toInt)
    (left : (attempt.toInt - step.toInt).toNat = rounds) (positive : 0 < delay.toInt)
    (capped : delay.toInt ≤ maxDelay.toInt) :
    ∃ value, doubled arithmetic maxDelay attempt rounds step delay = some value ∧
      value.toInt = min (delay.toInt * 2 ^ rounds) maxDelay.toInt := by
  induction rounds generalizing step delay with
  | zero =>
    refine ⟨delay, rfl, ?_⟩
    rw [pow_zero, mul_one, min_eq_left capped]
  | succ rounds ih =>
    have before : step < attempt := Int64.lt_iff_toInt_lt.mpr (by omega)
    unfold doubled
    by_cases below : delay < maxDelay
    · rw [if_pos ⟨before, below⟩]
      have half := toInt_half maxDelay (by omega)
      by_cases high : maxDelay / 2 < delay
      · rw [if_pos high]
        refine ⟨maxDelay, rfl, (min_double positive rounds ?_).symm⟩
        have high := Int64.lt_iff_toInt_lt.mp high
        omega
      · rw [if_neg high]
        have low : delay.toInt ≤ maxDelay.toInt / 2 := by
          rw [← half]
          exact Int64.le_iff_toInt_le.mp (Int64.not_lt.mp high)
        have top := maxDelay.toInt_lt
        have last := attempt.toInt_lt
        have before := Int64.lt_iff_toInt_lt.mp before
        have twice : (delay * 2).toInt = delay.toInt * 2 := by
          rw [Int64.toInt_mul, show (2 : Int64).toInt = 2 from rfl]
          apply bmod_of_range <;> omega
        have next : (step + 1).toInt = step.toInt + 1 := by
          rw [Int64.toInt_add, show (1 : Int64).toInt = 1 from rfl]
          apply bmod_of_range <;> omega
        obtain ⟨value, computed, closed⟩ := @ih (step + 1) (delay * 2) (by omega) (by omega)
          (by omega) (by omega)
        refine ⟨value, ?_, ?_⟩
        · rw [agrees.mul _ _ twice, agrees.add _ _ next]
          exact computed
        · rw [closed, twice, pow_succ', mul_assoc]
    · rw [if_neg fun both => below both.2]
      have full : maxDelay.toInt ≤ delay.toInt :=
        Int64.le_iff_toInt_le.mp (Int64.not_lt.mp below)
      refine ⟨delay, rfl, ?_⟩
      rw [min_double positive rounds (by omega)]
      omega

namespace ExponentialRetryPolicy

variable (p : ExponentialRetryPolicy) {arithmetic : Arithmetic}

theorem base_pos : 0 < p.baseDelay.toInt := Int64.lt_iff_toInt_lt.mp p.positive

theorem base_le_max : p.baseDelay.toInt ≤ p.maxDelay.toInt := Int64.le_iff_toInt_le.mp p.capped

theorem doubled_base (agrees : arithmetic.Agrees) (attempt : Int64) :
    ∃ delay, doubled arithmetic p.maxDelay attempt (attempt.toInt - 1).toNat 1 p.baseDelay =
        some delay ∧
      delay.toInt = exponential p.baseDelay.toInt p.maxDelay.toInt attempt.toInt :=
  doubled_eq agrees _ (by decide) rfl p.base_pos p.base_le_max

theorem retryDelay_eq (agrees : arithmetic.Agrees) (attempt : Int64) (steady : p.jitter = none) :
    ∃ delay, p.retryDelay arithmetic attempt = some delay ∧
      delay.toInt = exponential p.baseDelay.toInt p.maxDelay.toInt attempt.toInt := by
  obtain ⟨delay, computed, closed⟩ := p.doubled_base agrees attempt
  refine ⟨min delay p.maxDelay, ?_, ?_⟩
  · rw [retryDelay, computed, steady]
    rfl
  · rw [toInt_min, closed]
    exact min_eq_left (exponential_le _ _ _)

/-- The wrapping loop and the exact one return the closed form. -/
theorem retryDelay_exact (attempt : Int64) (steady : p.jitter = none) :
    ∃ delay, p.retryDelay .wrapping attempt = some delay ∧
      p.retryDelay .exact attempt = some delay ∧
      delay.toInt = exponential p.baseDelay.toInt p.maxDelay.toInt attempt.toInt := by
  obtain ⟨delay, computed, closed⟩ := p.retryDelay_eq Arithmetic.agrees_wrapping attempt steady
  obtain ⟨other, checked, same⟩ := p.retryDelay_eq Arithmetic.agrees_exact attempt steady
  obtain rfl : other = delay := Int64.toInt_inj.mp (same.trans closed.symm)
  exact ⟨other, computed, checked, closed⟩

theorem retryDelay_first {attempt delay : Int64} (steady : p.jitter = none)
    (computed : p.retryDelay .wrapping attempt = some delay) (first : attempt ≤ 1) :
    delay = p.baseDelay := by
  obtain ⟨value, same, -, closed⟩ := p.retryDelay_exact attempt steady
  obtain rfl : value = delay := Option.some.inj (same.symm.trans computed)
  rw [← Int64.toInt_inj, closed]
  exact exponential_of_le_one p.base_le_max (Int64.le_iff_toInt_le.mp first)

theorem retryDelay_mono {attempt later delay next : Int64} (steady : p.jitter = none)
    (computed : p.retryDelay .wrapping attempt = some delay)
    (following : p.retryDelay .wrapping later = some next) (after : attempt ≤ later) :
    delay ≤ next := by
  obtain ⟨value, same, -, closed⟩ := p.retryDelay_exact attempt steady
  obtain rfl : value = delay := Option.some.inj (same.symm.trans computed)
  obtain ⟨value', same, -, reached⟩ := p.retryDelay_exact later steady
  obtain rfl : value' = next := Option.some.inj (same.symm.trans following)
  rw [Int64.le_iff_toInt_le, closed, reached]
  exact exponential_mono p.base_pos (Int64.le_iff_toInt_le.mp after)

/-- Nothing overflows on the way to a delay, and a delay is capped. -/
theorem retryDelay_le (attempt : Int64) :
    ∃ delay, p.retryDelay .wrapping attempt = some delay ∧
      p.retryDelay .exact attempt = some delay ∧ delay.toInt ≤ p.maxDelay.toInt := by
  obtain ⟨delay, computed, closed⟩ := p.doubled_base Arithmetic.agrees_wrapping attempt
  obtain ⟨other, checked, same⟩ := p.doubled_base Arithmetic.agrees_exact attempt
  obtain rfl : other = delay := Int64.toInt_inj.mp (same.trans closed.symm)
  have capped : ∀ value : Int64, (min value p.maxDelay).toInt ≤ p.maxDelay.toInt := by
    intro value
    rw [toInt_min]
    exact min_le_right _ _
  unfold retryDelay
  rw [computed, checked]
  cases p.jitter with
  | none => exact ⟨min other p.maxDelay, rfl, rfl, capped _⟩
  | some jitter => exact ⟨min (jitter other) p.maxDelay, rfl, rfl, capped _⟩

end ExponentialRetryPolicy

/-! ## Batch backoff -/

theorem backoffFrom_eq (rounds : Nat) {delay : Int} (positive : 0 < delay)
    (capped : delay ≤ batchRetryMaximum) :
    backoffFrom rounds delay = min (delay * 2 ^ rounds) batchRetryMaximum := by
  induction rounds generalizing delay with
  | zero => rw [backoffFrom, pow_zero, mul_one]
  | succ rounds ih =>
    unfold backoffFrom
    by_cases below : delay < batchRetryMaximum
    · rw [if_pos below]
      by_cases high : batchRetryMaximum / 2 < delay
      · rw [if_pos high, min_double positive rounds (by omega)]
      · rw [if_neg high, ih (by omega) (by omega), pow_succ', mul_assoc]
    · rw [if_neg below, min_double positive rounds (by omega)]
      exact min_eq_right (by omega)

theorem batchAttemptBackoff_eq (attempt : Int) :
    batchAttemptBackoff attempt = exponential batchRetryBase batchRetryMaximum attempt := by
  unfold batchAttemptBackoff exponential
  rw [backoffFrom_eq _ (by decide) (by decide)]
  congr 3
  split <;> omega

def batchRetryPolicy : ExponentialRetryPolicy :=
  ⟨100000000, 30000000000, none, by decide, by decide⟩

/-! ## Exact delays -/

theorem newExponentialRetryPolicy_eq_ok {baseDelay maxDelay : Int64} (positive : 0 < baseDelay)
    (capped : baseDelay ≤ maxDelay) (jitter : Option (Int64 → Int64)) :
    newExponentialRetryPolicy baseDelay maxDelay jitter =
      .ok ⟨baseDelay, maxDelay, jitter, positive, capped⟩ := by
  apply dif_neg
  rintro (low | low | high)
  · exact Int64.not_le.mpr positive low
  · exact Int64.not_le.mpr positive (Int64.le_trans capped low)
  · exact Int64.not_le.mpr high capped

/-- Without jitter the delay is the closed form, also in an arithmetic that stops
at an overflow, and it never decreases with the attempt; the batch backoff is the
same function of its own constants; no jitter exceeds the maximum. -/
theorem exponential_delays_exact (baseDelay maxDelay : Int64) (positive : 0 < baseDelay)
    (capped : baseDelay ≤ maxDelay) :
    (∃ p, newExponentialRetryPolicy baseDelay maxDelay none = .ok p ∧
      ∀ attempt : Int64, ∃ delay, p.retryDelay .wrapping attempt = some delay ∧
        p.retryDelay .exact attempt = some delay ∧
        delay.toInt = min (baseDelay.toInt * 2 ^ (attempt.toInt - 1).toNat) maxDelay.toInt ∧
        (attempt ≤ 1 → delay = baseDelay) ∧
        ∀ later next, attempt ≤ later → p.retryDelay .wrapping later = some next →
          delay ≤ next) ∧
    (∀ attempt : Int64, ∃ delay, batchRetryPolicy.retryDelay .wrapping attempt = some delay ∧
      batchRetryPolicy.retryDelay .exact attempt = some delay ∧
      delay.toInt = batchAttemptBackoff attempt.toInt) ∧
    ∀ jitter, ∃ p, newExponentialRetryPolicy baseDelay maxDelay (some jitter) = .ok p ∧
      ∀ attempt : Int64, ∃ delay, p.retryDelay .wrapping attempt = some delay ∧
        p.retryDelay .exact attempt = some delay ∧ delay ≤ maxDelay := by
  refine ⟨⟨_, newExponentialRetryPolicy_eq_ok positive capped none, fun attempt => ?_⟩, ?_, ?_⟩
  · obtain ⟨delay, computed, checked, closed⟩ := ExponentialRetryPolicy.retryDelay_exact
      ⟨baseDelay, maxDelay, none, positive, capped⟩ attempt rfl
    refine ⟨delay, computed, checked, closed, ?_, ?_⟩
    · exact ExponentialRetryPolicy.retryDelay_first _ rfl computed
    · intro later next after following
      exact ExponentialRetryPolicy.retryDelay_mono _ rfl computed following after
  · intro attempt
    obtain ⟨delay, computed, checked, closed⟩ := batchRetryPolicy.retryDelay_exact attempt rfl
    refine ⟨delay, computed, checked, ?_⟩
    rw [closed, batchAttemptBackoff_eq]
    rfl
  · intro jitter
    refine ⟨_, newExponentialRetryPolicy_eq_ok positive capped (some jitter), fun attempt => ?_⟩
    obtain ⟨delay, computed, checked, below⟩ :=
      ExponentialRetryPolicy.retryDelay_le ⟨baseDelay, maxDelay, some jitter, positive, capped⟩
        attempt
    exact ⟨delay, computed, checked, Int64.le_iff_toInt_le.mpr below⟩

/-- A base of 3 and an odd maximum near the largest duration. -/
theorem exponential_delays_odd_maximum :
    (0 : Int64) < 3 ∧ (3 : Int64) ≤ 9223372036854775807 ∧
      ∃ p, newExponentialRetryPolicy 3 9223372036854775807 none = .ok p ∧
        ∃ delay, p.retryDelay .wrapping 5 = some delay ∧ delay.toInt = 48 := by
  have positive : (0 : Int64) < 3 := by decide
  have capped : (3 : Int64) ≤ 9223372036854775807 := by decide
  obtain ⟨p, built, exact_⟩ := (exponential_delays_exact 3 9223372036854775807 positive capped).1
  obtain ⟨delay, computed, -, closed, -⟩ := exact_ 5
  refine ⟨positive, capped, p, built, delay, computed, closed.trans ?_⟩
  decide

end OutboxFormal
