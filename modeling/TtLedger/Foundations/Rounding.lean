import Mathlib.Algebra.Order.Round
import Mathlib.Algebra.Group.Int.Even
import Mathlib.Data.Int.Log
import Mathlib.Data.Rat.Floor
import Mathlib.Tactic.Linarith
import Mathlib.Tactic.Ring

/-!
# Rounding half to even

`roundHalfEven` rounds to the nearest integer and a tie to the even one: it errs by at most a half
and is monotone. `roundToDigits` rounds to a number of significant decimal digits, as decimal
arithmetic in a context of bounded precision does with each exact result; a number that has no
more digits is left as it is (`roundToDigits_of_hasDigits`), and no number changes its sign
(`roundToDigits_pos_iff`, `roundToDigits_neg_iff`).
-/

namespace TtLedger

section Integers

variable {K : Type*} [Field K] [LinearOrder K] [FloorRing K]

/-- The nearest integer, the even one of two. -/
def roundHalfEven (q : K) : ℤ :=
  if Int.fract q < 1 / 2 then ⌊q⌋
  else if 1 / 2 < Int.fract q then ⌊q⌋ + 1
  else if Even ⌊q⌋ then ⌊q⌋ else ⌊q⌋ + 1

theorem floor_le_roundHalfEven (q : K) : ⌊q⌋ ≤ roundHalfEven q := by
  unfold roundHalfEven
  split_ifs <;> omega

theorem roundHalfEven_le_floor_add_one (q : K) : roundHalfEven q ≤ ⌊q⌋ + 1 := by
  unfold roundHalfEven
  split_ifs <;> omega

variable [IsStrictOrderedRing K]

@[simp] theorem roundHalfEven_intCast (n : ℤ) : roundHalfEven (n : K) = n := by
  rw [roundHalfEven, Int.fract_intCast, if_pos one_half_pos, Int.floor_intCast]

theorem abs_roundHalfEven_sub_le (q : K) : |(roundHalfEven q : K) - q| ≤ 1 / 2 := by
  have hsplit : (⌊q⌋ : K) + Int.fract q = q := Int.floor_add_fract q
  have hnonneg := Int.fract_nonneg q
  have hlt := Int.fract_lt_one q
  rw [abs_le]
  unfold roundHalfEven
  split_ifs with hlow hhigh heven
  · exact ⟨by linarith, by linarith⟩
  · rw [Int.cast_add, Int.cast_one]
    exact ⟨by linarith, by linarith⟩
  · exact ⟨by linarith, by linarith⟩
  · rw [Int.cast_add, Int.cast_one]
    exact ⟨by linarith, by linarith⟩

theorem roundHalfEven_mono {p q : K} (h : p ≤ q) : roundHalfEven p ≤ roundHalfEven q := by
  rcases (Int.floor_mono h).lt_or_eq with hlt | heq
  · exact (roundHalfEven_le_floor_add_one p).trans
      ((Int.add_one_le_of_lt hlt).trans (floor_le_roundHalfEven q))
  · have hfract : Int.fract p ≤ Int.fract q := by
      rw [← Int.self_sub_floor, ← Int.self_sub_floor, heq]
      exact sub_le_sub_right h _
    unfold roundHalfEven
    rw [heq]
    -- the higher of two fractions is not rounded down where the lower is rounded up
    split_ifs <;> first | omega | linarith

/-- A number within an integer is rounded within it. -/
theorem abs_roundHalfEven_le {q : K} {n : ℤ} (h : |q| ≤ n) : |roundHalfEven q| ≤ n := by
  obtain ⟨hlow, hhigh⟩ := abs_le.mp h
  have hneg : roundHalfEven (-(n : K)) = -n := by
    rw [← Int.cast_neg, roundHalfEven_intCast]
  refine abs_le.mpr ⟨?_, ?_⟩
  · rw [← hneg]
    exact roundHalfEven_mono hlow
  · rw [← roundHalfEven_intCast (K := K) n]
    exact roundHalfEven_mono hhigh

end Integers

/-! ## Significant digits -/

/-- A number that some significant decimal digits write. -/
def HasDigits (digits : ℕ) (q : ℚ) : Prop := ∃ n k : ℤ, |n| < 10 ^ digits ∧ q = n * 10 ^ k

/-- The unit of the last of some significant digits. -/
def lastDigit (digits : ℕ) (q : ℚ) : ℚ := 10 ^ (Int.log 10 |q| + 1 - digits)

/-- Round to some significant digits. -/
def roundToDigits (digits : ℕ) (q : ℚ) : ℚ :=
  roundHalfEven (q / lastDigit digits q) * lastDigit digits q

theorem lastDigit_ne_zero (digits : ℕ) (q : ℚ) : lastDigit digits q ≠ 0 :=
  zpow_ne_zero _ (by norm_num)

/-- **A number of no more digits is not rounded.** -/
theorem roundToDigits_of_hasDigits {digits : ℕ} {q : ℚ} (h : HasDigits digits q) :
    roundToDigits digits q = q := by
  obtain ⟨n, k, hn, hq⟩ := h
  have hten : (10 : ℚ) ≠ 0 := by norm_num
  suffices hint : ∃ m : ℤ, q / lastDigit digits q = m by
    obtain ⟨m, hm⟩ := hint
    rw [roundToDigits, hm, roundHalfEven_intCast, ← hm, div_mul_cancel₀ _ (lastDigit_ne_zero _ _)]
  rcases eq_or_ne q 0 with hzero | hne
  · exact ⟨0, by rw [hzero, zero_div, Int.cast_zero]⟩
  · have hsize : |q| < (10 : ℚ) ^ ((digits : ℤ) + k) := by
      rw [hq, abs_mul, abs_of_pos (zpow_pos (by norm_num : (0 : ℚ) < 10) k), zpow_add₀ hten,
        zpow_natCast]
      refine mul_lt_mul_of_pos_right ?_ (zpow_pos (by norm_num) k)
      rw [← Int.cast_abs]
      exact_mod_cast hn
    have hlog : Int.log 10 |q| < (digits : ℤ) + k :=
      (Int.lt_zpow_iff_log_lt (by norm_num) (abs_pos.mpr hne)).mp (by exact_mod_cast hsize)
    -- the last digit kept is at or below the last one there is
    obtain ⟨j, hj⟩ := Int.eq_ofNat_of_zero_le (a := k - (Int.log 10 |q| + 1 - digits)) (by omega)
    refine ⟨n * 10 ^ j, ?_⟩
    rw [div_eq_iff (lastDigit_ne_zero _ _), Int.cast_mul, Int.cast_pow, Int.cast_ofNat, lastDigit,
      mul_assoc, ← zpow_natCast, ← zpow_add₀ hten, ← hj, sub_add_cancel]
    exact hq

/-- Scaled by a power of ten a number has the same digits. -/
theorem HasDigits.mul_zpow {digits : ℕ} {q : ℚ} (h : HasDigits digits q) (k : ℤ) :
    HasDigits digits (q * 10 ^ k) := by
  obtain ⟨n, j, hn, rfl⟩ := h
  exact ⟨n, j + k, hn, by rw [mul_assoc, ← zpow_add₀ (by norm_num)]⟩

/-- A rounded number has the digits it is rounded to. -/
theorem hasDigits_roundToDigits {digits : ℕ} (h : 0 < digits) (q : ℚ) :
    HasDigits digits (roundToDigits digits q) := by
  have hscaled : |q / lastDigit digits q| ≤ ((10 ^ digits : ℤ) : ℚ) := by
    have hpos : 0 < lastDigit digits q := zpow_pos (by norm_num) _
    have hlog : |q| < ((10 : ℕ) : ℚ) ^ (Int.log 10 |q| + 1) :=
      Int.lt_zpow_succ_log_self (by norm_num) _
    rw [abs_div, abs_of_pos hpos, div_le_iff₀ hpos, Int.cast_pow, Int.cast_ofNat, lastDigit,
      ← zpow_natCast, ← zpow_add₀ (by norm_num), add_sub_cancel]
    exact hlog.le
  rcases (abs_roundHalfEven_le hscaled).lt_or_eq with hlt | heq
  · exact ⟨_, _, hlt, rfl⟩
  · -- the digits overflow into a power of ten
    have hone : |(1 : ℤ)| < 10 ^ digits := by
      rw [abs_one]
      exact one_lt_pow₀ (by norm_num) h.ne'
    rcases (abs_eq (by positivity)).mp heq with hval | hval
    · refine ⟨1, digits + (Int.log 10 |q| + 1 - digits), hone, ?_⟩
      rw [roundToDigits, hval, Int.cast_pow, Int.cast_ofNat, lastDigit, zpow_add₀ (by norm_num),
        zpow_natCast, Int.cast_one, one_mul]
    · refine ⟨-1, digits + (Int.log 10 |q| + 1 - digits), by rwa [abs_neg], ?_⟩
      rw [roundToDigits, hval, Int.cast_neg, Int.cast_pow, Int.cast_ofNat, lastDigit,
        zpow_add₀ (by norm_num), zpow_natCast, Int.cast_neg, Int.cast_one, neg_one_mul, neg_mul]

/-- The nearest integer has no more digits. -/
theorem HasDigits.roundHalfEven {digits : ℕ} (h : 0 < digits) {q : ℚ} (hq : HasDigits digits q) :
    HasDigits digits (roundHalfEven q) := by
  obtain ⟨n, k, hn, rfl⟩ := hq
  rcases le_or_gt 0 k with hk | hk
  · -- an integer stays
    obtain ⟨j, rfl⟩ := Int.eq_ofNat_of_zero_le hk
    have hint : (n : ℚ) * 10 ^ (j : ℤ) = ((n * 10 ^ j : ℤ) : ℚ) := by
      rw [zpow_natCast, Int.cast_mul, Int.cast_pow, Int.cast_ofNat]
    rw [hint, roundHalfEven_intCast, ← hint]
    exact ⟨n, j, hn, rfl⟩
  · have hten : |(n : ℚ) * 10 ^ k| ≤ ((10 ^ (digits - 1) : ℤ) : ℚ) := by
      have hpow : (10 : ℚ) ^ k ≤ 10 ^ (-1 : ℤ) := zpow_le_zpow_right₀ (by norm_num) (by omega)
      have hn' : |(n : ℚ)| ≤ 10 ^ digits := by
        rw [← Int.cast_abs]
        exact_mod_cast hn.le
      have hdigits : (10 : ℚ) ^ digits * 10 ^ (-1 : ℤ) = 10 ^ (digits - 1) := by
        rw [zpow_neg_one, ← div_eq_mul_inv, div_eq_iff (by norm_num), ← pow_succ,
          Nat.sub_add_cancel h]
      rw [abs_mul, abs_of_pos (zpow_pos (by norm_num : (0 : ℚ) < 10) k), Int.cast_pow,
        Int.cast_ofNat, ← hdigits]
      exact mul_le_mul hn' hpow (zpow_pos (by norm_num) _).le (by positivity)
    refine ⟨TtLedger.roundHalfEven ((n : ℚ) * 10 ^ k), 0, ?_, by rw [zpow_zero, mul_one]⟩
    exact (abs_roundHalfEven_le hten).trans_lt
      (pow_lt_pow_right₀ (by norm_num) (Nat.sub_lt h Nat.one_pos))

section Sign

variable {digits : ℕ} {q : ℚ}

@[simp] theorem roundToDigits_zero : roundToDigits digits 0 = 0 := by
  rw [roundToDigits, zero_div, ← Int.cast_zero, roundHalfEven_intCast, Int.cast_zero, zero_mul]

theorem lastDigit_pos (digits : ℕ) (q : ℚ) : 0 < lastDigit digits q := zpow_pos (by norm_num) _

/-- The last of at least one digit is within the number. -/
theorem lastDigit_le (h : 0 < digits) (hq : q ≠ 0) : lastDigit digits q ≤ |q| := by
  have hlog : ((10 : ℕ) : ℚ) ^ Int.log 10 |q| ≤ |q| :=
    Int.zpow_log_le_self (by norm_num) (abs_pos.mpr hq)
  exact (zpow_le_zpow_right₀ (by norm_num) (by omega)).trans hlog

theorem roundToDigits_pos (h : 0 < digits) (hq : 0 < q) : 0 < roundToDigits digits q := by
  have hone : ((1 : ℤ) : ℚ) ≤ q / lastDigit digits q := by
    rw [Int.cast_one, le_div_iff₀ (lastDigit_pos _ _), one_mul]
    exact (lastDigit_le h hq.ne').trans_eq (abs_of_pos hq)
  have hrounded := roundHalfEven_mono hone
  rw [roundHalfEven_intCast] at hrounded
  refine mul_pos ?_ (lastDigit_pos _ _)
  exact_mod_cast Int.zero_lt_one.trans_le hrounded

theorem roundToDigits_neg (h : 0 < digits) (hq : q < 0) : roundToDigits digits q < 0 := by
  have hone : q / lastDigit digits q ≤ ((-1 : ℤ) : ℚ) := by
    rw [Int.cast_neg, Int.cast_one, div_le_iff₀ (lastDigit_pos _ _), neg_one_mul, le_neg]
    exact (lastDigit_le h hq.ne).trans_eq (abs_of_neg hq)
  have hrounded := roundHalfEven_mono hone
  rw [roundHalfEven_intCast] at hrounded
  refine mul_neg_of_neg_of_pos ?_ (lastDigit_pos _ _)
  exact_mod_cast lt_of_le_of_lt hrounded (by norm_num)

theorem roundToDigits_pos_iff (h : 0 < digits) (q : ℚ) : 0 < roundToDigits digits q ↔ 0 < q := by
  refine ⟨fun hpos => ?_, roundToDigits_pos h⟩
  rcases lt_trichotomy q 0 with hq | rfl | hq
  · exact absurd (roundToDigits_neg h hq) hpos.not_gt
  · exact absurd roundToDigits_zero hpos.ne'
  · exact hq

theorem roundToDigits_neg_iff (h : 0 < digits) (q : ℚ) : roundToDigits digits q < 0 ↔ q < 0 := by
  refine ⟨fun hneg => ?_, roundToDigits_neg h⟩
  rcases lt_trichotomy q 0 with hq | rfl | hq
  · exact hq
  · exact absurd roundToDigits_zero hneg.ne
  · exact absurd (roundToDigits_pos h hq) hneg.not_gt

end Sign

end TtLedger
