import Mathlib.Data.Int.ConditionallyCompleteOrder
import Mathlib.Data.Rat.Floor
import Mathlib.Order.Monotone.Basic
import Mathlib.Tactic.Linarith

/-!
# Truncation toward zero

`truncate x` is the part of a rational before its decimal point and `fractional x` what is left.
Truncation sends a whole number and a fraction to the whole number exactly when it drops the
fraction (`truncate_eq_iff`): the fraction is less than one, and on the side away from zero.
-/

namespace TtLedger

/-- The part of a number before its decimal point. -/
def truncate (x : ℚ) : ℤ := if 0 ≤ x then ⌊x⌋ else ⌈x⌉

/-- What is left of a number behind its decimal point. -/
def fractional (x : ℚ) : ℚ := x - truncate x

/-- Beside the whole number `n`, truncation drops the fraction `φ`. -/
def Drops (φ : ℚ) (n : ℤ) : Prop :=
  (0 < n → 0 ≤ φ ∧ φ < 1) ∧ (n = 0 → -1 < φ ∧ φ < 1) ∧ (n < 0 → -1 < φ ∧ φ ≤ 0)

instance (φ : ℚ) (n : ℤ) : Decidable (Drops φ n) :=
  inferInstanceAs (Decidable (_ ∧ _ ∧ _))

theorem truncate_eq_iff {x : ℚ} {n : ℤ} : truncate x = n ↔ Drops (x - n) n := by
  unfold truncate Drops
  rcases lt_trichotomy n 0 with hn | rfl | hn
  · have hn' : (n : ℚ) ≤ -1 := by exact_mod_cast (by omega : n ≤ -1)
    simp only [hn, not_lt.mpr hn.le, hn.ne, false_implies, true_and, true_implies]
    split
    · rename_i hx
      refine ⟨fun h => ?_, fun h => absurd hx (by linarith [h.2])⟩
      have : 0 ≤ ⌊x⌋ := Int.floor_nonneg.mpr hx
      omega
    · rw [Int.ceil_eq_iff]
      exact ⟨fun h => ⟨by linarith, by linarith⟩, fun h => ⟨by linarith, by linarith⟩⟩
  · simp only [lt_irrefl, false_implies, true_and, true_implies, and_true, Int.cast_zero, sub_zero]
    split
    · rename_i hx
      rw [Int.floor_eq_zero_iff, Set.mem_Ico]
      exact ⟨fun h => ⟨by linarith, h.2⟩, fun h => ⟨hx, h.2⟩⟩
    · rename_i hx
      rw [Int.ceil_eq_zero_iff, Set.mem_Ioc]
      exact ⟨fun h => ⟨h.1, by linarith⟩, fun h => ⟨h.1, by linarith⟩⟩
  · have hn' : (1 : ℚ) ≤ n := by exact_mod_cast (by omega : 1 ≤ n)
    simp only [hn, not_lt.mpr hn.le, hn.ne', false_implies, and_true, true_implies]
    split
    · rw [Int.floor_eq_iff]
      exact ⟨fun h => ⟨by linarith, by linarith⟩, fun h => ⟨by linarith, by linarith⟩⟩
    · rename_i hx
      refine ⟨fun h => ?_, fun h => absurd (by linarith [h.1] : (0 : ℚ) ≤ x) hx⟩
      have : ⌈x⌉ ≤ 0 := Int.ceil_le.mpr (by push_cast; linarith)
      omega

theorem truncate_add_eq_iff {φ : ℚ} {n : ℤ} : truncate (n + φ) = n ↔ Drops φ n := by
  rw [truncate_eq_iff, add_sub_cancel_left]

theorem truncate_add_fractional (x : ℚ) : (truncate x : ℚ) + fractional x = x := by
  rw [fractional, add_sub_cancel]

theorem drops_zero (n : ℤ) : Drops 0 n := by
  refine ⟨fun _ => ?_, fun _ => ?_, fun _ => ?_⟩ <;> norm_num

@[simp] theorem truncate_intCast (n : ℤ) : truncate n = n := by
  rw [truncate_eq_iff, sub_self]
  exact drops_zero n

@[simp] theorem truncate_zero : truncate 0 = 0 := truncate_intCast 0

@[simp] theorem fractional_intCast (n : ℤ) : fractional n = 0 := by
  rw [fractional, truncate_intCast, sub_self]

theorem truncate_mono : Monotone truncate := by
  intro x y hxy
  unfold truncate
  split_ifs with hx hy hy
  · exact Int.floor_le_floor hxy
  · exact absurd (hx.trans hxy) hy
  · exact (Int.ceil_le.mpr (by push_cast; linarith)).trans (Int.floor_nonneg.mpr hy)
  · exact Int.ceil_le_ceil hxy

/-- The largest of truncated numbers is the largest number, truncated. -/
theorem foldl_max_truncate (l : List ℚ) (m : ℚ) :
    (l.map truncate).foldl max (truncate m) = truncate (l.foldl max m) := by
  induction l generalizing m with
  | nil => rfl
  | cons x l ih => rw [List.map_cons, List.foldl_cons, List.foldl_cons, ← truncate_mono.map_max, ih]

end TtLedger
