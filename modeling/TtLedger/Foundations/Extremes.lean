import Mathlib.Algebra.Order.BigOperators.Group.List
import Mathlib.Data.Nat.GCD.Basic
import Mathlib.Data.List.Perm.Basic
import Mathlib.Order.Monotone.Basic

/-!
# Extremes and common divisors of a list

The least and the greatest element of a list over a linear order, under permutations and under
monotone and antitone maps; the greatest of positive amounts against their sum
(`sum_le_foldl_max_iff`); and the greatest common divisor of a list of numbers, under permutations
and multiples.
-/

namespace TtLedger

section Extremes

variable {α β : Type} [LinearOrder α] [LinearOrder β] {l l' : List α}

theorem min?_of_perm (h : l.Perm l') : l.min? = l'.min? := by
  refine Option.ext fun a => ?_
  rw [List.min?_eq_some_iff, List.min?_eq_some_iff, h.mem_iff]
  exact and_congr_right fun _ => forall_congr' fun b => by rw [h.mem_iff]

theorem max?_of_perm (h : l.Perm l') : l.max? = l'.max? := by
  refine Option.ext fun a => ?_
  rw [List.max?_eq_some_iff, List.max?_eq_some_iff, h.mem_iff]
  exact and_congr_right fun _ => forall_congr' fun b => by rw [h.mem_iff]

theorem min?_map_of_monotone {f : α → β} (hf : Monotone f) : (l.map f).min? = l.min?.map f := by
  cases h : l.min? with
  | none =>
    rw [List.min?_eq_none_iff.mp h]
    rfl
  | some a =>
    obtain ⟨ha, hle⟩ := List.min?_eq_some_iff.mp h
    rw [Option.map_some, List.min?_eq_some_iff]
    refine ⟨List.mem_map_of_mem ha, fun b hb => ?_⟩
    obtain ⟨c, hc, rfl⟩ := List.mem_map.mp hb
    exact hf (hle c hc)

theorem max?_map_of_monotone {f : α → β} (hf : Monotone f) : (l.map f).max? = l.max?.map f := by
  cases h : l.max? with
  | none =>
    rw [List.max?_eq_none_iff.mp h]
    rfl
  | some a =>
    obtain ⟨ha, hle⟩ := List.max?_eq_some_iff.mp h
    rw [Option.map_some, List.max?_eq_some_iff]
    refine ⟨List.mem_map_of_mem ha, fun b hb => ?_⟩
    obtain ⟨c, hc, rfl⟩ := List.mem_map.mp hb
    exact hf (hle c hc)

theorem min?_map_of_antitone {f : α → β} (hf : Antitone f) : (l.map f).min? = l.max?.map f := by
  cases h : l.max? with
  | none =>
    rw [List.max?_eq_none_iff.mp h]
    rfl
  | some a =>
    obtain ⟨ha, hle⟩ := List.max?_eq_some_iff.mp h
    rw [Option.map_some, List.min?_eq_some_iff]
    refine ⟨List.mem_map_of_mem ha, fun b hb => ?_⟩
    obtain ⟨c, hc, rfl⟩ := List.mem_map.mp hb
    exact hf (hle c hc)

end Extremes

/-! ## Sums -/

section Sums

variable {K : Type*} [AddCommGroup K] [LinearOrder K] [IsOrderedAddMonoid K] {l : List K}

omit [AddCommGroup K] [IsOrderedAddMonoid K] in
theorem le_foldl_max {m q : K} (h : q ≤ m) (l : List K) : q ≤ l.foldl max m := by
  induction l generalizing m with
  | nil => exact h
  | cons a l ih => exact ih (le_max_of_le_left h)

omit [AddCommGroup K] [IsOrderedAddMonoid K] in
theorem le_foldl_max_of_mem {q : K} (h : q ∈ l) (m : K) : q ≤ l.foldl max m := by
  induction l generalizing m with
  | nil => cases h
  | cons a l ih =>
    rcases List.mem_cons.mp h with rfl | hmem
    · exact le_foldl_max (le_max_right _ _) l
    · exact ih hmem _

omit [AddCommGroup K] [IsOrderedAddMonoid K] in
theorem foldl_max_le {m b : K} (hm : m ≤ b) (h : ∀ q ∈ l, q ≤ b) : l.foldl max m ≤ b := by
  induction l generalizing m with
  | nil => exact hm
  | cons q l ih => exact ih (max_le hm (h q (by simp))) fun q hq => h q (by simp [hq])

/-- The greatest of amounts that are not negative is no more than all of them. -/
theorem foldl_max_le_add_sum {m : K} (h : ∀ q ∈ l, 0 ≤ q) (hm : 0 ≤ m) :
    l.foldl max m ≤ m + l.sum := by
  induction l generalizing m with
  | nil => simp
  | cons q l ih =>
    have hq := h q (by simp)
    have htail : l.foldl max (max m q) ≤ max m q + l.sum :=
      ih (fun q hq => h q (by simp [hq])) (le_max_of_le_left hm)
    have hmax : max m q ≤ m + q := max_le (le_add_of_nonneg_right hq) (le_add_of_nonneg_left hm)
    rw [List.foldl_cons, List.sum_cons, ← add_assoc]
    exact htail.trans (add_le_add_left hmax _)

/-- The greatest of two or more positive amounts is less than all of them. -/
theorem foldl_max_lt_add_sum {m : K} (h : ∀ q ∈ l, 0 < q) (hne : l ≠ []) (hm : 0 < m) :
    l.foldl max m < m + l.sum := by
  obtain ⟨q, l, rfl⟩ := List.exists_cons_of_ne_nil hne
  have hq := h q (by simp)
  have hmax : max m q < m + q := max_lt (lt_add_of_pos_right m hq) (lt_add_of_pos_left q hm)
  have htail := foldl_max_le_add_sum (l := l) (fun q hq => (h q (by simp [hq])).le)
    (le_max_of_le_left hm.le : 0 ≤ max m q)
  rw [List.foldl_cons, List.sum_cons, ← add_assoc]
  exact htail.trans_lt (add_lt_add_left hmax _)

/-- Positive amounts sum to no more than the greatest exactly when they are one at most. -/
theorem sum_le_foldl_max_iff (h : ∀ q ∈ l, 0 < q) : l.sum ≤ l.foldl max 0 ↔ l.length ≤ 1 := by
  match l with
  | [] => simp
  | [q] => simp
  | q :: r :: l =>
    have hq := h q (by simp)
    have hlt := foldl_max_lt_add_sum (fun a ha => h a (by simp [ha])) (List.cons_ne_nil r l) hq
    rw [List.sum_cons, List.foldl_cons, max_eq_right hq.le]
    exact iff_of_false (not_le.mpr hlt) (by simp)

end Sums

/-! ## Greatest common divisors -/

/-- The greatest common divisor of a list of numbers. -/
def listGcd (l : List ℕ) : ℕ := l.foldl Nat.gcd 0

theorem dvd_foldl_gcd_iff {l : List ℕ} {n d : ℕ} :
    d ∣ l.foldl Nat.gcd n ↔ d ∣ n ∧ ∀ x ∈ l, d ∣ x := by
  induction l generalizing n with
  | nil => simp
  | cons x l ih => rw [List.foldl_cons, ih, Nat.dvd_gcd_iff, List.forall_mem_cons, and_assoc]

/-- The divisors of the greatest common divisor are the common divisors. -/
theorem dvd_listGcd_iff {l : List ℕ} {d : ℕ} : d ∣ listGcd l ↔ ∀ x ∈ l, d ∣ x := by
  rw [listGcd, dvd_foldl_gcd_iff]
  simp

theorem listGcd_of_perm {l l' : List ℕ} (h : l.Perm l') : listGcd l = listGcd l' :=
  Nat.dvd_antisymm (dvd_listGcd_iff.mpr fun x hx => dvd_listGcd_iff.mp dvd_rfl x (h.mem_iff.mpr hx))
    (dvd_listGcd_iff.mpr fun x hx => dvd_listGcd_iff.mp dvd_rfl x (h.mem_iff.mp hx))

theorem listGcd_map_mul (c : ℕ) (l : List ℕ) : listGcd (l.map (c * ·)) = c * listGcd l := by
  have hfold : ∀ n, (l.map (c * ·)).foldl Nat.gcd (c * n) = c * l.foldl Nat.gcd n := by
    induction l with
    | nil => exact fun n => rfl
    | cons x l ih =>
      intro n
      rw [List.map_cons, List.foldl_cons, List.foldl_cons, Nat.gcd_mul_left, ih]
  simpa [listGcd] using hfold 0

theorem listGcd_pos {l : List ℕ} {x : ℕ} (hx : x ∈ l) (hpos : 0 < x) : 0 < listGcd l :=
  Nat.pos_of_dvd_of_pos (dvd_listGcd_iff.mp dvd_rfl x hx) hpos

end TtLedger
