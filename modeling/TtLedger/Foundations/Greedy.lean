import Mathlib.Algebra.BigOperators.Group.List.Basic
import Mathlib.Algebra.Order.Group.MinMax
import Mathlib.Algebra.Order.BigOperators.Group.List

/-!
# Greedy allocation

A quantity taken from holders in order: each gives as much of what is left as it has (`greedy`).
Together they give the quantity, or all they have (`sum_greedy`); once nothing is left, the others
give nothing (`greedy_zero`).
-/

namespace TtLedger

variable {α : Type*} [AddCommGroup α] [LinearOrder α]

/-- What each holder gives towards a quantity. -/
def greedy : α → List α → List α
  | _, [] => []
  | left, held :: holders => min left held :: greedy (left - min left held) holders

@[simp] theorem greedy_nil (left : α) : greedy left [] = [] := rfl

@[simp] theorem greedy_cons (left held : α) (holders : List α) :
    greedy left (held :: holders) = min left held :: greedy (left - min left held) holders := rfl

/-- Nothing is taken of nothing. -/
theorem greedy_zero {holders : List α} (h : ∀ held ∈ holders, 0 ≤ held) :
    greedy 0 holders = List.replicate holders.length 0 := by
  induction holders with
  | nil => rfl
  | cons held holders ih =>
    rw [greedy_cons, min_eq_left (h held List.mem_cons_self), sub_zero,
      ih fun c hc => h c (List.mem_cons_of_mem _ hc)]
    rfl

variable [IsOrderedAddMonoid α]

/-- **Greedy allocation**: the holders give the quantity, or all they have. -/
theorem sum_greedy {left : α} (hleft : 0 ≤ left) {holders : List α}
    (h : ∀ held ∈ holders, 0 ≤ held) : (greedy left holders).sum = min left holders.sum := by
  induction holders generalizing left with
  | nil => rw [greedy_nil, List.sum_nil, min_eq_right hleft]
  | cons held holders ih =>
    have hheld : 0 ≤ held := h held List.mem_cons_self
    have hrest : ∀ c ∈ holders, 0 ≤ c := fun c hc => h c (List.mem_cons_of_mem _ hc)
    rw [greedy_cons, List.sum_cons, List.sum_cons,
      ih (sub_nonneg.mpr (min_le_left left held)) hrest]
    rcases le_total left held with hle | hle
    · have hsum : left ≤ held + holders.sum :=
        hle.trans (le_add_of_nonneg_right (List.sum_nonneg hrest))
      rw [min_eq_left hle, sub_self, min_eq_left (List.sum_nonneg hrest), add_zero,
        min_eq_left hsum]
    · rw [min_eq_right hle, ← min_add_add_left, add_sub_cancel]

end TtLedger
