import Mathlib.Algebra.BigOperators.Group.List.Basic
import Mathlib.Algebra.Order.BigOperators.Group.List
import Mathlib.Algebra.Order.Group.Defs
import Mathlib.Data.List.Nodup
import Mathlib.Tactic.Abel

/-!
# Folds as accounts

A fold that walks a list moves a measured quantity at every element. A measure after the fold is
the measure before and the moves of the elements, each where the fold meets it (`measure_foldl`).

Two folds that walk one list side by side (`Alongside`) end as far apart as they started and their
steps move them (`measure_sub_of_alongside`); where no step moves them further than its flow, they
end so far apart exactly when every step moves them by its flow (`alongside_iff_of_le`).

Sums over a list split by a test (`sum_filter_add_sum_filter_not`) and by distinct keys
(`sum_filter_keys`), and a sum of terms of one sign vanishes only term by term
(`sum_eq_zero_iff_of_oneSigned`).
-/

namespace TtLedger

variable {α σ τ κ M : Type*} [AddCommGroup M]

/-! ## The move of each element -/

section Moves

variable [DecidableEq α]

/-- The elements of a list before the first `a`. -/
def before (l : List α) (a : α) : List α := l.takeWhile (· ≠ a)

theorem before_cons_self (a : α) (l : List α) : before (a :: l) a = [] := by simp [before]

theorem before_cons_of_ne {a b : α} (h : b ≠ a) (l : List α) :
    before (b :: l) a = b :: before l a := by simp [before, h]

variable (f : σ → α → σ) (m : σ → M)

/-- What an element moves a measure where a fold over a list meets it. -/
def moveAt (x : σ) (l : List α) (a : α) : M :=
  m (f ((before l a).foldl f x) a) - m ((before l a).foldl f x)

/-- **The measure after a fold** is the measure before and what each element moves it. -/
theorem measure_foldl {l : List α} (hl : l.Nodup) (x : σ) :
    m (l.foldl f x) = m x + (l.map (moveAt f m x l)).sum := by
  induction l generalizing x with
  | nil => simp
  | cons a l ih =>
    obtain ⟨ha, hl⟩ := List.nodup_cons.mp hl
    have htail : l.map (moveAt f m x (a :: l)) = l.map (moveAt f m (f x a) l) := by
      refine List.map_congr_left fun b hb => ?_
      have hne : a ≠ b := fun heq => ha (heq ▸ hb)
      rw [moveAt, before_cons_of_ne hne, List.foldl_cons, moveAt]
    rw [List.foldl_cons, ih hl, List.map_cons, List.sum_cons, htail, moveAt, before_cons_self,
      List.foldl_nil]
    abel

end Moves

/-! ## Two folds side by side -/

/-- At every element of a list, two folds over it meet a relation in the states they have there. -/
def Alongside (R : σ → τ → α → Prop) (f : σ → α → σ) (g : τ → α → τ) : σ → τ → List α → Prop
  | _, _, [] => True
  | x, y, a :: l => R x y a ∧ Alongside R f g (f x a) (g y a) l

section Alongside

variable {R : σ → τ → α → Prop} {f : σ → α → σ} {g : τ → α → τ}

instance decidableAlongside [∀ x y a, Decidable (R x y a)] :
    ∀ (x : σ) (y : τ) (l : List α), Decidable (Alongside R f g x y l)
  | _, _, [] => isTrue trivial
  | x, y, a :: l =>
    have := decidableAlongside (f x a) (g y a) l
    inferInstanceAs (Decidable (R x y a ∧ Alongside R f g (f x a) (g y a) l))

/-- How far apart the steps of two folds move their measures at an element, beyond its flow. -/
def StepsApart (f : σ → α → σ) (g : τ → α → τ) (m : σ → M) (m' : τ → M) (flow : α → M) (x : σ)
    (y : τ) (a : α) : Prop :=
  m (f x a) - m' (g y a) = m x - m' y + flow a

variable {m : σ → M} {m' : τ → M} {flow : α → M}

/-- **Two folds end as far apart** as they started and the flow moves them. -/
theorem measure_sub_of_alongside {x : σ} {y : τ} {l : List α}
    (h : Alongside (StepsApart f g m m' flow) f g x y l) :
    m (l.foldl f x) - m' (l.foldl g y) = m x - m' y + (l.map flow).sum := by
  induction l generalizing x y with
  | nil => simp
  | cons a l ih =>
    obtain ⟨hhead, htail⟩ := h
    rw [List.foldl_cons, List.foldl_cons, ih htail, hhead, List.map_cons, List.sum_cons, add_assoc]

theorem Alongside.mono {R' : σ → τ → α → Prop} {x : σ} {y : τ} {l : List α}
    (h : Alongside R f g x y l) (himp : ∀ x y, ∀ a ∈ l, R x y a → R' x y a) :
    Alongside R' f g x y l := by
  induction l generalizing x y with
  | nil => trivial
  | cons a l ih =>
    exact ⟨himp x y a List.mem_cons_self h.1,
      ih h.2 fun x y b hb => himp x y b (List.mem_cons_of_mem _ hb)⟩

theorem Alongside.and {R' : σ → τ → α → Prop} {x : σ} {y : τ} {l : List α}
    (h : Alongside R f g x y l) (h' : Alongside R' f g x y l) :
    Alongside (fun x y a => R x y a ∧ R' x y a) f g x y l := by
  induction l generalizing x y with
  | nil => trivial
  | cons a l ih => exact ⟨⟨h.1, h'.1⟩, ih h.2 h'.2⟩

/-- An invariant of two folds holds at every element. -/
theorem alongside_of_invariant {I : σ → τ → Prop} {x : σ} {y : τ} {l : List α} (hstart : I x y)
    (h : Alongside R f g x y l) (hstep : ∀ x y, ∀ a ∈ l, I x y → R x y a → I (f x a) (g y a)) :
    Alongside (fun x y a => I x y ∧ R x y a) f g x y l := by
  induction l generalizing x y with
  | nil => trivial
  | cons a l ih =>
    exact ⟨⟨hstart, h.1⟩, ih (hstep x y a List.mem_cons_self hstart h.1) h.2
      fun x y b hb => hstep x y b (List.mem_cons_of_mem _ hb)⟩

variable [PartialOrder M] [IsOrderedAddMonoid M]

theorem measure_sub_le_of_alongside {x : σ} {y : τ} {l : List α}
    (h : Alongside (fun x y a => m (f x a) - m' (g y a) ≤ m x - m' y + flow a) f g x y l) :
    m (l.foldl f x) - m' (l.foldl g y) ≤ m x - m' y + (l.map flow).sum := by
  induction l generalizing x y with
  | nil => simp
  | cons a l ih =>
    obtain ⟨hhead, htail⟩ := h
    rw [List.foldl_cons, List.foldl_cons, List.map_cons, List.sum_cons, ← add_assoc]
    exact (ih htail).trans (add_le_add_left hhead _)

/-- Where no step moves two folds further apart than its flow, **the flow is reached only step by
step**. -/
theorem alongside_iff_of_le {x : σ} {y : τ} {l : List α}
    (h : Alongside (fun x y a => m (f x a) - m' (g y a) ≤ m x - m' y + flow a) f g x y l) :
    Alongside (StepsApart f g m m' flow) f g x y l ↔
      m (l.foldl f x) - m' (l.foldl g y) = m x - m' y + (l.map flow).sum := by
  refine ⟨measure_sub_of_alongside, fun hend => ?_⟩
  induction l generalizing x y with
  | nil => trivial
  | cons a l ih =>
    obtain ⟨hhead, htail⟩ := h
    rw [List.foldl_cons, List.foldl_cons, List.map_cons, List.sum_cons, ← add_assoc] at hend
    have hrest := measure_sub_le_of_alongside htail
    rw [hend] at hrest
    have hexact : StepsApart f g m m' flow x y a := hhead.antisymm (le_of_add_le_add_right hrest)
    exact ⟨hexact, ih htail (by rw [hend, hexact])⟩

end Alongside

/-! ## Sums over parts of a list -/

section Sums

variable (flow : α → M)

theorem sum_filter_add_sum_filter_not (p : α → Bool) (l : List α) :
    ((l.filter p).map flow).sum + ((l.filter fun a => !p a).map flow).sum = (l.map flow).sum := by
  rw [← List.sum_append, ← List.map_append]
  exact ((List.filter_append_perm p l).map flow).sum_eq

variable [DecidableEq κ]

/-- The parts of a list under distinct keys sum to the part under any of them. -/
theorem sum_filter_keys (key : α → Option κ) {keys : List κ} (hkeys : keys.Nodup) (l : List α) :
    (keys.map fun k => ((l.filter fun a => key a = some k).map flow).sum).sum =
      ((l.filter fun a => (key a).any (keys.contains ·)).map flow).sum := by
  induction keys with
  | nil => simp
  | cons k keys ih =>
    obtain ⟨hk, hkeys⟩ := List.nodup_cons.mp hkeys
    rw [List.map_cons, List.sum_cons, ih hkeys]
    have hsplit := sum_filter_add_sum_filter_not flow (fun a => decide (key a = some k))
      (l.filter fun a => (key a).any ((k :: keys).contains ·))
    rw [List.filter_filter, List.filter_filter] at hsplit
    rw [← hsplit]
    congr 3
    · refine List.filter_congr fun a _ => ?_
      by_cases h : key a = some k <;> simp [h]
    · refine List.filter_congr fun a _ => ?_
      cases h : key a with
      | none => simp
      | some k' =>
        by_cases hk' : k' = k
        · simp [hk', hk]
        · simp [hk']

end Sums

section OneSigned

variable [PartialOrder M]

/-- A list whose terms have one sign. -/
def OneSigned (l : List M) : Prop := (∀ x ∈ l, 0 ≤ x) ∨ ∀ x ∈ l, x ≤ 0

/-- Terms of one sign sum to zero exactly when each is zero. -/
theorem sum_eq_zero_iff_of_oneSigned [IsOrderedAddMonoid M] {l : List M} (h : OneSigned l) :
    l.sum = 0 ↔ ∀ x ∈ l, x = 0 := by
  refine ⟨fun hsum x hx => ?_, List.sum_eq_zero⟩
  rcases h with hpos | hneg
  · exact List.all_zero_of_le_zero_le_of_sum_eq_zero hpos hsum hx
  · have hsum' : (l.map Neg.neg).sum = 0 := by rw [← List.sum_neg, hsum, neg_zero]
    have hpos : ∀ y ∈ l.map Neg.neg, 0 ≤ y := by
      intro y hy
      obtain ⟨z, hz, rfl⟩ := List.mem_map.mp hy
      exact neg_nonneg.mpr (hneg z hz)
    exact neg_eq_zero.mp
      (List.all_zero_of_le_zero_le_of_sum_eq_zero hpos hsum' (List.mem_map_of_mem hx))

end OneSigned

end TtLedger
