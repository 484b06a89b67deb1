import TtLedger.Foundations.StableSort
import Mathlib.Data.List.Perm.Basic
import Mathlib.Data.Prod.Lex
import Mathlib.Order.WithBot
import Mathlib.Order.OrderDual

/-!
# The semantics of a query

What a relational query computes, on tables that are lists of rows. A condition has one of three
truth values, a comparison with a null is unknown, and `WHERE` keeps the rows whose condition is
true (`holds_all`). `MAX` passes over nulls, an outer join keeps the rows without a partner, and
`ORDER BY` sorts by a key in which a descending column is order dual and nulls come last. Rows
whose keys are distinct have one arrangement only (`sortOn_eq_of_perm`).
-/

namespace TtLedger

variable {α β κ : Type*}

/-! ## Three truth values -/

/-- True, false, or unknown. -/
abbrev Truth := Option Bool

namespace Truth

protected def and : Truth → Truth → Truth
  | some false, _ => some false
  | _, some false => some false
  | some true, some true => some true
  | _, _ => none

/-- A conjunction of conditions; the empty one is true. -/
def all (l : List Truth) : Truth := l.foldr Truth.and (some true)

/-- A row is kept when its condition is true: neither false nor unknown. -/
def holds (t : Truth) : Bool := t = some true

/-- A test of a nullable column: unknown on a null. -/
def test (p : α → Bool) (column : Option α) : Truth := column.map p

@[simp] theorem holds_test (p : α → Bool) (column : Option α) :
    holds (test p column) = column.any p := by
  cases column with
  | none => rfl
  | some a => cases h : p a <;> simp [holds, test, h]

@[simp] theorem holds_and (t u : Truth) : holds (t.and u) = (holds t && holds u) := by
  rcases t with _ | _ | _ <;> rcases u with _ | _ | _ <;> rfl

/-- A conjunction holds when each of its conditions does. -/
theorem holds_all (l : List Truth) : holds (all l) = l.all holds := by
  induction l with
  | nil => rfl
  | cons t l ih => rw [all, List.foldr_cons, holds_and, List.all_cons, ← ih, all]

end Truth

/-! ## Aggregates and joins -/

/-- `MAX` of a nullable column: nulls are passed over, and over nulls only it is null. -/
def maxColumn [Max κ] (column : α → Option κ) (rows : List α) : Option κ :=
  (rows.filterMap column).max?

/-- A left outer join: each row with each partner, or alone when it has none. -/
def outerJoin (on : α → β → Bool) (rows : List α) (partners : List β) :
    List (α × Option β) :=
  rows.flatMap fun a => match partners.filter (on a) with
    | [] => [(a, none)]
    | bs => bs.map fun b => (a, some b)

/-- An inner join. -/
def innerJoin (on : α → β → Bool) (rows : List α) (partners : List β) : List (α × β) :=
  rows.flatMap fun a => (partners.filter (on a)).map fun b => (a, b)

/-- Where each row has at most one partner the outer join is a look-up. -/
theorem outerJoin_eq_map {on : α → β → Bool} {rows : List α} {partners : List β}
    {partner : α → Option β}
    (h : ∀ a ∈ rows, partners.filter (on a) = (partner a).toList) :
    outerJoin on rows partners = rows.map fun a => (a, partner a) := by
  rw [outerJoin, ← List.flatMap_singleton' (rows.map _), List.flatMap_map]
  refine List.flatMap_congr fun a ha => ?_
  rw [h a ha]
  cases partner a <;> rfl

/-- An inner join, read by the partners. -/
theorem innerJoin_perm (on : α → β → Bool) (rows : List α) (partners : List β) :
    (innerJoin on rows partners).Perm
      (partners.flatMap fun b => (rows.filter fun a => on a b).map fun a => (a, b)) := by
  have hpartner : ∀ b, ((rows.filter fun a => on a b).map fun a => (a, b)) =
      rows.flatMap fun a => if on a b then [(a, b)] else [] := by
    intro b
    induction rows with
    | nil => rfl
    | cons a rows ih => cases h : on a b <;> simp [h, ih]
  induction partners with
  | nil => simp [innerJoin]
  | cons b partners ih =>
    rw [List.flatMap_cons]
    refine List.Perm.trans ?_ (ih.append_left _)
    rw [hpartner b]
    refine List.Perm.trans (List.Perm.of_eq ?_) (List.flatMap_append_perm rows _ _).symm
    refine List.flatMap_congr fun a _ => ?_
    cases h : on a b <;> simp [h]

/-! ## Order -/

/-- The key of a column in descending order with nulls last. -/
def descNullsLast : Option κ → WithTop κᵒᵈ
  | none => ⊤
  | some a => ((OrderDual.toDual a : κᵒᵈ) : WithTop κᵒᵈ)

/-- The key of a column without nulls in descending order. -/
abbrev desc (column : κ) : κᵒᵈ := OrderDual.toDual column

theorem descNullsLast_inj {x y : Option κ} : descNullsLast x = descNullsLast y ↔ x = y := by
  cases x <;> cases y <;> simp [descNullsLast, eq_comm]

section Order

variable [LinearOrder κ]

/-- A column comes first when it has a value and the other has none or a smaller one. -/
theorem descNullsLast_lt_iff {x y : Option κ} :
    descNullsLast x < descNullsLast y ↔ ∃ a, x = some a ∧ ∀ b, y = some b → b < a := by
  cases x <;> cases y <;> simp [descNullsLast]

/-- A list whose keys ascend strictly is what sorting makes of its rows. -/
theorem sortOn_eq_of_perm (key : α → κ) {l l' : List α} (hp : l.Perm l')
    (hl' : l'.Pairwise fun a b => key a < key b) : sortOn key l = l' := by
  have hn : (l'.map key).Nodup := List.pairwise_map.mpr (hl'.imp ne_of_lt)
  refine List.Perm.eq_of_pairwise ?_ (pairwise_sortOn key l) (hl'.imp le_of_lt)
    ((perm_sortOn key l).trans hp)
  intro a b ha hb hab hba
  have ha' : a ∈ l' := hp.mem_iff.mp ((mem_sortOn key).mp ha)
  exact List.inj_on_of_nodup_map hn ha' hb (le_antisymm hab hba)

/-- Sorting by distinct keys ascends strictly. -/
theorem pairwise_lt_sortOn (key : α → κ) {l : List α} (hn : (l.map key).Nodup) :
    (sortOn key l).Pairwise fun a b => key a < key b := by
  have hne : ((sortOn key l).map key).Nodup := ((perm_sortOn key l).map key).nodup_iff.mpr hn
  exact (List.pairwise_and_iff.mpr ⟨pairwise_sortOn key l, List.pairwise_map.mp hne⟩).imp
    fun h => lt_of_le_of_ne h.1 h.2

/-- Two keys that order the rows alike sort them alike. -/
theorem sortOn_congr {κ' : Type*} [LinearOrder κ'] {key : α → κ} {key' : α → κ'} {l : List α}
    (h : ∀ a ∈ l, ∀ b ∈ l, key a ≤ key b ↔ key' a ≤ key' b) : sortOn key l = sortOn key' l := by
  have := List.map_insertionSort (fun a b => key a ≤ key b) (fun a b => key' a ≤ key' b) id l h
  rwa [List.map_id, List.map_id] at this

end Order

end TtLedger
