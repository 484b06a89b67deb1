import Mathlib.Data.List.Induction

/-!
# Redelivery and the last writer

`Redelivers stream delivered`: the elements of `stream` are delivered in order, and any that was
delivered before may be delivered again in between. A value that each element overwrites where it
sets it (`overwriteBy f`) ends as what the last element to set it set (`foldl_overwriteBy`). So a
redelivery ends with the value of the stream exactly when it ends with the same last setting
(`Redelivers.overwrite_eq_iff`).
-/

namespace TtLedger

variable {α β : Type}

/-- Every element is delivered once in the order of the stream, and some again later. -/
inductive Redelivers : List α → List α → Prop
  | nil : Redelivers [] []
  | next {stream delivered : List α} (h : Redelivers stream delivered) (a : α) :
      Redelivers (stream ++ [a]) (delivered ++ [a])
  | again {stream delivered : List α} (h : Redelivers stream delivered) {a : α}
      (ha : a ∈ delivered) : Redelivers stream (delivered ++ [a])

theorem Redelivers.mem_iff {stream delivered : List α} (h : Redelivers stream delivered) (a : α) :
    a ∈ delivered ↔ a ∈ stream := by
  induction h with
  | nil => rfl
  | next _ b ih => simp [ih]
  | again h hb ih =>
    simp only [List.mem_append, List.mem_singleton, ih]
    exact or_iff_left_of_imp fun h => h ▸ ih.mp (h ▸ hb)

/-- Overwrite a value where `a` sets it. -/
def overwriteBy (f : α → Option β) (x : Option β) (a : α) : Option β := (f a).or x

/-- What the last element to set a value set. -/
def lastSet (f : α → Option β) (l : List α) : Option β := (l.filterMap f).getLast?

theorem lastSet_concat (f : α → Option β) (l : List α) (a : α) :
    lastSet f (l ++ [a]) = (f a).or (lastSet f l) := by
  cases h : f a <;> simp [lastSet, h]

theorem foldl_overwriteBy (f : α → Option β) (l : List α) (x : Option β) :
    l.foldl (overwriteBy f) x = (lastSet f l).or x := by
  induction l using List.reverseRecOn with
  | nil => rfl
  | append_singleton l a ih =>
    rw [List.foldl_append, ih, lastSet_concat, Option.or_assoc]
    rfl

theorem exists_of_lastSet {f : α → Option β} {l : List α} {b : β} (h : lastSet f l = some b) :
    ∃ a ∈ l, f a = some b := List.mem_filterMap.mp (List.mem_of_getLast? h)

theorem isSome_lastSet {f : α → Option β} {l : List α} :
    (lastSet f l).isSome ↔ ∃ a ∈ l, (f a).isSome := by
  rw [lastSet, List.getLast?_isSome, ne_eq, List.filterMap_eq_nil_iff]
  simp [Option.isSome_iff_ne_none]

namespace Redelivers

variable {stream delivered : List α}

/-- A redelivery sets what the stream sets. -/
theorem isSome_lastSet (h : Redelivers stream delivered) (f : α → Option β) :
    (lastSet f delivered).isSome = (lastSet f stream).isSome := by
  rw [Bool.eq_iff_iff, TtLedger.isSome_lastSet, TtLedger.isSome_lastSet]
  simp only [h.mem_iff]

/-- **A redelivery ends with the value of the stream exactly when the last settings agree.** -/
theorem overwrite_eq_iff (h : Redelivers stream delivered) (f : α → Option β) (x : Option β) :
    delivered.foldl (overwriteBy f) x = stream.foldl (overwriteBy f) x ↔
      lastSet f delivered = lastSet f stream := by
  rw [foldl_overwriteBy, foldl_overwriteBy]
  have hsome := h.isSome_lastSet f
  cases hd : lastSet f delivered <;> cases hs : lastSet f stream <;> simp_all

end Redelivers

end TtLedger
