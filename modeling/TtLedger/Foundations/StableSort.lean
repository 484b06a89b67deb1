import Mathlib.Data.List.Sort
import Mathlib.Data.List.Induction
import Mathlib.Order.Basic

/-!
# Stable sorting by a key

`sortOn key l` sorts `l` by `key`, keeping the order of rows with equal keys. A sorted list is
determined by its classes of equal keys (`eq_of_filter_key`), so `sortOn` commutes with filters
(`filter_sortOn`), ignores the order of what was already sorted (`sortOn_append_sortOn`) and sends
permutations with the same order inside each class to the same list (`sortOn_eq_iff`). A fold
whose steps commute within each class, wherever it meets them, does not see the order inside a
class at all (`foldl_eq_of_sorted_perm_of_swap`, `foldl_sortOn_of_perm`).
-/

namespace TtLedger

variable {α β κ : Type*} [LinearOrder κ] (key : α → κ)

/-- Sort by a key, keeping the order of rows with equal keys. -/
def sortOn (l : List α) : List α := l.insertionSort fun a b => key a ≤ key b

@[simp] theorem sortOn_nil : sortOn key [] = [] := rfl

theorem perm_sortOn (l : List α) : (sortOn key l).Perm l := List.perm_insertionSort _ l

@[simp] theorem mem_sortOn {l : List α} {a : α} : a ∈ sortOn key l ↔ a ∈ l :=
  (perm_sortOn key l).mem_iff

instance keyTotal : Std.Total fun a b : α => key a ≤ key b := ⟨fun a b => le_total (key a) (key b)⟩

instance keyTrans : IsTrans α fun a b : α => key a ≤ key b := ⟨fun _ _ _ => le_trans⟩

theorem pairwise_sortOn (l : List α) : (sortOn key l).Pairwise fun a b => key a ≤ key b :=
  List.pairwise_insertionSort _ l

theorem sortOn_of_pairwise {l : List α} (h : l.Pairwise fun a b => key a ≤ key b) :
    sortOn key l = l := h.insertionSort_eq

theorem sortOn_sortOn (l : List α) : sortOn key (sortOn key l) = sortOn key l :=
  sortOn_of_pairwise key (pairwise_sortOn key l)

theorem sortOn_map (key : β → κ) (f : α → β) (l : List α) :
    sortOn key (l.map f) = (sortOn (fun a => key (f a)) l).map f :=
  (List.map_insertionSort (fun a b => key (f a) ≤ key (f b)) (fun a b => key a ≤ key b) f l
    (fun _ _ _ _ => Iff.rfl)).symm

/-! ## Filters and classes -/

theorem filter_orderedInsert (p : α → Bool) (a : α) :
    ∀ l : List α, l.Pairwise (fun a b => key a ≤ key b) →
      (l.orderedInsert (fun a b => key a ≤ key b) a).filter p =
        if p a then (l.filter p).orderedInsert (fun a b => key a ≤ key b) a else l.filter p
  | [], _ => by cases hp : p a <;> simp [hp]
  | b :: l, hl => by
    obtain ⟨hb, hl'⟩ := List.pairwise_cons.mp hl
    have ih := filter_orderedInsert p a l hl'
    by_cases hab : key a ≤ key b
    · -- the head of the filtered list is still above `a`
      have hhead : (l.filter p).orderedInsert (fun a b => key a ≤ key b) a = a :: l.filter p := by
        cases hf : l.filter p with
        | nil => rfl
        | cons c t =>
          have hc : c ∈ l := List.mem_of_mem_filter (hf ▸ List.mem_cons_self)
          exact List.orderedInsert_cons_of_le _ t (hab.trans (hb c hc))
      cases hpa : p a <;> cases hpb : p b <;>
        simp [List.orderedInsert, hab, hpa, hpb, hhead]
    · cases hpa : p a <;> cases hpb : p b <;>
        simp [List.orderedInsert, hab, hpa, hpb, ih]

theorem filter_sortOn (p : α → Bool) (l : List α) :
    (sortOn key l).filter p = sortOn key (l.filter p) := by
  induction l with
  | nil => rfl
  | cons a l ih =>
    have := filter_orderedInsert key p a (sortOn key l) (pairwise_sortOn key l)
    rw [show sortOn key (a :: l) = (sortOn key l).orderedInsert _ a from rfl, this, ih]
    cases hp : p a <;> simp [hp, sortOn]

/-- **Stability**: sorting keeps the order inside each class of equal keys. -/
theorem filter_key_sortOn (c : κ) (l : List α) :
    (sortOn key l).filter (fun a => key a = c) = l.filter fun a => key a = c := by
  rw [filter_sortOn]
  refine sortOn_of_pairwise key (List.pairwise_of_forall_mem_list ?_)
  intro a ha b hb
  simp only [List.mem_filter, decide_eq_true_eq] at ha hb
  exact (ha.2.trans hb.2.symm).le

/-- A sorted list is determined by its classes of equal keys. -/
theorem eq_of_filter_key :
    ∀ {l l' : List α}, l.Pairwise (fun a b => key a ≤ key b) →
      l'.Pairwise (fun a b => key a ≤ key b) →
      (∀ c, l.filter (fun a => key a = c) = l'.filter fun a => key a = c) → l = l'
  | [], [], _, _, _ => rfl
  | [], b :: l', _, _, h => by simpa using h (key b)
  | a :: l, [], _, _, h => by simpa using h (key a)
  | a :: l, b :: l', hl, hl', h => by
    obtain ⟨ha, hlt⟩ := List.pairwise_cons.mp hl
    obtain ⟨hb, hlt'⟩ := List.pairwise_cons.mp hl'
    have ha' : a ∈ b :: l' := by
      have : a ∈ (b :: l').filter fun x => key x = key a := h (key a) ▸ by simp
      exact List.mem_of_mem_filter this
    have hb' : b ∈ a :: l := by
      have : b ∈ (a :: l).filter fun x => key x = key b := (h (key b)).symm ▸ by simp
      exact List.mem_of_mem_filter this
    have hab : key a = key b := by
      refine le_antisymm ?_ ?_
      · rcases List.mem_cons.mp hb' with rfl | hb'
        · exact le_rfl
        · exact ha b hb'
      · rcases List.mem_cons.mp ha' with rfl | ha'
        · exact le_rfl
        · exact hb a ha'
    obtain rfl : a = b := by
      have := h (key a)
      simp only [List.filter_cons, decide_true, hab] at this
      exact (List.cons.inj this).1
    have ht : ∀ c, l.filter (fun x => key x = c) = l'.filter fun x => key x = c := by
      intro c
      have hc := h c
      by_cases hac : key a = c
      · simp only [List.filter_cons, hac, decide_true, if_true] at hc
        exact (List.cons.inj hc).2
      · simpa [List.filter_cons, hac] using hc
    rw [eq_of_filter_key hlt hlt' ht]

theorem sortOn_eq_iff {l l' : List α} :
    sortOn key l = sortOn key l' ↔
      ∀ c, l.filter (fun a => key a = c) = l'.filter fun a => key a = c := by
  constructor
  · intro h c
    rw [← filter_key_sortOn key c l, h, filter_key_sortOn]
  · intro h
    refine eq_of_filter_key key (pairwise_sortOn key l) (pairwise_sortOn key l') fun c => ?_
    rw [filter_key_sortOn, filter_key_sortOn, h c]

/-- Sorting a prefix first changes nothing. -/
theorem sortOn_append_sortOn (l l' : List α) :
    sortOn key (sortOn key l ++ l') = sortOn key (l ++ l') := by
  refine (sortOn_eq_iff key).mpr fun c => ?_
  rw [List.filter_append, List.filter_append, filter_key_sortOn]

/-- The elements whose key does not come after `k`. -/
def upTo (key : α → κ) (l : List α) (k : κ) : List α := l.filter fun a => key a ≤ k

/-- The elements whose key comes after `k`. -/
def beyond (key : α → κ) (l : List α) (k : κ) : List α := l.filter fun a => k < key a

theorem filter_upTo (p : α → Bool) (l : List α) (k : κ) :
    (upTo key l k).filter p = upTo key (l.filter p) k := by
  rw [upTo, upTo, List.filter_filter, List.filter_filter]
  simp only [Bool.and_comm]

theorem filter_beyond (p : α → Bool) (l : List α) (k : κ) :
    (beyond key l k).filter p = beyond key (l.filter p) k := by
  rw [beyond, beyond, List.filter_filter, List.filter_filter]
  simp only [Bool.and_comm]

/-- The elements up to a key come first. -/
theorem sortOn_split (l : List α) (k : κ) :
    sortOn key l = sortOn key (upTo key l k) ++ sortOn key (beyond key l k) := by
  have hsorted : (sortOn key (upTo key l k) ++ sortOn key (beyond key l k)).Pairwise
      fun b c => key b ≤ key c := by
    refine List.pairwise_append.mpr ⟨pairwise_sortOn key _, pairwise_sortOn key _, ?_⟩
    intro b hb c hc
    have hbk : key b ≤ k := of_decide_eq_true (List.mem_filter.mp ((mem_sortOn key).mp hb)).2
    have hkc : k < key c := of_decide_eq_true (List.mem_filter.mp ((mem_sortOn key).mp hc)).2
    exact hbk.trans hkc.le
  refine eq_of_filter_key key (pairwise_sortOn key l) hsorted fun c => ?_
  simp only [filter_key_sortOn, List.filter_append, upTo, beyond, List.filter_filter]
  rcases le_or_gt c k with hc | hc
  · have hlow : ∀ b, (decide (key b = c) && decide (key b ≤ k)) = decide (key b = c) := by grind
    have hhigh : ∀ b, (decide (key b = c) && decide (k < key b)) = false := by grind
    simp [hlow, hhigh]
  · have hlow : ∀ b, (decide (key b = c) && decide (key b ≤ k)) = false := by grind
    have hhigh : ∀ b, (decide (key b = c) && decide (k < key b)) = decide (key b = c) := by grind
    simp [hlow, hhigh]

/-- An element added last falls after those that do not come later. -/
theorem sortOn_concat (l : List α) (a : α) :
    sortOn key (l ++ [a]) =
      sortOn key (upTo key l (key a)) ++ a :: sortOn key (beyond key l (key a)) := by
  have hlow : sortOn key (upTo key l (key a) ++ [a]) = sortOn key (upTo key l (key a)) ++ [a] := by
    rw [← sortOn_append_sortOn]
    refine sortOn_of_pairwise key (List.pairwise_append.mpr
      ⟨pairwise_sortOn key _, List.pairwise_singleton _ _, fun b hb c hc => ?_⟩)
    rw [List.mem_singleton.mp hc]
    exact of_decide_eq_true (List.mem_filter.mp ((mem_sortOn key).mp hb)).2
  have hupTo : upTo key (l ++ [a]) (key a) = upTo key l (key a) ++ [a] := by
    simp [upTo, List.filter_append]
  have hbeyond : beyond key (l ++ [a]) (key a) = beyond key l (key a) := by
    simp [beyond, List.filter_append]
  rw [sortOn_split key (l ++ [a]) (key a), hupTo, hbeyond, hlow, List.append_assoc,
    List.singleton_append]

/-! ## Folds that commute within a class -/

/-- Two sorted arrangements of the same rows fold to the same value when two rows with equal keys
can be taken in either order wherever a sorted arrangement of the rows meets them in turn. -/
theorem foldl_eq_of_sorted_perm_of_swap (f : β → α → β) :
    ∀ {l l' : List α} (x : β), l.Perm l' → l.Pairwise (fun a b => key a ≤ key b) →
      l'.Pairwise (fun a b => key a ≤ key b) →
      (∀ pre a b post, (pre ++ a :: b :: post).Perm l →
        (pre ++ a :: b :: post).Pairwise (fun a b => key a ≤ key b) → key a = key b →
        f (f (pre.foldl f x) a) b = f (f (pre.foldl f x) b) a) →
      l.foldl f x = l'.foldl f x
  | [], l', x, hp, _, _, _ => by rw [List.nil_perm.mp hp]
  | a :: l, l', x, hp, hl, hl', hswap => by
    obtain ⟨ha, hl⟩ := List.pairwise_cons.mp hl
    have ha' : a ∈ l' := hp.subset (by simp)
    obtain ⟨pre, post, rfl⟩ := List.append_of_mem ha'
    -- `a` is least, and it follows `pre` in a sorted list: `pre` is in the class of `a`
    have hpre : ∀ b ∈ pre, key b = key a := by
      intro b hb
      have hb' : b ∈ a :: l := hp.symm.subset (by simp [hb])
      refine le_antisymm ?_ ?_
      · exact (List.pairwise_append.mp hl').2.2 b hb a (by simp)
      · rcases List.mem_cons.mp hb' with rfl | hb'
        · exact le_rfl
        · exact ha b hb'
    have hp' : l.Perm (pre ++ post) := (hp.trans List.perm_middle).cons_inv
    have hl'' : (pre ++ post).Pairwise fun a b => key a ≤ key b :=
      hl'.sublist ((List.sublist_cons_self a post).append_left pre)
    -- `a` moves to the front of its class, one swap at a time
    have hfront : ∀ q q', q ++ q' = pre → f (q.foldl f x) a = q.foldl f (f x a) := by
      intro q
      induction q using List.reverseRecOn with
      | nil => exact fun _ _ => rfl
      | append_singleton q b ih =>
        intro q' hq
        have harrange : q ++ b :: (q' ++ a :: post) = pre ++ a :: post := by simp [← hq]
        have hperm : (q ++ b :: a :: (q' ++ post)).Perm (a :: l) := by
          refine List.Perm.trans ?_ hp.symm
          rw [← harrange]
          exact (List.perm_middle.symm.cons b).append_left q
        have hclass : ∀ c ∈ q ++ b :: a :: q', key c = key a := by
          intro c hc
          by_cases hca : c = a
          · rw [hca]
          · refine hpre c ?_
            rw [← hq]
            simp only [List.mem_append, List.mem_cons, hca, false_or] at hc
            simpa [or_assoc] using hc
        have hsorted : (q ++ b :: a :: (q' ++ post)).Pairwise fun a b => key a ≤ key b := by
          rw [show q ++ b :: a :: (q' ++ post) = q ++ b :: a :: q' ++ post by simp]
          obtain ⟨hpost, hsorted⟩ := List.pairwise_cons.mp (List.pairwise_append.mp hl').2.1
          refine List.pairwise_append.mpr
            ⟨List.pairwise_of_forall_mem_list fun c hc d hd => ?_, hsorted, fun c hc d hd => ?_⟩
          · rw [hclass c hc, hclass d hd]
          · rw [hclass c hc]
            exact hpost d hd
        rw [List.foldl_append, List.foldl_append]
        change f (f (q.foldl f x) b) a = f (q.foldl f (f x a)) b
        rw [hswap q b a _ hperm hsorted (hpre b (hq ▸ by simp)), ih (b :: q') (by simp [← hq])]
    have ih := foldl_eq_of_sorted_perm_of_swap f (f x a) hp' hl hl''
      fun q b c q' hperm hsorted hbc =>
        hswap (a :: q) b c q' (hperm.cons a)
          (List.pairwise_cons.mpr ⟨fun d hd => ha d (hperm.subset hd), hsorted⟩) hbc
    rw [List.foldl_cons, ih, List.foldl_append, ← hfront pre [] (List.append_nil pre),
      List.foldl_append, List.foldl_cons]

/-- Two sorted arrangements of the same rows fold to the same value when the steps of rows with
equal keys commute. -/
theorem foldl_eq_of_sorted_perm (f : β → α → β) {l l' : List α} (hp : l.Perm l')
    (hl : l.Pairwise fun a b => key a ≤ key b) (hl' : l'.Pairwise fun a b => key a ≤ key b)
    (hc : ∀ a ∈ l, ∀ b ∈ l, key a = key b → ∀ x, f (f x a) b = f (f x b) a) (x : β) :
    l.foldl f x = l'.foldl f x :=
  foldl_eq_of_sorted_perm_of_swap key f x hp hl hl' fun _ a b _ hperm _ hab =>
    hc a (hperm.subset (by simp)) b (hperm.subset (by simp)) hab _

/-- A fold over the sorted rows does not depend on the order of the rows, when the steps of rows
with equal keys commute. -/
theorem foldl_sortOn_of_perm (f : β → α → β) {l l' : List α} (hp : l.Perm l')
    (hc : ∀ a ∈ l, ∀ b ∈ l, key a = key b → ∀ x, f (f x a) b = f (f x b) a) (x : β) :
    (sortOn key l).foldl f x = (sortOn key l').foldl f x :=
  foldl_eq_of_sorted_perm key f
    ((perm_sortOn key l).trans (hp.trans (perm_sortOn key l').symm))
    (pairwise_sortOn key l) (pairwise_sortOn key l')
    (fun a ha b hb => hc a ((mem_sortOn key).mp ha) b ((mem_sortOn key).mp hb)) x

end TtLedger
