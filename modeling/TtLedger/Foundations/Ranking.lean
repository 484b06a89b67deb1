import TtLedger.Foundations.StableSort
import Mathlib.Data.Prod.Lex

/-!
# Ranks and pages

The rank of a key in a list is the number of elements with a smaller key. In a list whose keys
ascend strictly an element stands at its rank (`getElem?_eq_some_iff_rank`), so two arrangements
of the same elements show the same page exactly when the elements of the page have the same rank
in both (`page_eq_iff`). The pages of a list, read one after the other, are the list again
(`flatMap_page`). Where a sorted list is cut into classes, the classes in first-seen order ascend
by their first elements (`pairwise_eraseDups_map`).
-/

namespace TtLedger

variable {α κ κ' : Type*}

/-! ## Ranks -/

section Rank

variable [LinearOrder κ] [LinearOrder κ'] {key : α → κ} {key' : α → κ'} {l l' : List α}

/-- The number of elements whose key comes before `k`. -/
def rank (key : α → κ) (l : List α) (k : κ) : ℕ := l.countP fun a => key a < k

theorem rank_perm (h : l.Perm l') (k : κ) : rank key l k = rank key l' k := h.countP_eq _

/-- **Ranks**: where keys ascend strictly, an element stands at its rank. -/
theorem getElem?_eq_some_iff_rank (hl : l.Pairwise fun a b => key a < key b) {i : ℕ} {a : α} :
    l[i]? = some a ↔ a ∈ l ∧ rank key l (key a) = i := by
  induction l generalizing i with
  | nil => simp
  | cons b l ih =>
    obtain ⟨hb, hl⟩ := List.pairwise_cons.mp hl
    have hhead : rank key (b :: l) (key b) = 0 := by
      simp only [rank, List.countP_eq_zero, decide_eq_true_eq, not_lt]
      intro c hc
      rcases List.mem_cons.mp hc with rfl | hc
      · exact le_rfl
      · exact (hb c hc).le
    have htail : ∀ c ∈ l, rank key (b :: l) (key c) = rank key l (key c) + 1 := by
      intro c hc
      simp [rank, hb c hc]
    cases i with
    | zero =>
      rw [List.getElem?_cons_zero, Option.some.injEq]
      constructor
      · rintro rfl
        exact ⟨List.mem_cons_self, hhead⟩
      · rintro ⟨ha, h0⟩
        rcases List.mem_cons.mp ha with rfl | ha
        · rfl
        · rw [htail a ha] at h0
          omega
    | succ i =>
      rw [List.getElem?_cons_succ, ih hl]
      constructor
      · rintro ⟨ha, hr⟩
        exact ⟨List.mem_cons_of_mem _ ha, by rw [htail a ha, hr]⟩
      · rintro ⟨ha, hr⟩
        rcases List.mem_cons.mp ha with rfl | ha
        · omega
        · rw [htail a ha] at hr
          exact ⟨ha, by omega⟩

/-- The rank by a pair of keys: what the first key puts before, and what ties with it in the first
key and comes before in the second. -/
theorem rank_toLex (a : α) :
    rank (fun b => toLex (key b, key' b)) l (toLex (key a, key' a)) =
      l.countP (fun b => key b < key a) + l.countP (fun b => key b = key a ∧ key' b < key' a) := by
  unfold rank
  induction l with
  | nil => rfl
  | cons b l ih =>
    have hor : toLex (key b, key' b) < toLex (key a, key' a) ↔
        key b < key a ∨ key b = key a ∧ key' b < key' a := Prod.Lex.toLex_lt_toLex
    simp only [List.countP_cons, ih, hor, decide_eq_true_eq]
    by_cases hlt : key b < key a
    · simp only [hlt, hlt.ne, true_or, false_and, if_true, if_false]
      omega
    · simp only [hlt, false_or, if_false]
      omega

end Rank

/-! ## Classes of a sorted list -/

/-- **Classes**: in a list whose keys ascend strictly, the distinct classes in first-seen order
ascend by the key of their first element. -/
theorem pairwise_eraseDups_map {γ : Type*} [DecidableEq γ] [LinearOrder κ] {key : α → κ}
    {f : α → γ} {first : γ → κ} :
    ∀ {l : List α}, l.Pairwise (fun a b => key a < key b) →
      (∀ a ∈ l, first (f a) ≤ key a ∧ ∃ b ∈ l, f b = f a ∧ key b = first (f a)) →
      (l.map f).eraseDups.Pairwise fun c d => first c < first d
  | [], _, _ => by simp
  | a :: l, hl, hf => by
    obtain ⟨ha, hl'⟩ := List.pairwise_cons.mp hl
    have hrest : (l.map f).filter (fun c => !c == f a) = (l.filter fun b => f b ≠ f a).map f := by
      rw [List.filter_map]
      refine congrArg (List.map f) (List.filter_congr fun b _ => ?_)
      by_cases h : f b = f a <;> simp [h]
    -- the head is the first of its class
    have hhead : first (f a) = key a := by
      obtain ⟨hle, b, hb, -, hkey⟩ := hf a List.mem_cons_self
      refine le_antisymm hle ?_
      rcases List.mem_cons.mp hb with rfl | hb
      · exact hkey.le
      · exact (ha b hb).le.trans hkey.le
    -- another class keeps its first element when the class of the head is taken out
    have hfirst : ∀ c ∈ l.filter fun b => f b ≠ f a, first (f c) ≤ key c ∧
        ∃ b ∈ l.filter (fun b => f b ≠ f a), f b = f c ∧ key b = first (f c) := by
      intro c hc
      obtain ⟨hc, hne⟩ := List.mem_filter.mp hc
      obtain ⟨hle, b, hb, hfb, hkey⟩ := hf c (List.mem_cons_of_mem _ hc)
      have hne : f c ≠ f a := of_decide_eq_true hne
      refine ⟨hle, b, List.mem_filter.mpr ⟨?_, decide_eq_true (hfb ▸ hne)⟩, hfb, hkey⟩
      rcases List.mem_cons.mp hb with rfl | hb
      · exact absurd hfb.symm hne
      · exact hb
    have ih := pairwise_eraseDups_map (hl'.sublist List.filter_sublist) hfirst
    rw [List.map_cons, List.eraseDups_cons, hrest, List.pairwise_cons]
    refine ⟨fun d hd => ?_, ih⟩
    obtain ⟨c, hc, rfl⟩ := List.mem_map.mp (List.mem_eraseDups.mp hd)
    obtain ⟨-, b, hb, -, hkey⟩ := hfirst c hc
    rw [hhead, ← hkey]
    exact ha b (List.mem_of_mem_filter hb)
termination_by l => l.length
decreasing_by
  have := List.length_filter_le (fun b => decide (f b ≠ f a)) l
  simp only [List.length_cons]
  omega

/-- Lists of classes that concatenate to the same elements are the same. -/
theorem flatMap_inj_of_label {γ : Type*} {f : α → γ} {blocks : γ → List α} :
    ∀ {cs cs' : List γ}, (∀ c ∈ cs ++ cs', blocks c ≠ [] ∧ ∀ a ∈ blocks c, f a = c) →
      cs.flatMap blocks = cs'.flatMap blocks → cs = cs'
  | [], [], _, _ => rfl
  | [], c :: cs', h, heq => by
    have := (List.flatMap_eq_nil_iff.mp heq.symm) c List.mem_cons_self
    exact absurd this (h c (by simp)).1
  | c :: cs, [], h, heq => by
    have := (List.flatMap_eq_nil_iff.mp heq) c List.mem_cons_self
    exact absurd this (h c (by simp)).1
  | c :: cs, c' :: cs', h, heq => by
    obtain ⟨hc, hlabel⟩ := h c (by simp)
    obtain ⟨hc', hlabel'⟩ := h c' (by simp)
    -- the first elements carry the labels of the first classes
    obtain ⟨a, l, hal⟩ := List.exists_cons_of_ne_nil hc
    obtain ⟨a', l', hal'⟩ := List.exists_cons_of_ne_nil hc'
    have haa : a = a' := by
      rw [List.flatMap_cons, List.flatMap_cons, hal, hal'] at heq
      exact (List.cons.inj heq).1
    obtain rfl : c = c' := by
      rw [← hlabel a (hal ▸ List.mem_cons_self), ← hlabel' a' (hal' ▸ List.mem_cons_self), haa]
    rw [List.flatMap_cons, List.flatMap_cons] at heq
    have ih := flatMap_inj_of_label (fun d hd => h d (by simp at hd ⊢; tauto))
      (List.append_cancel_left heq)
    rw [ih]

/-- Where distinct classes are concatenated each class stands together. -/
theorem label_eq_of_sublist_flatMap {γ : Type*} {f : α → γ} {blocks : γ → List α} {x y z : α} :
    ∀ {cs : List γ}, cs.Nodup → (∀ c ∈ cs, ∀ a ∈ blocks c, f a = c) →
      [x, y, z].Sublist (cs.flatMap blocks) → f x = f z → f y = f x
  | [], _, _, h, _ => by simp at h
  | c :: cs, hcs, hlabel, h, hxz => by
    obtain ⟨hc, hcs⟩ := List.nodup_cons.mp hcs
    have hlabel' : ∀ d ∈ cs, ∀ a ∈ blocks d, f a = d :=
      fun d hd => hlabel d (List.mem_cons_of_mem _ hd)
    have hblock : ∀ a ∈ blocks c, f a = c := hlabel c List.mem_cons_self
    rw [List.flatMap_cons] at h
    obtain ⟨l, l', hl, hsub, hsub'⟩ := List.sublist_append_iff.mp h
    cases l with
    | nil => exact label_eq_of_sublist_flatMap hcs hlabel' (hl ▸ hsub') hxz
    | cons x' l =>
      obtain ⟨rfl, hl⟩ := List.cons.inj hl
      have hx : f x = c := hblock x (hsub.subset List.mem_cons_self)
      -- a last row in the other classes would have another label than the first
      have hz : z ∉ l' := by
        intro hz
        obtain ⟨d, hd, hzd⟩ := List.mem_flatMap.mp (hsub'.subset hz)
        exact hc (by rw [← hx, hxz, hlabel' d hd z hzd]; exact hd)
      have hl' : l' = [] := by
        rcases List.eq_nil_or_concat l' with h | ⟨l'', w, h⟩
        · exact h
        · have hlast := congrArg List.getLast? hl
          rw [h, List.concat_eq_append, ← List.append_assoc, List.getLast?_concat] at hlast
          have hzw : z = w := Option.some.inj hlast
          exact absurd (by rw [h, hzw]; simp) hz
      have hy : y ∈ x :: l := by
        rw [hl', List.append_nil] at hl
        exact hl ▸ by simp
      rw [hx, hblock y (hsub.subset hy)]

/-! ## Pages -/

/-- `limit` elements of a list from position `offset`. -/
def page (l : List α) (offset limit : ℕ) : List α := (l.drop offset).take limit

theorem getElem?_page (l : List α) (offset limit i : ℕ) :
    (page l offset limit)[i]? = if i < limit then l[offset + i]? else none := by
  rw [page, List.getElem?_take, List.getElem?_drop]

theorem sublist_page (l : List α) (offset limit : ℕ) : (page l offset limit).Sublist l :=
  (List.take_sublist _ _).trans (List.drop_sublist _ _)

theorem page_eq_nil_iff {l : List α} {offset limit : ℕ} (hlimit : 0 < limit) :
    page l offset limit = [] ↔ l.length ≤ offset := by
  rw [page, List.take_eq_nil_iff, List.drop_eq_nil_iff]
  constructor
  · rintro (h | h)
    · omega
    · exact h
  · exact Or.inr

/-- The first `n` pages are the first `n * limit` elements. -/
theorem flatMap_page (l : List α) (limit n : ℕ) :
    ((List.range n).flatMap fun k => page l (k * limit) limit) = l.take (n * limit) := by
  induction n with
  | zero => simp
  | succ n ih =>
    rw [List.range_succ, List.flatMap_append, ih, List.flatMap_singleton, page, Nat.succ_mul,
      List.take_add]

/-- An element of a list without repetitions is on one page only. -/
theorem page_disjoint {l : List α} (hl : l.Nodup) {limit k k' : ℕ} (hk : k ≠ k') :
    List.Disjoint (page l (k * limit) limit) (page l (k' * limit) limit) := by
  intro a ha ha'
  obtain ⟨i, hi⟩ := List.mem_iff_getElem?.mp ha
  obtain ⟨j, hj⟩ := List.mem_iff_getElem?.mp ha'
  rw [getElem?_page] at hi hj
  split at hi
  · split at hj
    · rename_i hil hjl
      -- both places hold `a`, so they are the same place, and of one page
      have hlt : k * limit + i < l.length := (List.getElem?_eq_some_iff.mp hi).1
      have hij : k * limit + i = k' * limit + j :=
        (List.getElem?_inj hlt hl).mp (hi.trans hj.symm)
      rcases Nat.lt_or_gt_of_ne hk with h | h
      · have := Nat.mul_le_mul_right limit h
        rw [Nat.succ_mul] at this
        omega
      · have := Nat.mul_le_mul_right limit h
        rw [Nat.succ_mul] at this
        omega
    · cases hj
  · cases hi

section PageRank

variable [LinearOrder κ] [LinearOrder κ'] {key : α → κ} {key' : α → κ'} {l l' : List α}

/-- **Pages of two arrangements**: they agree exactly when every element of the first page has
the same rank in both. -/
theorem page_eq_iff (hl : l.Pairwise fun a b => key a < key b)
    (hl' : l'.Pairwise fun a b => key' a < key' b) (hp : l.Perm l') (offset limit : ℕ) :
    page l offset limit = page l' offset limit ↔
      ∀ a ∈ l, offset ≤ rank key l (key a) → rank key l (key a) < offset + limit →
        rank key' l' (key' a) = rank key l (key a) := by
  constructor
  · intro h a ha hlo hhi
    have hat := (getElem?_eq_some_iff_rank hl).mpr ⟨ha, rfl⟩
    have hpos := congrArg (fun p : List α => p[rank key l (key a) - offset]?) h
    simp only [getElem?_page] at hpos
    rw [if_pos (by omega), if_pos (by omega), Nat.add_sub_cancel' hlo, hat] at hpos
    exact ((getElem?_eq_some_iff_rank hl').mp hpos.symm).2
  · intro h
    refine List.ext_getElem? fun i => ?_
    rw [getElem?_page, getElem?_page]
    split
    · rename_i hi
      cases hat : l[offset + i]? with
      | none =>
        have hlen := List.getElem?_eq_none_iff.mp hat
        rw [eq_comm, List.getElem?_eq_none_iff]
        rw [← hp.length_eq]
        exact hlen
      | some a =>
        obtain ⟨ha, hr⟩ := (getElem?_eq_some_iff_rank hl).mp hat
        have hr' := h a ha (by omega) (by omega)
        exact ((getElem?_eq_some_iff_rank hl').mpr ⟨hp.subset ha, hr'.trans hr⟩).symm
    · rfl

end PageRank

end TtLedger
