import Mathlib.Data.List.SplitBy
import Mathlib.Data.Multiset.Filter
import Mathlib.Algebra.Order.Group.Abs
import Mathlib.Logic.Relation

/-!
# Clusters by gaps

A list in time order falls into blocks wherever two rows in succession are more than a gap apart
(`gapBlocks`). The blocks are the classes of the chain closure of "within the gap": two rows share
a block exactly when a chain of rows of the list joins them (`exists_mem_gapBlocks_iff`). So the
blocks, as multisets, are those of every other list of the same rows in time order
(`map_ofList_gapBlocks_of_perm`).
-/

namespace TtLedger

variable {α τ : Type*} [AddCommGroup τ] [LinearOrder τ] (time : α → τ) (gap : τ)

/-- Cut a list wherever a row comes more than `gap` after the one before. -/
def gapBlocks (l : List α) : List (List α) := l.splitBy fun a b => time b - time a ≤ gap

/-- Rows of a list within the gap of one another. -/
def Near (l : List α) (a b : α) : Prop := a ∈ l ∧ b ∈ l ∧ |time a - time b| ≤ gap

/-- Rows joined by a chain of rows of a list, each within the gap of the one before. -/
def Linked (l : List α) : α → α → Prop := Relation.ReflTransGen (Near time gap l)

/-- Every row of one list comes more than the gap before every row of another. -/
def Apart (c c' : List α) : Prop := ∀ a ∈ c, ∀ b ∈ c', gap < time b - time a

variable {time gap} {l l' c c' : List α} {a b : α}

instance nearSymm : Std.Symm (Near time gap l) :=
  ⟨fun a b h => ⟨h.2.1, h.1, abs_sub_comm (time a) (time b) ▸ h.2.2⟩⟩

/-- Links do not depend on the order of the list. -/
theorem linked_congr (h : ∀ a, a ∈ l ↔ a ∈ l') : Linked time gap l = Linked time gap l' := by
  have hnear : Near time gap l = Near time gap l' := by
    funext a b
    rw [Near, Near, h, h]
  rw [Linked, Linked, hnear]

theorem mem_of_mem_gapBlocks (hc : c ∈ gapBlocks time gap l) (ha : a ∈ c) : a ∈ l := by
  rw [← List.flatten_splitBy (fun a b => decide (time b - time a ≤ gap)) l]
  exact List.mem_flatten.mpr ⟨c, hc, ha⟩

variable (time gap) in
theorem exists_mem_gapBlocks (ha : a ∈ l) : ∃ c ∈ gapBlocks time gap l, a ∈ c := by
  rw [← List.flatten_splitBy (fun a b => decide (time b - time a ≤ gap)) l] at ha
  exact List.mem_flatten.mp ha

/-- A row within the gap of the last one joins its block. -/
theorem gapBlocks_concat_of_le {front : List (List α)}
    (h : gapBlocks time gap l = front ++ [c ++ [a]]) (hle : time b - time a ≤ gap) :
    gapBlocks time gap (l ++ [b]) = front ++ [c ++ [a] ++ [b]] := by
  obtain ⟨rfl, hne, hchain, hcut⟩ := List.splitBy_eq_iff.mp h
  refine List.splitBy_eq_iff.mpr ⟨by simp, by simpa using hne, fun d hd => ?_, ?_⟩
  · rcases List.mem_append.mp hd with hd | hd
    · exact hchain d (List.mem_append_left _ hd)
    · rw [List.mem_singleton.mp hd]
      have hlast := hchain (c ++ [a]) (by simp)
      refine List.isChain_append.mpr ⟨hlast, List.IsChain.singleton b, ?_⟩
      simpa using hle
  · rw [List.isChain_append] at hcut ⊢
    refine ⟨hcut.1, List.IsChain.singleton _, fun d hd d' hd' => ?_⟩
    obtain ⟨hd₁, hd₂, hr⟩ := hcut.2.2 d hd (c ++ [a]) (by simp)
    obtain rfl : c ++ [a] ++ [b] = d' := by simpa using hd'
    refine ⟨hd₁, by simp, ?_⟩
    rwa [List.head_append_of_ne_nil hd₂]

/-- A row more than the gap after the last one starts a block. -/
theorem gapBlocks_concat_of_lt (h : ∀ a ∈ l.getLast?, gap < time b - time a) :
    gapBlocks time gap (l ++ [b]) = gapBlocks time gap l ++ [[b]] := by
  refine List.splitBy_append fun a ha b' hb' => ?_
  obtain rfl : b = b' := by simpa using hb'
  simpa using h a ha

variable [IsOrderedAddMonoid τ]

/-! ## Blocks are apart and linked -/

/-- Lists cut where the gap is exceeded are apart, when their rows are in time order. -/
theorem pairwise_apart_of_isChain {blocks : List (List α)}
    (hsorted : blocks.flatten.Pairwise fun a b => time a ≤ time b) (hne : [] ∉ blocks)
    (hcut : blocks.IsChain fun c c' => ∃ hc hc', gap < time (c'.head hc') - time (c.getLast hc)) :
    blocks.Pairwise (Apart time gap) := by
  induction blocks with
  | nil => exact .nil
  | cons c blocks ih =>
    rw [List.flatten_cons, List.pairwise_append] at hsorted
    obtain ⟨hc, hrest, -⟩ := hsorted
    refine List.pairwise_cons.mpr ⟨fun c' hc' a ha b hb => ?_,
      ih hrest (fun h => hne (.tail _ h)) hcut.tail⟩
    cases blocks with
    | nil => cases hc'
    | cons d blocks =>
      obtain ⟨hcne, hdne, hgap⟩ := (List.isChain_cons_cons.mp hcut).1
      have hlast : time a ≤ time (c.getLast hcne) := by
        rw [← List.dropLast_append_getLast hcne, List.pairwise_append] at hc
        rw [← List.dropLast_append_getLast hcne] at ha
        rcases List.mem_append.mp ha with ha | ha
        · exact hc.2.2 a ha _ (by simp)
        · exact le_of_eq (congrArg time (List.mem_singleton.mp ha))
      have hhead : time (d.head hdne) ≤ time b := by
        have hmem : b ∈ (d :: blocks).flatten := List.mem_flatten.mpr ⟨c', hc', hb⟩
        obtain ⟨h, t, rfl⟩ := List.exists_cons_of_ne_nil hdne
        rw [List.flatten_cons, List.cons_append] at hmem hrest
        rcases List.mem_cons.mp hmem with rfl | hmem
        · exact le_refl _
        · exact (List.pairwise_cons.mp hrest).1 b hmem
      exact hgap.trans_le (sub_le_sub hhead hlast)

/-- **Blocks of rows in time order are apart.** -/
theorem pairwise_gapBlocks (hsorted : l.Pairwise fun a b => time a ≤ time b) :
    (gapBlocks time gap l).Pairwise (Apart time gap) := by
  refine pairwise_apart_of_isChain ?_ (List.nil_notMem_splitBy _ _) ?_
  · rwa [gapBlocks, List.flatten_splitBy]
  · refine (List.isChain_getLast_head_splitBy _ l).imp fun c c' h => ?_
    obtain ⟨hc, hc', hgap⟩ := h
    exact ⟨hc, hc', lt_of_not_ge (by simpa using hgap)⟩

/-- The rows of a block are linked. -/
theorem linked_of_mem_gapBlocks (hsorted : l.Pairwise fun a b => time a ≤ time b)
    (hc : c ∈ gapBlocks time gap l) (ha : a ∈ c) (hb : b ∈ c) : Linked time gap l a b := by
  have hchain : c.IsChain fun a b => time b - time a ≤ gap :=
    (List.isChain_of_mem_splitBy hc).imp fun a b h => of_decide_eq_true h
  have hle : c.Pairwise fun a b => time a ≤ time b :=
    hsorted.sublist (List.flatten_splitBy (fun a b => decide (time b - time a ≤ gap)) l ▸
      List.sublist_flatten_of_mem hc)
  have hnear : c.IsChain (Near time gap l) := by
    refine List.isChain_iff_getElem.mpr fun i hi => ?_
    refine ⟨mem_of_mem_gapBlocks hc (List.getElem_mem _),
      mem_of_mem_gapBlocks hc (List.getElem_mem _), ?_⟩
    have hnext := List.pairwise_iff_getElem.mp hle i (i + 1) (by omega) hi (by omega)
    rw [abs_sub_comm, abs_of_nonneg (sub_nonneg.mpr hnext)]
    exact List.isChain_iff_getElem.mp hchain i hi
  have hlinked : c.Pairwise (Linked time gap l) :=
    (hnear.imp fun _ _ => Relation.ReflTransGen.single).pairwise
  exact hlinked.forall_of_forall (fun _ _ => Relation.ReflTransGen.refl) ha hb

/-- A row within the gap of a row of a block is in it. -/
theorem mem_block_of_near (hsorted : l.Pairwise fun a b => time a ≤ time b)
    (hc : c ∈ gapBlocks time gap l) (ha : a ∈ c) (h : Near time gap l a b) : b ∈ c := by
  obtain ⟨c', hc', hb⟩ := exists_mem_gapBlocks time gap h.2.1
  by_cases heq : c = c'
  · exact heq ▸ hb
  · have hgap : |time a - time b| ≤ gap := h.2.2
    have hapart : Apart time gap c c' ∨ Apart time gap c' c := by
      have hor : (gapBlocks time gap l).Pairwise fun c c' =>
          Apart time gap c c' ∨ Apart time gap c' c := (pairwise_gapBlocks hsorted).imp Or.inl
      have : Std.Symm fun c c' : List α => Apart time gap c c' ∨ Apart time gap c' c :=
        ⟨fun _ _ => Or.symm⟩
      exact hor.forall hc hc' heq
    rcases hapart with h | h
    · rw [abs_sub_comm] at hgap
      exact absurd ((h a ha b hb).trans_le ((le_abs_self _).trans hgap)) (lt_irrefl _)
    · exact absurd ((h b hb a ha).trans_le ((le_abs_self _).trans hgap)) (lt_irrefl _)

theorem mem_block_of_linked (hsorted : l.Pairwise fun a b => time a ≤ time b)
    (hc : c ∈ gapBlocks time gap l) (ha : a ∈ c) (h : Linked time gap l a b) : b ∈ c := by
  induction h with
  | refl => exact ha
  | tail _ hnear ih => exact mem_block_of_near hsorted hc ih hnear

/-- **Blocks are the classes of the links.** -/
theorem exists_mem_gapBlocks_iff (hsorted : l.Pairwise fun a b => time a ≤ time b) (ha : a ∈ l) :
    (∃ c ∈ gapBlocks time gap l, a ∈ c ∧ b ∈ c) ↔ Linked time gap l a b := by
  constructor
  · rintro ⟨c, hc, ha, hb⟩
    exact linked_of_mem_gapBlocks hsorted hc ha hb
  · intro h
    obtain ⟨c, hc, hac⟩ := exists_mem_gapBlocks time gap ha
    exact ⟨c, hc, hac, mem_block_of_linked hsorted hc hac h⟩

/-! ## The order of the list -/

open Classical in
/-- A block is all rows linked to one of its rows. -/
theorem block_eq_filter (hgap : 0 ≤ gap) (hsorted : l.Pairwise fun a b => time a ≤ time b)
    (hc : c ∈ gapBlocks time gap l) (ha : a ∈ c) :
    c = l.filter fun b => Linked time gap l a b := by
  have hapart : (gapBlocks time gap l).Pairwise (Apart time gap) := pairwise_gapBlocks hsorted
  have hflatten : (gapBlocks time gap l).flatten = l := List.flatten_splitBy _ l
  have hin : ∀ b ∈ c, Linked time gap l a b := fun b hb =>
    linked_of_mem_gapBlocks hsorted hc ha hb
  have hinto : ∀ b, Linked time gap l a b → b ∈ c := fun b => mem_block_of_linked hsorted hc ha
  obtain ⟨s, t, hst⟩ := List.append_of_mem hc
  rw [hst, List.pairwise_append, List.pairwise_cons] at hapart
  rw [hst, List.flatten_append, List.flatten_cons] at hflatten
  -- a row of another block is apart from the rows of this one
  have hbefore : ∀ b ∈ s.flatten, ¬Linked time gap l a b := by
    intro b hb h
    obtain ⟨d, hd, hb⟩ := List.mem_flatten.mp hb
    have := hapart.2.2 d hd c (by simp) b hb b (hinto b h)
    rw [sub_self] at this
    exact absurd this hgap.not_gt
  have hafter : ∀ b ∈ t.flatten, ¬Linked time gap l a b := by
    intro b hb h
    obtain ⟨d, hd, hb⟩ := List.mem_flatten.mp hb
    have := hapart.2.1.1 d hd b (hinto b h) b hb
    rw [sub_self] at this
    exact absurd this hgap.not_gt
  generalize Linked time gap l a = linked at *
  rw [← hflatten, List.filter_append, List.filter_append,
    List.filter_eq_nil_iff.mpr fun b hb => by simpa using hbefore b hb,
    List.filter_eq_self.mpr fun b hb => decide_eq_true (hin b hb),
    List.filter_eq_nil_iff.mpr fun b hb => by simpa using hafter b hb,
    List.nil_append, List.append_nil]

open Classical in
theorem mem_map_ofList_gapBlocks (hgap : 0 ≤ gap)
    (hsorted : l.Pairwise fun a b => time a ≤ time b) {m : Multiset α} :
    m ∈ (gapBlocks time gap l).map Multiset.ofList ↔
      ∃ a ∈ l, m = (l : Multiset α).filter fun b => Linked time gap l a b := by
  rw [List.mem_map]
  constructor
  · rintro ⟨c, hc, rfl⟩
    obtain ⟨a, ha⟩ := List.exists_mem_of_ne_nil c (List.ne_nil_of_mem_splitBy hc)
    exact ⟨a, mem_of_mem_gapBlocks hc ha,
      congrArg Multiset.ofList (block_eq_filter hgap hsorted hc ha)⟩
  · rintro ⟨a, ha, rfl⟩
    obtain ⟨c, hc, hac⟩ := exists_mem_gapBlocks time gap ha
    exact ⟨c, hc, congrArg Multiset.ofList (block_eq_filter hgap hsorted hc hac)⟩

/-- Blocks differ as multisets. -/
theorem nodup_map_ofList_gapBlocks (hgap : 0 ≤ gap)
    (hsorted : l.Pairwise fun a b => time a ≤ time b) :
    ((gapBlocks time gap l).map Multiset.ofList).Nodup := by
  refine List.pairwise_map.mpr ((pairwise_gapBlocks hsorted).imp_of_mem ?_)
  intro c c' hc _ hapart heq
  obtain ⟨a, ha⟩ := List.exists_mem_of_ne_nil c (List.ne_nil_of_mem_splitBy hc)
  have ha' : a ∈ c' := (Multiset.coe_eq_coe.mp heq).subset ha
  have := hapart a ha a ha'
  rw [sub_self] at this
  exact absurd this hgap.not_gt

/-- **The blocks do not depend on the order of the rows.** -/
theorem map_ofList_gapBlocks_of_perm (hgap : 0 ≤ gap)
    (hsorted : l.Pairwise fun a b => time a ≤ time b)
    (hsorted' : l'.Pairwise fun a b => time a ≤ time b) (h : l.Perm l') :
    ((gapBlocks time gap l).map Multiset.ofList).Perm
      ((gapBlocks time gap l').map Multiset.ofList) := by
  refine (List.perm_ext_iff_of_nodup (nodup_map_ofList_gapBlocks hgap hsorted)
    (nodup_map_ofList_gapBlocks hgap hsorted')).mpr fun m => ?_
  have hmem : ∀ a, a ∈ l ↔ a ∈ l' := fun a => h.mem_iff
  rw [mem_map_ofList_gapBlocks hgap hsorted, mem_map_ofList_gapBlocks hgap hsorted',
    linked_congr hmem, Multiset.coe_eq_coe.mpr h]
  simp only [hmem]

end TtLedger
