import TtLedger.Ingest.RouteLaws
import TtLedger.Foundations.GapClusters
import Mathlib.Algebra.Order.Group.Int

/-!
# Clusters are the chains of near rows

The scan that clusters dated rows cuts them, in time order, wherever the gap to the row before is
above the tolerance (`foldl_addToClusters_eq`). So two dated rows share a cluster exactly when a
chain of rows within the tolerance joins them, the clusters come more than the tolerance apart,
and the order in which the rows are listed does not matter (`clustersSound_clusterByTime`).
-/

namespace TtLedger

/-- Dated rows of a list within the tolerance of one another. -/
def NextTo (rows : List ActivityRow) (a b : ActivityRow) : Prop :=
  a ∈ rows ∧ b ∈ rows ∧
    ∃ t u, a.executedAt = some t ∧ b.executedAt = some u ∧ |t - u| ≤ groupTolerance

/-- The clusters as sets of rows, with their multiplicities. -/
def clusterSets (rows : List ActivityRow) : Multiset (Multiset ActivityRow) :=
  (clusterByTime rows).map Multiset.ofList

/-- The rows without a time, each alone. -/
def undatedClusters (rows : List ActivityRow) : List (List ActivityRow) :=
  (rows.filter fun r => r.executedAt.isNone).map fun row => [row]

/-- Dated rows of the second list come more than the tolerance after those of the first. -/
def WellAfter (c c' : List ActivityRow) : Prop :=
  ∀ a ∈ c, ∀ b ∈ c', ∀ t u, a.executedAt = some t → b.executedAt = some u →
    t + groupTolerance < u

/-- The clusters of a list of rows are the chain closure of the tolerance. -/
structure ClustersSound (rows : List ActivityRow) : Prop where
  partition : (clusterByTime rows).flatten.Perm rows
  nonempty : [] ∉ clusterByTime rows
  linked : ∀ a ∈ rows, ∀ b ∈ rows, a.executedAt.isSome = true → b.executedAt.isSome = true →
    ((∃ c ∈ clusterByTime rows, a ∈ c ∧ b ∈ c) ↔ Relation.ReflTransGen (NextTo rows) a b)
  inOrder : ∃ dated, clusterByTime rows = dated ++ undatedClusters rows ∧
    (∀ c ∈ dated, ∀ a ∈ c, a.executedAt.isSome = true) ∧ dated.Pairwise WellAfter
  unordered : ∀ rows', rows'.Perm rows → clusterSets rows' = clusterSets rows

/-! ## The scan -/

/-- The time of a dated row. -/
def ActivityRow.time (row : ActivityRow) : Datetime := row.executedAt.getD 0

/-- The dated rows in time order. -/
def datedInOrder (rows : List ActivityRow) : List ActivityRow :=
  sortOn (fun r => timeKey r.executedAt) (rows.filter fun r => r.executedAt.isSome)

theorem addToClusters_gapBlocks (rows : List ActivityRow) (row : ActivityRow) :
    addToClusters (gapBlocks ActivityRow.time groupTolerance rows) row =
      gapBlocks ActivityRow.time groupTolerance (rows ++ [row]) := by
  set blocks := gapBlocks ActivityRow.time groupTolerance rows with hblocks
  have hflatten : blocks.flatten = rows := List.flatten_splitBy _ rows
  rcases List.eq_nil_or_concat' blocks with hnil | ⟨front, last, hlast⟩
  · rw [hnil, List.flatten_nil] at hflatten
    subst hflatten
    rw [hnil]
    rfl
  · have hmem : last ∈ blocks := by simp [hlast]
    have hne : last ≠ [] := List.ne_nil_of_mem_splitBy (hblocks ▸ hmem)
    obtain ⟨c, prev, rfl⟩ := (List.eq_nil_or_concat' last).resolve_left hne
    rw [hlast]
    by_cases hgap : row.time - prev.time ≤ groupTolerance
    · rw [gapBlocks_concat_of_le (hblocks ▸ hlast) hgap]
      simp only [ActivityRow.time] at hgap
      simp [addToClusters, hgap]
    · have hend : rows.getLast? = some prev := by
        rw [← hflatten, hlast]
        simp
      rw [gapBlocks_concat_of_lt fun a ha => by
        obtain rfl : prev = a := Option.some.inj (hend.symm.trans ha)
        exact lt_of_not_ge hgap, ← hblocks, hlast]
      simp only [ActivityRow.time] at hgap
      simp [addToClusters, hgap]

/-- The scan cuts the rows at the gaps. -/
theorem foldl_addToClusters_eq (rows : List ActivityRow) :
    rows.foldl addToClusters [] = gapBlocks ActivityRow.time groupTolerance rows := by
  induction rows using List.reverseRecOn with
  | nil => rfl
  | append_singleton rows row ih =>
    rw [List.foldl_append, List.foldl_cons, List.foldl_nil, ih, addToClusters_gapBlocks]

theorem clusterByTime_eq (rows : List ActivityRow) :
    clusterByTime rows =
      gapBlocks ActivityRow.time groupTolerance (datedInOrder rows) ++ undatedClusters rows := by
  rw [← foldl_addToClusters_eq]
  rfl

/-! ## The rows in order -/

section Order

variable {rows rows' : List ActivityRow} {a b : ActivityRow}

theorem mem_datedInOrder : a ∈ datedInOrder rows ↔ a ∈ rows ∧ a.executedAt.isSome = true := by
  rw [datedInOrder, mem_sortOn, List.mem_filter]

theorem time_of_some {t : Datetime} (h : a.executedAt = some t) : a.time = t := by
  rw [ActivityRow.time, h, Option.getD_some]

theorem pairwise_datedInOrder (rows : List ActivityRow) :
    (datedInOrder rows).Pairwise fun a b => a.time ≤ b.time := by
  refine List.Pairwise.imp_of_mem ?_ (pairwise_sortOn _ _)
  intro a b ha hb hle
  obtain ⟨t, ht⟩ := Option.isSome_iff_exists.mp (mem_datedInOrder.mp ha).2
  obtain ⟨u, hu⟩ := Option.isSome_iff_exists.mp (mem_datedInOrder.mp hb).2
  rw [time_of_some ht, time_of_some hu]
  rw [ht, hu] at hle
  exact WithTop.coe_le_coe.mp hle

theorem datedInOrder_perm (h : rows'.Perm rows) :
    (datedInOrder rows').Perm (datedInOrder rows) :=
  ((perm_sortOn _ _).trans (h.filter _)).trans (perm_sortOn _ _).symm

/-- Dated rows are near exactly when they are next to one another. -/
theorem near_datedInOrder (rows : List ActivityRow) :
    Near ActivityRow.time groupTolerance (datedInOrder rows) = NextTo rows := by
  funext a b
  refine propext ⟨fun ⟨ha, hb, hgap⟩ => ?_, fun ⟨ha, hb, t, u, ht, hu, hgap⟩ => ?_⟩
  · obtain ⟨ha, hat⟩ := mem_datedInOrder.mp ha
    obtain ⟨hb, hbt⟩ := mem_datedInOrder.mp hb
    obtain ⟨t, ht⟩ := Option.isSome_iff_exists.mp hat
    obtain ⟨u, hu⟩ := Option.isSome_iff_exists.mp hbt
    rw [time_of_some ht, time_of_some hu] at hgap
    exact ⟨ha, hb, t, u, ht, hu, hgap⟩
  · refine ⟨mem_datedInOrder.mpr ⟨ha, by rw [ht]; rfl⟩,
      mem_datedInOrder.mpr ⟨hb, by rw [hu]; rfl⟩, ?_⟩
    rwa [time_of_some ht, time_of_some hu]

/-- A dated row is in no cluster of a row without a time. -/
theorem not_mem_undatedClusters (ha : a.executedAt.isSome = true) :
    ∀ c ∈ undatedClusters rows, a ∉ c := by
  intro c hc hac
  obtain ⟨row, hrow, rfl⟩ := List.mem_map.mp hc
  rw [List.mem_singleton.mp hac] at ha
  have hnone := (List.mem_filter.mp hrow).2
  simp only [Option.isNone_iff_eq_none] at hnone
  rw [hnone] at ha
  cases ha

/-- Of the clusters only those of dated rows hold a dated row. -/
theorem exists_mem_clusterByTime_iff (ha : a.executedAt.isSome = true) :
    (∃ c ∈ clusterByTime rows, a ∈ c ∧ b ∈ c) ↔
      ∃ c ∈ gapBlocks ActivityRow.time groupTolerance (datedInOrder rows), a ∈ c ∧ b ∈ c := by
  rw [clusterByTime_eq]
  constructor
  · rintro ⟨c, hc, hac, hbc⟩
    rcases List.mem_append.mp hc with hc | hc
    · exact ⟨c, hc, hac, hbc⟩
    · exact absurd hac (not_mem_undatedClusters ha c hc)
  · rintro ⟨c, hc, hac, hbc⟩
    exact ⟨c, List.mem_append_left _ hc, hac, hbc⟩

end Order

/-- **Clustering is the chain closure.** The clusters partition the rows; two dated rows share a
cluster if and only if a chain of dated rows within the tolerance joins them; clusters of dated
rows come in time order with more than the tolerance between them, each row without a time is
alone and last; and the clusters as sets do not depend on the order of the rows. -/
theorem clustersSound_clusterByTime (rows : List ActivityRow) : ClustersSound rows where
  partition := clusterByTime_perm rows
  nonempty := by
    rw [clusterByTime_eq, List.mem_append, not_or]
    refine ⟨List.nil_notMem_splitBy _ _, fun h => ?_⟩
    obtain ⟨row, -, hrow⟩ := List.mem_map.mp h
    cases hrow
  linked a ha b hb hat hbt := by
    rw [exists_mem_clusterByTime_iff hat, exists_mem_gapBlocks_iff (pairwise_datedInOrder rows)
      (mem_datedInOrder.mpr ⟨ha, hat⟩), Linked, near_datedInOrder]
  inOrder := by
    refine ⟨_, clusterByTime_eq rows, fun c hc a ha =>
      (mem_datedInOrder.mp (mem_of_mem_gapBlocks hc ha)).2, ?_⟩
    refine (pairwise_gapBlocks (pairwise_datedInOrder rows)).imp fun {c c'} hapart => ?_
    intro a ha b hb t u ht hu
    have hgap := hapart a ha b hb
    rw [time_of_some ht, time_of_some hu] at hgap
    exact lt_sub_iff_add_lt'.mp hgap
  unordered rows' h := by
    have hundated : (undatedClusters rows').Perm (undatedClusters rows) := (h.filter _).map _
    rw [clusterSets, clusterSets, clusterByTime_eq, clusterByTime_eq, List.map_append,
      List.map_append]
    refine Multiset.coe_eq_coe.mpr (List.Perm.append ?_ (hundated.map _))
    exact map_ofList_gapBlocks_of_perm (by decide) (pairwise_datedInOrder rows')
      (pairwise_datedInOrder rows) (datedInOrder_perm h)

end TtLedger
