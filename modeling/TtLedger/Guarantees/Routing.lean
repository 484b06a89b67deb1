import TtLedger.Ingest.DrawLaws

/-!
# Routing partitions a cluster and draws down exactly

What `routeCluster` does for any open groups and any cluster (`routeCluster_exact`): it splits the
cluster in order, the nets of the groups only shrink, each closing row consumes its quantity, or
all that the groups hold against it, greedily in list order, and it lands on the first group it
offsets.
-/

namespace TtLedger

variable (openGroups : List OpenGroup)

/-! ## One row -/

section Row

variable (remaining : Remaining) (row : ActivityRow)

/-- A row that draws on nothing leaves every net. -/
theorem after_routed_of_idle (h : row.securityId = none ∨ row.exits = false) :
    (routed openGroups remaining row).after = remaining :=
  congrArg Prod.snd (routeRow_of_idle h)

/-- A row draws in its own security. -/
theorem drawn_routed (sid : String) :
    List.Forall₂ (fun e e' => e'.1 = e.1 ∧ Shrinks (netLeft sid e) (netLeft sid e') ∧
      (row.securityId ≠ some sid ∨ row.exits = false → netLeft sid e' = netLeft sid e))
      remaining (routed openGroups remaining row).after := by
  by_cases hidle : row.securityId = none ∨ row.exits = false
  · rw [after_routed_of_idle openGroups remaining row hidle]
    exact List.forall₂_same.mpr fun e _ => ⟨rfl, Shrinks.refl _, fun _ => rfl⟩
  · obtain ⟨hsid, hexits⟩ := not_or.mp hidle
    obtain ⟨own, hown⟩ := Option.ne_none_iff_exists'.mp hsid
    have hafter : (routed openGroups remaining row).after =
        (drawDown own row.closingDelta row.absQuantity remaining).2 :=
      snd_routeRow hown (by simpa using hexits)
    rw [hafter]
    refine (drawn_drawDown own _ (abs_nonneg _) remaining).imp fun e e' hdrawn => ?_
    refine ⟨hdrawn.group, hdrawn.shrinks_in sid, fun hother => hdrawn.others sid ?_⟩
    rintro rfl
    exact hother.elim (fun hne => hne hown) hexits

/-- What a closing row takes of each group is a greedy allocation. -/
theorem taken_routed {sid : String} (hsid : row.securityId = some sid) (hexits : row.exits) :
    taken sid remaining (routed openGroups remaining row).after =
      greedy row.absQuantity (remaining.map (capacity sid row.closingDelta)) := by
  have hafter : (routed openGroups remaining row).after =
      (drawDown sid row.closingDelta row.absQuantity remaining).2 := snd_routeRow hsid hexits
  rw [hafter]
  exact taken_drawDown sid _ (abs_nonneg _) remaining

/-- In total it takes its quantity, or all that the groups hold against it. -/
theorem sum_taken_routed {sid : String} (hsid : row.securityId = some sid)
    (hexits : row.exits) :
    (taken sid remaining (routed openGroups remaining row).after).sum =
      min row.absQuantity (remaining.map (capacity sid row.closingDelta)).sum := by
  rw [taken_routed openGroups remaining row hsid hexits]
  refine sum_greedy (abs_nonneg _) fun held hheld => ?_
  obtain ⟨e, -, rfl⟩ := List.mem_map.mp hheld
  exact capacity_nonneg sid row.closingDelta e

/-- A row that takes something lands on the first group it offsets. -/
theorem landing_routed {sid : String} (hsid : row.securityId = some sid) (hexits : row.exits)
    (htaken : (taken sid remaining (routed openGroups remaining row).after).sum ≠ 0) :
    ∃ e, (remaining.find? fun e => offsets (netLeft sid e) row.closingDelta) = some e ∧
      (routed openGroups remaining row).landing = some e.1 := by
  cases hfind : remaining.find? fun e => offsets (netLeft sid e) row.closingDelta with
  | some e =>
    refine ⟨e, rfl, fst_routeRow_of_some hsid hexits ?_⟩
    rw [fst_drawDown, hfind, Option.map_some]
  | none =>
    have hnone : ∀ held ∈ remaining.map (capacity sid row.closingDelta), held = 0 := by
      intro held hheld
      obtain ⟨e, he, rfl⟩ := List.mem_map.mp hheld
      exact if_neg (List.find?_eq_none.mp hfind e he)
    rw [sum_taken_routed openGroups remaining row hsid hexits, List.sum_eq_zero hnone,
      min_eq_right (abs_nonneg _)] at htaken
    exact absurd rfl htaken

end Row

/-! ## A whole cluster -/

/-- The same groups, each with a net that neither grew nor changed sign. -/
def ShrinksAll (sid : String) : Remaining → Remaining → Prop :=
  List.Forall₂ fun e e' => e'.1 = e.1 ∧ Shrinks (netLeft sid e) (netLeft sid e')

theorem ShrinksAll.trans {sid : String} {r r' r'' : Remaining} (h : ShrinksAll sid r r')
    (h' : ShrinksAll sid r' r'') : ShrinksAll sid r r'' := by
  induction h generalizing r'' with
  | nil => exact h'
  | cons hhead _ ih =>
    cases h' with
    | cons hhead' htail' =>
      exact List.Forall₂.cons ⟨hhead'.1.trans hhead.1, hhead.2.trans hhead'.2⟩ (ih htail')

theorem shrinksAll_routed (sid : String) (remaining : Remaining) (row : ActivityRow) :
    ShrinksAll sid remaining (routed openGroups remaining row).after :=
  (drawn_routed openGroups remaining row sid).imp fun _ _ h => ⟨h.1, h.2.1⟩

theorem ShrinksAll.refl (sid : String) (remaining : Remaining) :
    ShrinksAll sid remaining remaining :=
  List.forall₂_same.mpr fun _ _ => ⟨rfl, Shrinks.refl _⟩

/-- What a row finds has shrunk from what the trace began with. -/
theorem shrinksAll_before (sid : String) {remaining : Remaining} {rows : List ActivityRow}
    {t : Routed} (ht : t ∈ routeTrace openGroups remaining rows) :
    ShrinksAll sid remaining t.before := by
  induction rows generalizing remaining with
  | nil => cases ht
  | cons row rows ih =>
    rcases List.mem_cons.mp ht with rfl | ht
    · exact ShrinksAll.refl sid remaining
    · exact (shrinksAll_routed openGroups sid remaining row).trans (ih ht)

/-- Along a trace the nets shrink from those the rows find. -/
theorem shrinksAll_after (sid : String) {remaining : Remaining} {rows : List ActivityRow}
    {t : Routed} (ht : t ∈ routeTrace openGroups remaining rows) :
    ShrinksAll sid remaining t.after := by
  have hstep := shrinksAll_routed openGroups sid t.before t.row
  rw [← eq_routed_of_mem openGroups ht] at hstep
  exact (shrinksAll_before openGroups sid ht).trans hstep

/-- What the routing of a cluster does with each of its rows. -/
structure RoutesExactly (cluster : List ActivityRow) : Prop where
  perm : ((routeCluster openGroups cluster).buckets.flatMap Prod.snd ++
    (routeCluster openGroups cluster).rest).Perm cluster
  bucket_order : ∀ b ∈ (routeCluster openGroups cluster).buckets, b.2.Sublist cluster
  rest_order : (routeCluster openGroups cluster).rest.Sublist cluster
  groups : ∀ b ∈ (routeCluster openGroups cluster).buckets, b.1 ∈ openGroups
  distinct : ((routeCluster openGroups cluster).buckets.map fun b => b.1.pk).Nodup
  rows : (clusterTrace openGroups cluster).map Routed.row = cluster
  placed : TraceInv (clusterTrace openGroups cluster) (routeCluster openGroups cluster)
  shrinks : ∀ t ∈ clusterTrace openGroups cluster, ∀ sid,
    ShrinksAll sid t.before t.after ∧ ShrinksAll sid (openNets openGroups) t.after
  others : ∀ t ∈ clusterTrace openGroups cluster, ∀ sid,
    t.row.securityId ≠ some sid ∨ t.row.exits = false →
    t.after.map (netLeft sid) = t.before.map (netLeft sid)
  consumes : ∀ t ∈ clusterTrace openGroups cluster, t.row.exits → ∀ sid,
    t.row.securityId = some sid →
    taken sid t.before t.after =
      greedy t.row.absQuantity (t.before.map (capacity sid t.row.closingDelta)) ∧
    (taken sid t.before t.after).sum =
      min t.row.absQuantity (t.before.map (capacity sid t.row.closingDelta)).sum
  lands : ∀ t ∈ clusterTrace openGroups cluster, t.row.exits → ∀ sid,
    t.row.securityId = some sid → (taken sid t.before t.after).sum ≠ 0 →
    ∃ e, (t.before.find? fun e => offsets (netLeft sid e) t.row.closingDelta) = some e ∧
      t.landing = some e.1

/-- **Routing**: a cluster is split in order over distinct open groups and the rest, and each row
draws exactly what it can of the nets it offsets. -/
theorem routeCluster_exact (cluster : List ActivityRow) : RoutesExactly openGroups cluster := by
  have hrows := map_row_routeTrace openGroups (openNets openGroups) cluster
  have hplaced := routeCluster_eq_trace openGroups cluster
  have hsub : ∀ p : Routed → Bool,
      (((clusterTrace openGroups cluster).filter p).map Routed.row).Sublist cluster := by
    intro p
    have hfilter := (List.filter_sublist (p := p) (l := clusterTrace openGroups cluster)).map
      Routed.row
    rwa [clusterTrace, hrows] at hfilter
  have hrouted : ∀ t ∈ clusterTrace openGroups cluster, t = routed openGroups t.before t.row :=
    fun t ht => eq_routed_of_mem openGroups ht
  refine ⟨routeCluster_perm openGroups cluster, fun b hb => ?_, ?_,
    fun b hb => mem_of_mem_buckets openGroups cluster hb, nodup_bucket_pks openGroups cluster,
    hrows, hplaced, fun t ht sid => ⟨?_, shrinksAll_after openGroups sid ht⟩,
    fun t ht sid hother => ?_, fun t ht hexits sid hsid => ⟨?_, ?_⟩,
    fun t ht hexits sid hsid htaken => ?_⟩
  · rw [hplaced.bucket b hb]
    exact hsub _
  · rw [hplaced.rest]
    exact hsub _
  · rw [hrouted t ht]
    exact shrinksAll_routed openGroups sid t.before t.row
  · rw [hrouted t ht]
    have hkept : List.Forall₂ (fun e e' => netLeft sid e = netLeft sid e') t.before
        (routed openGroups t.before t.row).after :=
      (drawn_routed openGroups t.before t.row sid).imp fun _ _ h => (h.2.2 hother).symm
    have hmap := List.forall₂_map_left_iff.mpr (List.forall₂_map_right_iff.mpr hkept)
    rw [List.forall₂_eq_eq_eq] at hmap
    exact hmap.symm
  · rw [hrouted t ht]
    exact taken_routed openGroups t.before t.row hsid hexits
  · rw [hrouted t ht]
    exact sum_taken_routed openGroups t.before t.row hsid hexits
  · rw [hrouted t ht] at htaken ⊢
    exact landing_routed openGroups t.before t.row hsid hexits htaken

end TtLedger
