import TtLedger.Ingest.Exit

/-!
# Laws of clustering and routing

Nothing is lost and nothing is routed twice. The clusters partition the candidates
(`clusterByTime_perm`) and follow one another in time (`pairwise_clusterByTime`); a cluster is its
pre-attributed rows and the unattributed ones (`intentOf_perm`); routing splits a cluster into the
buckets and the rest (`RouteInv`, `routeCluster_perm`), with one bucket for each group, and only
for open groups.
-/

namespace TtLedger

/-! ## Clusters -/

theorem flatten_addToClusters (clusters : List (List ActivityRow)) (row : ActivityRow) :
    (addToClusters clusters row).flatten = clusters.flatten ++ [row] := by
  unfold addToClusters
  cases hlast : clusters.getLast? with
  | none =>
    rw [List.getLast?_eq_none_iff] at hlast
    simp [hlast]
  | some cluster =>
    simp only []
    split
    · obtain ⟨hne, rfl⟩ := List.getLast?_eq_some_iff.mp hlast
      simp
    · simp

theorem flatten_foldl_addToClusters (rows : List ActivityRow) (clusters : List (List ActivityRow)) :
    (rows.foldl addToClusters clusters).flatten = clusters.flatten ++ rows := by
  induction rows generalizing clusters with
  | nil => simp
  | cons row rows ih =>
    rw [List.foldl_cons, ih, flatten_addToClusters, List.append_assoc, List.singleton_append]

/-- The clusters partition the rows. -/
theorem clusterByTime_perm (rows : List ActivityRow) : (clusterByTime rows).flatten.Perm rows := by
  have hundated : ∀ l : List ActivityRow, (l.map fun row => [row]).flatten = l := by
    intro l
    induction l with
    | nil => rfl
    | cons a l ih => simp [ih]
  unfold clusterByTime
  simp only []
  rw [List.flatten_append, flatten_foldl_addToClusters, List.flatten_nil, List.nil_append,
    hundated]
  have hsplit := List.filter_append_perm (fun r : ActivityRow => r.executedAt.isSome) rows
  refine ((perm_sortOn _ _).append_right _).trans (List.Perm.trans (List.Perm.of_eq ?_) hsplit)
  simp only [← Option.not_isSome]

/-- One row is a cluster. -/
theorem clusterByTime_singleton (row : ActivityRow) : clusterByTime [row] = [[row]] := by
  unfold clusterByTime
  cases h : row.executedAt with
  | none => simp [h]
  | some t =>
    have hsort : sortOn (fun r : ActivityRow => timeKey r.executedAt) [row] = [row] :=
      sortOn_of_pairwise _ (List.pairwise_singleton _ _)
    simp [h, hsort, addToClusters]

/-- The rows pre-attributed to a group and the unattributed ones are the cluster. -/
theorem intentOf_perm (cluster : List ActivityRow) :
    ((intentOf cluster).entries.flatMap Prod.snd ++ unattributed cluster).Perm cluster := by
  have hsplit := List.filter_append_perm
    (fun r : ActivityRow => r.orderTradeGroupId.isSome) cluster
  refine List.Perm.trans (List.Perm.append flatMap_groupBy_perm (List.Perm.of_eq ?_)) hsplit
  simp only [unattributed, ← Option.not_isSome]

/-! ## The order of the clusters -/

/-- The dated rows of one list come before those of another. -/
def Earlier (rows rows' : List ActivityRow) : Prop :=
  ∀ a ∈ rows, ∀ b ∈ rows', ∀ t u, a.executedAt = some t → b.executedAt = some u → t < u

/-- Clusters of dated rows, in time order within and across them. -/
structure Chained (clusters : List (List ActivityRow)) : Prop where
  nonempty : ∀ c ∈ clusters, c ≠ []
  dated : ∀ a ∈ clusters.flatten, a.executedAt.isSome = true
  sorted : clusters.flatten.Pairwise fun a b => a.executedAt.getD 0 ≤ b.executedAt.getD 0
  earlier : clusters.Pairwise Earlier

theorem earlier_of_getD {rows rows' : List ActivityRow}
    (h : ∀ a ∈ rows, ∀ b ∈ rows', a.executedAt.getD 0 < b.executedAt.getD 0) :
    Earlier rows rows' := by
  intro a ha b hb t u ht hu
  have hlt := h a ha b hb
  rwa [ht, hu] at hlt

theorem Earlier.getD {rows rows' : List ActivityRow} (h : Earlier rows rows')
    (hd : ∀ a ∈ rows, a.executedAt.isSome = true) (hd' : ∀ b ∈ rows', b.executedAt.isSome = true)
    {a b : ActivityRow} (ha : a ∈ rows) (hb : b ∈ rows') :
    a.executedAt.getD 0 < b.executedAt.getD 0 := by
  obtain ⟨t, ht⟩ := Option.isSome_iff_exists.mp (hd a ha)
  obtain ⟨u, hu⟩ := Option.isSome_iff_exists.mp (hd' b hb)
  rw [ht, hu]
  exact h a ha b hb t u ht hu

/-- A row joins the last cluster, or starts one more than the tolerance after its last row. -/
theorem addToClusters_cases {clusters : List (List ActivityRow)} (row : ActivityRow)
    (hne : ∀ c ∈ clusters, c ≠ []) :
    (clusters = [] ∧ addToClusters clusters row = [[row]]) ∨
      ∃ front cluster prev, clusters = front ++ [cluster ++ [prev]] ∧
        (addToClusters clusters row = front ++ [cluster ++ [prev] ++ [row]] ∨
          groupTolerance < row.executedAt.getD 0 - prev.executedAt.getD 0 ∧
            addToClusters clusters row = clusters ++ [[row]]) := by
  rcases List.eq_nil_or_concat' clusters with rfl | ⟨front, last, rfl⟩
  · exact Or.inl ⟨rfl, rfl⟩
  · obtain ⟨cluster, prev, rfl⟩ :=
      (List.eq_nil_or_concat' last).resolve_left (hne last (by simp))
    refine Or.inr ⟨front, cluster, prev, rfl, ?_⟩
    by_cases hgap : row.executedAt.getD 0 - prev.executedAt.getD 0 ≤ groupTolerance
    · exact Or.inl (by simp [addToClusters, hgap])
    · exact Or.inr ⟨lt_of_not_ge hgap, by simp [addToClusters, hgap]⟩

namespace Chained

variable {front : List (List ActivityRow)} {cluster : List ActivityRow} {prev row : ActivityRow}

/-- The clusters before the last come before a row that joins it. -/
theorem earlier_joined (h : Chained (front ++ [cluster ++ [prev]]))
    (hrow : prev.executedAt.getD 0 ≤ row.executedAt.getD 0) :
    ∀ c ∈ front, Earlier c (cluster ++ [prev] ++ [row]) := by
  intro c hc
  have hearlier : Earlier c (cluster ++ [prev]) :=
    (List.pairwise_append.mp h.earlier).2.2 c hc _ (by simp)
  have hlt : ∀ a ∈ c, ∀ b ∈ cluster ++ [prev],
      a.executedAt.getD 0 < b.executedAt.getD 0 := fun a ha b hb =>
    hearlier.getD (fun a ha => h.dated a (List.mem_flatten.mpr ⟨c, by simp [hc], ha⟩))
      (fun b hb => h.dated b (List.mem_flatten.mpr ⟨cluster ++ [prev], by simp, hb⟩)) ha hb
  refine earlier_of_getD fun a ha b hb => ?_
  rcases List.mem_append.mp hb with hb | hb
  · exact hlt a ha b hb
  · rw [List.mem_singleton.mp hb]
    exact (hlt a ha prev (by simp)).trans_le hrow

/-- All clusters come before a row that is later than the last one. -/
theorem earlier_started (h : Chained (front ++ [cluster ++ [prev]]))
    (hrow : prev.executedAt.getD 0 < row.executedAt.getD 0) :
    ∀ c ∈ front ++ [cluster ++ [prev]], Earlier c [row] := by
  intro c hc
  have hflat : (front ++ [cluster ++ [prev]]).flatten = (front.flatten ++ cluster) ++ [prev] := by
    simp
  have hsorted := h.sorted
  rw [hflat, List.pairwise_append] at hsorted
  refine earlier_of_getD fun a ha b hb => ?_
  rw [List.mem_singleton.mp hb]
  have hmem : a ∈ (front ++ [cluster ++ [prev]]).flatten := List.mem_flatten.mpr ⟨c, hc, ha⟩
  rw [hflat] at hmem
  rcases List.mem_append.mp hmem with hmem | hmem
  · exact (hsorted.2.2 a hmem prev (by simp)).trans_lt hrow
  · rw [List.mem_singleton.mp hmem]
    exact hrow

end Chained

/-- A dated row that does not come before the others joins the last cluster or starts one. -/
theorem Chained.addToClusters {clusters : List (List ActivityRow)} (h : Chained clusters)
    {row : ActivityRow} (hrow : row.executedAt.isSome = true)
    (hlast : ∀ a ∈ clusters.flatten, a.executedAt.getD 0 ≤ row.executedAt.getD 0) :
    Chained (addToClusters clusters row) := by
  have hflatten := flatten_addToClusters clusters row
  have hdated : ∀ a ∈ (TtLedger.addToClusters clusters row).flatten,
      a.executedAt.isSome = true := by
    rw [hflatten]
    intro a ha
    rcases List.mem_append.mp ha with ha | ha
    · exact h.dated a ha
    · exact List.mem_singleton.mp ha ▸ hrow
  have hsorted : (TtLedger.addToClusters clusters row).flatten.Pairwise fun a b =>
      a.executedAt.getD 0 ≤ b.executedAt.getD 0 := by
    rw [hflatten, List.pairwise_append]
    exact ⟨h.sorted, List.pairwise_singleton _ _, fun a ha b hb =>
      List.mem_singleton.mp hb ▸ hlast a ha⟩
  rcases addToClusters_cases row h.nonempty with ⟨-, heq⟩ | ⟨front, cluster, prev, rfl, hcase⟩
  · rw [heq] at hdated hsorted ⊢
    exact ⟨by simp, hdated, hsorted, List.pairwise_singleton _ _⟩
  · rcases hcase with heq | ⟨hgap, heq⟩
    · rw [heq] at hdated hsorted ⊢
      have hne : ∀ c ∈ front, c ≠ [] := fun c hc => h.nonempty c (by simp [hc])
      refine ⟨by simpa [or_imp, forall_and] using hne, hdated, hsorted, ?_⟩
      refine List.pairwise_append.mpr ⟨(List.pairwise_append.mp h.earlier).1,
        List.pairwise_singleton _ _, fun c hc c' hc' => ?_⟩
      rw [List.mem_singleton.mp hc']
      exact h.earlier_joined (hlast prev (by simp)) c hc
    · rw [heq] at hdated hsorted ⊢
      have htol : (0 : Int) ≤ groupTolerance := by decide
      refine ⟨?_, hdated, hsorted, ?_⟩
      · intro c hc
        rcases List.mem_append.mp hc with hc | hc
        · exact h.nonempty c hc
        · rw [List.mem_singleton.mp hc]
          exact List.cons_ne_nil _ _
      · refine List.pairwise_append.mpr ⟨h.earlier, List.pairwise_singleton _ _,
          fun c hc c' hc' => ?_⟩
        rw [List.mem_singleton.mp hc']
        exact h.earlier_started (sub_pos.mp (htol.trans_lt hgap)) c hc

theorem Chained.foldl_addToClusters {rows : List ActivityRow}
    (hdated : ∀ a ∈ rows, a.executedAt.isSome = true)
    (hsorted : rows.Pairwise fun a b => a.executedAt.getD 0 ≤ b.executedAt.getD 0)
    {clusters : List (List ActivityRow)} (h : Chained clusters)
    (hlast : ∀ a ∈ clusters.flatten, ∀ b ∈ rows, a.executedAt.getD 0 ≤ b.executedAt.getD 0) :
    Chained (rows.foldl TtLedger.addToClusters clusters) := by
  induction rows generalizing clusters with
  | nil => exact h
  | cons row rows ih =>
    obtain ⟨hrow, hsorted⟩ := List.pairwise_cons.mp hsorted
    refine ih (fun a ha => hdated a (.tail _ ha)) hsorted
      (h.addToClusters (hdated row (by simp)) fun a ha => hlast a ha row (by simp)) ?_
    rw [flatten_addToClusters]
    intro a ha b hb
    rcases List.mem_append.mp ha with ha | ha
    · exact hlast a ha b (.tail _ hb)
    · exact List.mem_singleton.mp ha ▸ hrow b hb

/-- **Clusters are in time order.** -/
theorem pairwise_clusterByTime (rows : List ActivityRow) :
    (clusterByTime rows).Pairwise Earlier := by
  unfold clusterByTime
  simp only []
  set dated := sortOn (fun r : ActivityRow => timeKey r.executedAt)
    (rows.filter fun r => r.executedAt.isSome) with hdated
  have hisSome : ∀ a ∈ dated, a.executedAt.isSome = true := fun a ha =>
    (List.mem_filter.mp ((mem_sortOn _).mp ha)).2
  have hsorted : dated.Pairwise fun a b => a.executedAt.getD 0 ≤ b.executedAt.getD 0 := by
    refine List.Pairwise.imp_of_mem ?_ (pairwise_sortOn _ _)
    intro a b ha hb hle
    obtain ⟨t, ht⟩ := Option.isSome_iff_exists.mp (hisSome a ha)
    obtain ⟨u, hu⟩ := Option.isSome_iff_exists.mp (hisSome b hb)
    rw [ht, hu] at hle ⊢
    exact WithTop.coe_le_coe.mp hle
  have hchained : Chained (dated.foldl addToClusters []) :=
    Chained.foldl_addToClusters hisSome hsorted ⟨by simp, by simp, by simp, .nil⟩ (by simp)
  -- an undated row is neither before nor after any other
  have hundated : ∀ a ∈ rows.filter (fun r => r.executedAt.isNone), a.executedAt = none :=
    fun a ha => Option.isNone_iff_eq_none.mp (List.mem_filter.mp ha).2
  refine List.pairwise_append.mpr ⟨hchained.earlier, ?_, ?_⟩
  · refine List.pairwise_map.mpr (List.pairwise_of_forall_mem_list fun a ha b _ => ?_)
    intro a' ha' _ _ t _ ht
    rw [List.mem_singleton.mp ha', hundated a ha] at ht
    cases ht
  · intro c _ c' hc' a _ b hb t u _ hu
    obtain ⟨row, hrow, rfl⟩ := List.mem_map.mp hc'
    rw [List.mem_singleton.mp hb, hundated row hrow] at hu
    cases hu

/-! ## Drawing down -/

section DrawDown

variable (sid : String) (delta : Option ℚ)

@[simp] theorem map_fst_drawDown (left : ℚ) (remaining : Remaining) :
    (drawDown sid delta left remaining).2.map Prod.fst = remaining.map Prod.fst := by
  induction remaining generalizing left with
  | nil => rfl
  | cons head remaining ih =>
    obtain ⟨g, nets⟩ := head
    unfold drawDown
    simp only []
    split
    · split
      · rfl
      · rw [List.map_cons, ih, List.map_cons]
    · rw [List.map_cons, ih, List.map_cons]

/-- The group that carries a row is one of the open groups and holds an offsetting net. -/
theorem drawDown_eq_some {left : ℚ} {remaining : Remaining} {g : OpenGroup}
    (h : (drawDown sid delta left remaining).1 = some g) :
    ∃ nets, (g, nets) ∈ remaining ∧ offsets ((nets.get? sid).getD 0) delta = true := by
  induction remaining generalizing left with
  | nil => cases h
  | cons head remaining ih =>
    obtain ⟨g', nets⟩ := head
    unfold drawDown at h
    simp only [] at h
    by_cases hoff : offsets ((nets.get? sid).getD 0) delta = true
    · rw [if_pos hoff] at h
      have hg : g' = g := by
        split at h
        · exact Option.some.inj h
        · exact Option.some.inj h
      exact ⟨nets, by simp [hg], hoff⟩
    · rw [if_neg hoff] at h
      obtain ⟨nets', hmem, hoff'⟩ := ih h
      exact ⟨nets', List.mem_cons_of_mem _ hmem, hoff'⟩

/-- Drawing down looks at the nets only. -/
theorem drawDown_map (f : OpenGroup → OpenGroup) (left : ℚ) (remaining : Remaining) :
    drawDown sid delta left (remaining.map fun e => (f e.1, e.2)) =
      ((drawDown sid delta left remaining).1.map f,
        (drawDown sid delta left remaining).2.map fun e => (f e.1, e.2)) := by
  induction remaining generalizing left with
  | nil => rfl
  | cons head remaining ih =>
    obtain ⟨g, nets⟩ := head
    rw [List.map_cons]
    unfold drawDown
    simp only []
    split
    · split
      · rfl
      · simp [ih]
    · simp [ih]

end DrawDown

/-! ## Routing one row -/

/-- A row that an exit is made of: a settlement, a trade to close, or a bare trade. -/
def TxnRow.exits (r : TxnRow) : Bool := r.isClosing || isBareAction r.action

section Route

variable (openGroups : List OpenGroup)

@[simp] theorem map_fst_routeRow (remaining : Remaining) (row : TxnRow) :
    (routeRow openGroups remaining row).2.map Prod.fst = remaining.map Prod.fst := by
  unfold routeRow
  split
  · rfl
  · split
    · simp only []
      split <;> simp
    · split
      · simp
      · rfl

/-- A row is routed to an open group. -/
theorem mem_of_routeRow {remaining : Remaining} {row : TxnRow} {g : OpenGroup}
    (hr : remaining.map Prod.fst = openGroups)
    (h : (routeRow openGroups remaining row).1 = some g) : g ∈ openGroups := by
  have of_drawDown : ∀ {sid delta left},
      (drawDown sid delta left remaining).1 = some g → g ∈ openGroups := by
    intro sid delta left hd
    obtain ⟨nets, hmem, -⟩ := drawDown_eq_some sid delta hd
    rw [← hr]
    exact List.mem_map.mpr ⟨_, hmem, rfl⟩
  unfold routeRow at h
  split at h
  · cases h
  · split at h
    · simp only [] at h
      split at h
      · rename_i group hgroup
        obtain rfl := Option.some.inj h
        exact of_drawDown hgroup
      · exact List.mem_of_find?_eq_some h
    · split at h
      · exact of_drawDown h
      · cases h

/-- Routing looks at the nets and the securities of the groups only. -/
theorem routeRow_map {f : OpenGroup → OpenGroup} (hf : ∀ g, (f g).securityIds = g.securityIds)
    (remaining : Remaining) (row : TxnRow) :
    (routeRow (openGroups.map f) (remaining.map fun e => (f e.1, e.2)) row).1 =
      (routeRow openGroups remaining row).1.map f := by
  unfold routeRow
  cases row.securityId with
  | none => rfl
  | some sid =>
    simp only [drawDown_map]
    split
    · cases (drawDown sid (if truthy row.action = true then some row.actionDelta else none)
        row.absQuantity remaining).1 with
      | none =>
        simp only [Option.map_none, List.find?_map]
        simp only [Function.comp_def, hf]
      | some group => rfl
    · split <;> rfl

/-! ## Routing a cluster -/

/-- What the routing has done with the rows walked so far. -/
structure RouteInv (done : List ActivityRow) (w : Remaining × Routing) : Prop where
  groups : w.1.map Prod.fst = openGroups
  mem : ∀ b ∈ w.2.buckets, b.1 ∈ openGroups
  pks_nodup : (w.2.buckets.map fun b => b.1.pk).Nodup
  ne_nil : ∀ b ∈ w.2.buckets, b.2 ≠ []
  perm : (w.2.buckets.flatMap Prod.snd ++ w.2.rest).Perm done

theorem flatMap_addToBucket_perm {buckets : List (OpenGroup × List ActivityRow)}
    (hpks : (buckets.map fun b => b.1.pk).Nodup) (group : OpenGroup) (row : ActivityRow) :
    ((addToBucket buckets group row).flatMap Prod.snd).Perm
      (buckets.flatMap Prod.snd ++ [row]) := by
  have hother : ∀ l : List (OpenGroup × List ActivityRow), (∀ b ∈ l, b.1.pk ≠ group.pk) →
      (l.map fun b => if b.1.pk = group.pk then (b.1, b.2 ++ [row]) else b) = l := by
    intro l hl
    refine (List.map_congr_left fun b hb => ?_).trans (List.map_id l)
    rw [if_neg (hl b hb), id]
  unfold addToBucket
  split
  · rename_i hany
    induction buckets with
    | nil => simp at hany
    | cons b buckets ih =>
      rw [List.map_cons, List.nodup_cons] at hpks
      rw [List.map_cons, List.flatMap_cons, List.flatMap_cons]
      by_cases hb : b.1.pk = group.pk
      · have hrest : ∀ c ∈ buckets, c.1.pk ≠ group.pk := by
          intro c hc hcg
          exact hpks.1 (List.mem_map.mpr ⟨c, hc, hcg.trans hb.symm⟩)
        rw [if_pos hb, hother buckets hrest, List.append_assoc, List.append_assoc]
        exact List.Perm.append_left _ List.perm_append_comm
      · rw [if_neg hb, List.append_assoc]
        refine List.Perm.append_left _ (ih hpks.2 ?_)
        simpa [hb] using hany
  · simp

theorem pks_addToBucket (buckets : List (OpenGroup × List ActivityRow)) (group : OpenGroup)
    (row : ActivityRow) :
    (addToBucket buckets group row).map (fun b => b.1.pk) =
      if buckets.any fun b => b.1.pk = group.pk then buckets.map fun b => b.1.pk
      else (buckets.map fun b => b.1.pk) ++ [group.pk] := by
  unfold addToBucket
  split
  · rw [List.map_map]
    refine List.map_congr_left fun b _ => ?_
    rw [Function.comp_apply]
    split <;> rfl
  · simp

/-- A bucket after a row is added: it is another group's, or it is the group's with the row at its
end, or it is new. -/
theorem mem_addToBucket {buckets : List (OpenGroup × List ActivityRow)} {group : OpenGroup}
    {row : ActivityRow} {b : OpenGroup × List ActivityRow}
    (hb : b ∈ addToBucket buckets group row) :
    (b ∈ buckets ∧ b.1.pk ≠ group.pk) ∨
      (∃ b' ∈ buckets, b'.1.pk = group.pk ∧ b = (b'.1, b'.2 ++ [row])) ∨
      (b = (group, [row]) ∧ ∀ b' ∈ buckets, b'.1.pk ≠ group.pk) := by
  unfold addToBucket at hb
  split at hb
  · obtain ⟨b', hb', rfl⟩ := List.mem_map.mp hb
    by_cases h : b'.1.pk = group.pk
    · exact Or.inr (Or.inl ⟨b', hb', h, if_pos h⟩)
    · rw [if_neg h]
      exact Or.inl ⟨hb', h⟩
  · rename_i hnew
    have hother : ∀ b' ∈ buckets, b'.1.pk ≠ group.pk := by simpa using hnew
    rcases List.mem_append.mp hb with hb | hb
    · exact Or.inl ⟨hb, hother b hb⟩
    · exact Or.inr (Or.inr ⟨List.mem_singleton.mp hb, hother⟩)

/-- Every group that had a bucket has one, and so has the row's group. -/
theorem exists_addToBucket {buckets : List (OpenGroup × List ActivityRow)} {group : OpenGroup}
    {row : ActivityRow} {pk : ℕ} (h : pk = group.pk ∨ ∃ b ∈ buckets, b.1.pk = pk) :
    ∃ b ∈ addToBucket buckets group row, b.1.pk = pk := by
  have hpk : pk ∈ (addToBucket buckets group row).map fun b => b.1.pk := by
    rw [pks_addToBucket]
    split
    · rename_i hany
      rcases h with rfl | ⟨b, hb, rfl⟩
      · obtain ⟨b, hb, heq⟩ := List.any_eq_true.mp hany
        exact List.mem_map.mpr ⟨b, hb, of_decide_eq_true heq⟩
      · exact List.mem_map_of_mem (f := fun b => b.1.pk) hb
    · rcases h with rfl | ⟨b, hb, rfl⟩
      · exact List.mem_append_right _ (List.mem_singleton_self _)
      · exact List.mem_append_left _ (List.mem_map_of_mem (f := fun b => b.1.pk) hb)
  obtain ⟨b, hb, rfl⟩ := List.mem_map.mp hpk
  exact ⟨b, hb, rfl⟩

theorem RouteInv.step {done : List ActivityRow} {w : Remaining × Routing}
    (h : RouteInv openGroups done w) (row : ActivityRow) :
    RouteInv openGroups (done ++ [row]) (routeStep openGroups w row) := by
  have hgroups : (routeRow openGroups w.1 row.toTxnRow).2.map Prod.fst = openGroups := by
    rw [map_fst_routeRow, h.groups]
  unfold routeStep
  simp only []
  cases hroute : (routeRow openGroups w.1 row.toTxnRow).1 with
  | none =>
    refine ⟨hgroups, h.mem, h.pks_nodup, h.ne_nil, ?_⟩
    simp only []
    rw [← List.append_assoc]
    exact h.perm.append_right _
  | some group =>
    have hgroup : group ∈ openGroups := mem_of_routeRow openGroups h.groups hroute
    refine ⟨hgroups, ?_, ?_, ?_, ?_⟩
    · intro b hb
      rcases mem_addToBucket hb with ⟨hb, -⟩ | ⟨b', hb', -, rfl⟩ | ⟨rfl, -⟩
      · exact h.mem b hb
      · exact h.mem b' hb'
      · exact hgroup
    · simp only [pks_addToBucket]
      split
      · exact h.pks_nodup
      · rename_i hany
        refine List.nodup_append.mpr ⟨h.pks_nodup, by simp, ?_⟩
        intro pk hpk pk' hpk' heq
        obtain rfl : pk' = group.pk := by simpa using hpk'
        obtain ⟨b, hb, rfl⟩ := List.mem_map.mp hpk
        exact hany (List.any_eq_true.mpr ⟨b, hb, by simpa using heq⟩)
    · intro b hb
      rcases mem_addToBucket hb with ⟨hb, -⟩ | ⟨b', -, -, rfl⟩ | ⟨rfl, -⟩
      · exact h.ne_nil b hb
      · simp
      · simp
    · simp only []
      refine ((flatMap_addToBucket_perm h.pks_nodup group row).append_right _).trans ?_
      have hswap : (w.2.buckets.flatMap Prod.snd ++ [row] ++ w.2.rest).Perm
          (w.2.buckets.flatMap Prod.snd ++ w.2.rest ++ [row]) := by
        rw [List.append_assoc, List.append_assoc]
        exact List.Perm.append_left _ List.perm_append_comm
      exact hswap.trans (h.perm.append_right _)

theorem RouteInv.steps {done : List ActivityRow} {w : Remaining × Routing}
    (h : RouteInv openGroups done w) (rows : List ActivityRow) :
    RouteInv openGroups (done ++ rows) (rows.foldl (routeStep openGroups) w) := by
  induction rows generalizing done w with
  | nil => simpa using h
  | cons row rows ih => simpa using ih (h.step openGroups row)

theorem routeCluster_inv (cluster : List ActivityRow) :
    RouteInv openGroups cluster (cluster.foldl (routeStep openGroups)
      (openGroups.map fun g => (g, netQuantities g.rows), {})) := by
  have hinit : RouteInv openGroups []
      (openGroups.map fun g => (g, netQuantities g.rows), {}) := by
    refine ⟨?_, by simp, by simp, by simp, by simp⟩
    simp [List.map_map, Function.comp_def]
  simpa using hinit.steps openGroups cluster

variable (cluster : List ActivityRow)

/-- Routing partitions a cluster. -/
theorem routeCluster_perm :
    ((routeCluster openGroups cluster).buckets.flatMap Prod.snd ++
      (routeCluster openGroups cluster).rest).Perm cluster :=
  (routeCluster_inv openGroups cluster).perm

theorem mem_of_mem_buckets {b : OpenGroup × List ActivityRow}
    (hb : b ∈ (routeCluster openGroups cluster).buckets) : b.1 ∈ openGroups :=
  (routeCluster_inv openGroups cluster).mem b hb

theorem nodup_bucket_pks :
    ((routeCluster openGroups cluster).buckets.map fun b => b.1.pk).Nodup :=
  (routeCluster_inv openGroups cluster).pks_nodup

end Route

end TtLedger
