import TtLedger.Ingest.PassLaws
import Mathlib.Data.List.ReduceOption

/-!
# Laws of the intent branch

A candidate whose order names a stored group ends in that group, whatever else its cluster holds
(`groupOf_routeLoop_of_intent`): of all steps of the cluster loop only the one for that group
attaches it. An order none of whose candidates is left to be routed keeps its row
(`getOrder_routeLoop`): only the orders of a new group are written.
-/

namespace TtLedger

/-! ## Groups after one step -/

section Steps

variable (s : InMemoryStore) (id : String)

theorem groupOf_attached (ids : List String) (pk : ℕ) :
    (s.attached ids pk).groupOf id =
      if id ∈ ids ∧ (s.txn id).isSome = true then some pk else s.groupOf id := by
  rw [InMemoryStore.groupOf, InMemoryStore.txn_attached, InMemoryStore.groupOf]
  cases ht : s.txn id with
  | none => simp
  | some t =>
    simp only [Option.map_some, Option.bind_some, InMemoryStore.attachRow_group, s.txn_key ht,
      Option.isSome_some, and_true]

theorem isSome_txn_attached (ids : List String) (pk : ℕ) :
    ((s.attached ids pk).txn id).isSome = (s.txn id).isSome := by
  rw [InMemoryStore.txn_attached, Option.isSome_map]

/-- The group a key stands for has that key. -/
theorem pk_groupForPkResult {openGroups : List OpenGroup} {pk : ℕ} {group : OpenGroup}
    (h : (groupForPkResult s openGroups pk).1 = some group) : group.pk = pk := by
  unfold groupForPkResult at h
  cases hfind : openGroups.find? fun g => g.pk = pk with
  | some g =>
    rw [hfind] at h
    obtain rfl := Option.some.inj h
    simpa using List.find?_some hfind
  | none =>
    rw [hfind] at h
    cases htg : s.getTradeGroupById pk with
    | none =>
      rw [htg] at h
      cases h
    | some tg =>
      rw [htg] at h
      obtain rfl := Option.some.inj h
      rfl

/-- A stored group is found. -/
theorem isSome_groupForPkResult (openGroups : List OpenGroup) {pk : ℕ}
    (h : (s.getTradeGroupById pk).isSome = true) :
    (groupForPkResult s openGroups pk).1.isSome = true := by
  obtain ⟨tg, htg⟩ := Option.isSome_iff_exists.mp h
  unfold groupForPkResult
  cases openGroups.find? fun g => g.pk = pk with
  | some g => rfl
  | none => rw [htg]; rfl

theorem mem_idsOf_iff (rows : List ActivityRow) :
    id ∈ idsOf rows ↔ id ∈ (openingRows rows).map TxnRow.ttTransactionId ∨
      id ∈ (closingRows rows).map TxnRow.ttTransactionId := by
  rw [← List.mem_append]
  exact (openingRows_closingRows_perm rows).mem_iff.symm

/-- The step for one group attaches the rows pre-attributed to it, when it finds the group. -/
theorem groupOf_intentStep (w : (List OpenGroup × List ActivityRow) × InMemoryStore)
    (e : ℕ × List ActivityRow) :
    (intentStep w e).2.groupOf id =
      if id ∈ idsOf e.2 ∧ (w.2.txn id).isSome = true ∧
          (groupForPkResult w.2 w.1.1 e.1).1.isSome = true then some e.1
      else w.2.groupOf id := by
  unfold intentStep
  simp only []
  cases hgroup : (groupForPkResult w.2 w.1.1 e.1).1 with
  | none => simp
  | some group =>
    have hpk := pk_groupForPkResult w.2 hgroup
    have htransactions : (intentExitState (openingState w.2 group (openingRows e.2))
        (group.extendUnique (openingRows e.2)) (closingRows e.2)).transactions =
          ((w.2.attached ((openingRows e.2).map TxnRow.ttTransactionId) e.1).attached
            ((closingRows e.2).map TxnRow.ttTransactionId) e.1).transactions := by
      rw [transactions_intentExitState, ← hpk]
      simp only [InMemoryStore.attached, InMemoryStore.attachTransactionsToTradeGroup]
      rw [transactions_openingState]
      rfl
    simp only [Option.isSome_some, and_true, mem_idsOf_iff]
    rw [groupOf_congr htransactions, groupOf_attached, groupOf_attached, isSome_txn_attached]
    by_cases hc : id ∈ (closingRows e.2).map TxnRow.ttTransactionId
    · by_cases hs : (w.2.txn id).isSome = true
      · simp only [hs, hc, or_true, true_and, if_true]
      · simp only [hs, and_false, if_false, Bool.false_eq_true]
    · simp only [hc, or_false, false_and, if_false]

end Steps

/-! ## Pre-attributed rows of a cluster -/

section Intent

variable {id : String} {pk : ℕ}

theorem groupOf_intentSteps (entries : List (ℕ × List ActivityRow))
    (w : (List OpenGroup × List ActivityRow) × InMemoryStore) (hb : Backed w.2 w.1.1)
    (hpk : (w.2.getTradeGroupById pk).isSome = true) (hs : (w.2.txn id).isSome = true)
    (hentries : ∀ e ∈ entries, id ∈ idsOf e.2 → e.1 = pk)
    (h : w.2.groupOf id = some pk ∨ ∃ e ∈ entries, id ∈ idsOf e.2) :
    (entries.foldl intentStep w).2.groupOf id = some pk := by
  induction entries generalizing w with
  | nil => exact h.resolve_right (by simp)
  | cons e entries ih =>
    obtain ⟨ids, hattach, hb', -⟩ := attaches_intentStep w e hb
    rw [List.foldl_cons]
    apply ih (intentStep w e) hb' (hattach.keeps pk hpk) ((hattach.isSome_txn id).trans hs)
      fun e' he' => hentries e' (.tail _ he')
    rw [groupOf_intentStep]
    by_cases hid : id ∈ idsOf e.2
    · obtain rfl := hentries e (by simp) hid
      exact Or.inl (if_pos ⟨hid, hs, isSome_groupForPkResult w.2 w.1.1 hpk⟩)
    · rw [if_neg fun hmem => hid hmem.1]
      refine h.imp_right ?_
      rintro ⟨e', he', hid'⟩
      rcases List.mem_cons.mp he' with rfl | he'
      · exact absurd hid' hid
      · exact ⟨e', he', hid'⟩

/-- The rows named `id` are pre-attributed to the group. -/
def Intends (id : String) (pk : ℕ) (rows : List ActivityRow) : Prop :=
  ∀ a ∈ rows, a.ttTransactionId = id → a.orderTradeGroupId = some pk

theorem Intends.mono {rows rows' : List ActivityRow} (h : Intends id pk rows)
    (hsub : rows' ⊆ rows) : Intends id pk rows' := fun a ha => h a (hsub ha)

theorem mem_intentOf {cluster : List ActivityRow} {e : ℕ × List ActivityRow} {a : ActivityRow}
    (he : e ∈ (intentOf cluster).entries) (ha : a ∈ e.2) :
    a ∈ cluster ∧ a.orderTradeGroupId = some e.1 := by
  obtain ⟨-, hvs⟩ := mem_groupBy.mp he
  rw [hvs, List.mem_filter] at ha
  exact ⟨ha.1, by simpa using ha.2⟩

variable {s : InMemoryStore}

/-- The pre-attributed rows of a cluster join their group. -/
theorem groupOf_intentRows (openGroups : List OpenGroup) (cluster : List ActivityRow)
    (hb : Backed s openGroups) (hpk : (s.getTradeGroupById pk).isSome = true)
    (hs : (s.txn id).isSome = true) (hid : id ∈ idsOf cluster) (hin : Intends id pk cluster) :
    (intentRows s openGroups cluster false).2.groupOf id = some pk := by
  apply groupOf_intentSteps _ _ hb hpk hs
  · intro e he hmem
    obtain ⟨a, ha, rfl⟩ := List.mem_map.mp hmem
    obtain ⟨hac, hk⟩ := mem_intentOf he ha
    exact Option.some.inj (hk.symm.trans (hin a hac rfl))
  · obtain ⟨a, ha, rfl⟩ := List.mem_map.mp hid
    refine Or.inr ⟨(pk, cluster.filter fun b => b.orderTradeGroupId == some pk),
      mem_groupBy.mpr ⟨⟨a, ha, hin a ha rfl⟩, rfl⟩, ?_⟩
    exact List.mem_map.mpr ⟨a, List.mem_filter.mpr ⟨ha, by simp [hin a ha rfl]⟩, rfl⟩

/-- Rows left to be routed are rows of the cluster. -/
theorem leftRows_subset (openGroups : List OpenGroup) (cluster : List ActivityRow) :
    (intentRows s openGroups cluster false).1.2 ⊆ cluster := by
  have hall : ∀ (entries : List (ℕ × List ActivityRow))
      (w : (List OpenGroup × List ActivityRow) × InMemoryStore),
      (∀ e ∈ entries, e.2 ⊆ cluster) → w.1.2 ⊆ cluster →
        (entries.foldl intentStep w).1.2 ⊆ cluster := by
    intro entries
    induction entries with
    | nil => exact fun w _ hw => hw
    | cons e entries ih =>
      intro w he hw
      apply ih _ fun e' he' => he e' (.tail _ he')
      unfold intentStep
      simp only []
      split
      · exact List.append_subset.mpr ⟨hw, he e (by simp)⟩
      · exact hw
  exact hall _ _ (fun e he a ha => (mem_intentOf he ha).1)
    fun a ha => List.mem_of_mem_filter ha

/-- A row that joins its group is not left to be routed. -/
theorem notMem_leftRows (openGroups : List OpenGroup) (cluster : List ActivityRow)
    (hb : Backed s openGroups) (hpk : (s.getTradeGroupById pk).isSome = true)
    (hs : s.groupOf id = none) (hstored : (s.txn id).isSome = true)
    (hnodup : (idsOf cluster).Nodup) (hid : id ∈ idsOf cluster) (hin : Intends id pk cluster) :
    id ∉ idsOf (intentRows s openGroups cluster false).1.2 := by
  obtain ⟨ids, hattach, -, hp⟩ := attaches_intentRows openGroups cluster hb
  have hgroup := groupOf_intentRows openGroups cluster hb hpk hstored hid hin
  have hmem : id ∈ ids := by
    by_contra hnot
    rw [hattach.groupOf_of_notMem hnot, hs] at hgroup
    cases hgroup
  intro hleft
  exact (List.nodup_append.mp (hp.nodup_iff.mpr hnodup)).2.2 id hmem id hleft rfl

end Intent

/-! ## Orders -/

section Orders

variable {s : InMemoryStore} {k : String}

/-- Upserting other orders leaves an order alone. -/
theorem getOrder_upsertOrders_of_ne {rows : List OrderRow}
    (h : ∀ row ∈ rows, ∃ k', row.ttOrderId = some k' ∧ k ≠ k') :
    (s.upsertOrders rows).2.getOrder k = s.getOrder k := by
  apply InMemoryStore.upsertOrders_induction (P := fun s' => s'.getOrder k = s.getOrder k) s rows
    rfl
  intro row hrow s' hs'
  obtain ⟨k', hk', hne⟩ := h row hrow
  rw [← hs']
  unfold InMemoryStore.upsertOrder InMemoryStore.getOrder
  simp only []
  split
  · rw [Table.getByKey_upsert _ _ (show OrderRow.key (InMemoryStore.preserveOrder _ row) = some k'
      from hk'), if_neg hne]
  · rw [Table.getByKey_upsert _ _ (show OrderRow.key row = some k' from hk'), if_neg hne]

/-- A new group writes the orders its rows name. -/
theorem getOrder_createState (account : String) {cluster : List TxnRow}
    (h : ∀ r ∈ cluster, r.ttOrderId ≠ some k) :
    (createState s account cluster).getOrder k = s.getOrder k := by
  have hstamped : (stampedOrders (groupAttached s account cluster) (newPk s account cluster)
      cluster).getOrder k = (groupAttached s account cluster).getOrder k := by
    apply getOrder_upsertOrders_of_ne
    intro row hrow
    obtain ⟨k', hk', hrow⟩ := List.mem_filterMap.mp hrow
    obtain ⟨order, horder, rfl⟩ := Option.map_eq_some_iff.mp hrow
    refine ⟨k', (Table.getByKey_eq_some.mp horder).2, ?_⟩
    rintro rfl
    rw [ttOrderIds, List.mem_eraseDups, List.reduceOption_mem_iff, List.mem_filter,
      List.mem_map] at hk'
    obtain ⟨⟨r, hr, hrk⟩, -⟩ := hk'
    exact h r hr hrk
  exact hstamped

theorem orders_intentRows (openGroups : List OpenGroup) (cluster : List ActivityRow) :
    (intentRows s openGroups cluster false).2.orders = s.orders := by
  have hall : ∀ (entries : List (ℕ × List ActivityRow))
      (w : (List OpenGroup × List ActivityRow) × InMemoryStore),
      (entries.foldl intentStep w).2.orders = w.2.orders := by
    intro entries
    induction entries with
    | nil => exact fun w => rfl
    | cons e entries ih =>
      intro w
      rw [List.foldl_cons, ih]
      unfold intentStep
      simp only []
      split
      · rfl
      · rw [orders_intentExitState, orders_openingState]
  exact hall _ _

theorem orders_buckets (newPk : Option ℕ) (rest : List TxnRow)
    (buckets : List (OpenGroup × List ActivityRow)) (w : Pass × InMemoryStore) :
    (buckets.foldl (bucketStep newPk rest) w).2.orders = w.2.orders := by
  induction buckets generalizing w with
  | nil => rfl
  | cons b buckets ih =>
    rw [List.foldl_cons, ih]
    exact orders_exitState _ _ _ _ _

/-- A cluster none of whose routed rows names an order leaves the order alone. -/
theorem getOrder_clusterStep (account : String) (w : Pass × InMemoryStore)
    (cluster : List ActivityRow)
    (h : ∀ a ∈ (intentRows w.2 w.1.openGroups cluster false).1.2, a.ttOrderId ≠ some k) :
    (clusterStep account false w cluster).2.getOrder k = w.2.getOrder k := by
  have hintent : (intentRows w.2 w.1.openGroups cluster false).2.getOrder k = w.2.getOrder k := by
    rw [InMemoryStore.getOrder, orders_intentRows, InMemoryStore.getOrder]
  unfold clusterStep
  simp only [Bool.false_eq_true, if_false]
  split
  · exact hintent
  · rw [InMemoryStore.getOrder, orders_buckets, ← hintent]
    unfold restStep
    split
    · rfl
    · simp only [Bool.false_eq_true, if_false]
      apply getOrder_createState
      intro r hr
      obtain ⟨a, ha, rfl⟩ := List.mem_map.mp hr
      refine h a ((routeCluster_perm _ _).subset (List.mem_append_right _ ha))

end Orders

/-! ## The cluster loop -/

section Loop

variable {s : InMemoryStore} {id k : String} {pk : ℕ}

theorem groupOf_clusterStep (account : String) (w : Pass × InMemoryStore)
    (cluster : List ActivityRow) (hb : Backed w.2 w.1.openGroups)
    (hpk : (w.2.getTradeGroupById pk).isSome = true) (hs : w.2.groupOf id = none)
    (hstored : (w.2.txn id).isSome = true) (hnodup : (idsOf cluster).Nodup)
    (hid : id ∈ idsOf cluster) (hin : Intends id pk cluster) :
    (clusterStep account false w cluster).2.groupOf id = some pk := by
  obtain ⟨-, -, hb₁, -⟩ := attaches_intentRows w.1.openGroups cluster hb
  obtain ⟨hleft, -⟩ := attaches_leftRows account w cluster hb₁
  rw [hleft.groupOf_of_notMem
    (notMem_leftRows w.1.openGroups cluster hb hpk hs hstored hnodup hid hin)]
  exact groupOf_intentRows w.1.openGroups cluster hb hpk hstored hid hin

theorem groupOf_clusterSteps (account : String) (clusters : List (List ActivityRow))
    (w : Pass × InMemoryStore) (hb : Backed w.2 w.1.openGroups)
    (hpk : (w.2.getTradeGroupById pk).isSome = true) (hs : w.2.groupOf id = none)
    (hstored : (w.2.txn id).isSome = true) (hnodup : (idsOf clusters.flatten).Nodup)
    (hid : id ∈ idsOf clusters.flatten) (hin : Intends id pk clusters.flatten) :
    (clusters.foldl (clusterStep account false) w).2.groupOf id = some pk := by
  induction clusters generalizing w with
  | nil => cases hid
  | cons cluster clusters ih =>
    rw [List.flatten_cons] at hnodup hid hin
    rw [idsOf_append] at hnodup hid
    obtain ⟨hn₁, hn₂, hdisjoint⟩ := List.nodup_append.mp hnodup
    obtain ⟨hstep, hb'⟩ := attaches_clusterStep account w cluster hb
    rw [List.foldl_cons]
    by_cases hmem : id ∈ idsOf cluster
    · -- attached here, and by no later cluster
      have hlater := attaches_clusterSteps account clusters _ hb'
      rw [hlater.groupOf_of_notMem fun h => hdisjoint id hmem id h rfl]
      exact groupOf_clusterStep account w cluster hb hpk hs hstored hn₁ hmem
        (hin.mono (List.subset_append_left _ _))
    · exact ih _ hb' (hstep.keeps pk hpk) ((hstep.groupOf_of_notMem hmem).trans hs)
        ((hstep.isSome_txn id).trans hstored) hn₂ ((List.mem_append.mp hid).resolve_left hmem)
        (hin.mono (List.subset_append_right _ _))

theorem nodup_idsOf_candidatesOf (account : String) (args : ReconcileArgs) :
    (idsOf (candidatesOf s account args)).Nodup := by
  rw [candidatesOf_eq, idsOf, List.map_map]
  exact (List.Sublist.map _ List.filter_sublist).nodup s.nodup_ids

/-- **A candidate whose order names a stored group ends in that group.** -/
theorem groupOf_routeLoop_of_intent {account : String} {args : ReconcileArgs}
    (hdry : args.dryRun = false) {a : ActivityRow} (ha : a ∈ candidatesOf s account args)
    (hpk : a.orderTradeGroupId = some pk) (hstored : (s.getTradeGroupById pk).isSome = true) :
    (routeLoop s account args).2.groupOf a.ttTransactionId = some pk := by
  have hperm := clusterByTime_perm (candidatesOf s account args)
  have hnodup := nodup_idsOf_candidatesOf (s := s) account args
  have hmem : a.ttTransactionId ∈ idsOf (candidatesOf s account args) := List.mem_map_of_mem ha
  unfold routeLoop
  rw [hdry]
  apply groupOf_clusterSteps account _ _ (backed_openGroupsOf s account) hstored
    (groupOf_candidate s account args hmem)
  · obtain ⟨t, ht, -⟩ := (mem_idsOf_candidatesOf s account args).mp hmem
    rw [ht]
    rfl
  · exact (hperm.map _).nodup_iff.mpr hnodup
  · exact (hperm.map _).mem_iff.mpr hmem
  · intro b hb hid
    have hb' := hperm.subset hb
    obtain rfl : b = a := List.inj_on_of_nodup_map hnodup hb' ha hid
    exact hpk

/-- **An order whose candidates are all pre-attributed to stored groups keeps its row.** -/
theorem getOrder_routeLoop {account : String} {args : ReconcileArgs} (hdry : args.dryRun = false)
    (h : ∀ a ∈ candidatesOf s account args, a.ttOrderId = some k →
      ∃ pk, a.orderTradeGroupId = some pk ∧ (s.getTradeGroupById pk).isSome = true) :
    (routeLoop s account args).2.getOrder k = s.getOrder k := by
  have hperm := clusterByTime_perm (candidatesOf s account args)
  have hall : ∀ (clusters : List (List ActivityRow)) (w : Pass × InMemoryStore),
      Backed w.2 w.1.openGroups → (idsOf clusters.flatten).Nodup →
      (∀ a ∈ clusters.flatten, w.2.groupOf a.ttTransactionId = none ∧
        (w.2.txn a.ttTransactionId).isSome = true ∧ (a.ttOrderId = some k →
          ∃ pk, a.orderTradeGroupId = some pk ∧ (w.2.getTradeGroupById pk).isSome = true)) →
      (clusters.foldl (clusterStep account false) w).2.getOrder k = w.2.getOrder k := by
    intro clusters
    induction clusters with
    | nil => exact fun w _ _ _ => rfl
    | cons cluster clusters ih =>
      intro w hb hnodup hrows
      rw [List.flatten_cons] at hnodup hrows
      rw [idsOf_append] at hnodup
      obtain ⟨hn₁, hn₂, hdisjoint⟩ := List.nodup_append.mp hnodup
      obtain ⟨hstep, hb'⟩ := attaches_clusterStep account w cluster hb
      rw [List.foldl_cons, ih _ hb' hn₂]
      · apply getOrder_clusterStep
        intro a ha hk
        have hac := leftRows_subset w.1.openGroups cluster ha
        obtain ⟨hs, hstored, hintent⟩ := hrows a (List.mem_append_left _ hac)
        obtain ⟨pk, hpk, hgroup⟩ := hintent hk
        refine notMem_leftRows w.1.openGroups cluster hb hgroup hs hstored hn₁
          (List.mem_map_of_mem hac) ?_ (List.mem_map_of_mem ha)
        intro b hbc hid
        obtain rfl : b = a := List.inj_on_of_nodup_map hn₁ hbc hac hid
        exact hpk
      · intro a ha
        obtain ⟨hs, hstored, hintent⟩ := hrows a (List.mem_append_right _ ha)
        have hnot : a.ttTransactionId ∉ idsOf cluster := fun hmem =>
          hdisjoint _ hmem _ (List.mem_map_of_mem ha) rfl
        refine ⟨(hstep.groupOf_of_notMem hnot).trans hs, (hstep.isSome_txn _).trans hstored, ?_⟩
        intro hk
        obtain ⟨pk, hpk, hgroup⟩ := hintent hk
        exact ⟨pk, hpk, hstep.keeps pk hgroup⟩
  unfold routeLoop
  rw [hdry]
  apply hall _ _ (backed_openGroupsOf s account)
  · exact (hperm.map _).nodup_iff.mpr (nodup_idsOf_candidatesOf account args)
  · intro a ha
    have hac := hperm.subset ha
    have hmem : a.ttTransactionId ∈ idsOf (candidatesOf s account args) := List.mem_map_of_mem hac
    obtain ⟨t, ht, -⟩ := (mem_idsOf_candidatesOf s account args).mp hmem
    exact ⟨groupOf_candidate s account args hmem, by rw [ht]; rfl, h a hac⟩

end Loop

end TtLedger
