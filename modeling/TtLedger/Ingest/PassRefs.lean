import TtLedger.Ingest.References
import TtLedger.Ingest.RouteLaws

/-!
# The references of a pass

A reconcile pass passes on what it was given (`passes_reconcile`): the groups it writes to are open
groups it has loaded, groups named by orders it has read and groups it has created, and the orders
and securities it writes are those of replies. There is one rule for each program of the pass;
`groupRefs` and `Pass.refs` are the references it carries along.
-/

namespace TtLedger

open LedgerStore Prog Ref
open Prog.References (Passes)

/-! ## Rules -/

section Rules

variable {α : Type} {K : List Ref}

/-- One call, and what its reply brings. -/
theorem passes_issue {op : LedgerOp} (hop : op.refs ⊆ K) :
    ledgerRefs.Passes K (issue op) op.gotRefs :=
  .invoke hop fun _ => List.subset_append_right _ _

/-- A call whose reply is not looked into. -/
theorem passes_quiet {op : LedgerOp} (hop : op.refs ⊆ K) :
    ledgerRefs.Passes K (issue op) fun _ => [] :=
  .invoke hop fun _ => List.nil_subset _

theorem passes_reads {p : LedgerProg α} (hp : ReadOnly p) : ledgerRefs.Passes K p fun _ => [] :=
  .of_calls (hp.calls.mono fun op hop => by cases op <;> first | rfl | exact hop.elim)

@[simp] theorem gotRefs_getOrder_some (k : String) (o : OrderRow) :
    (LedgerOp.getOrder k).gotRefs (some o) = o.refs := by
  simp [LedgerOp.gotRefs]

end Rules

/-! ## Open groups -/

/-- The references of open groups. -/
def groupRefs (openGroups : List OpenGroup) : List Ref := openGroups.map fun g => tradeGroup g.pk

section Passes

variable {K : List Ref}

theorem mem_groupRefs {openGroups : List OpenGroup} {g : OpenGroup} (hg : g ∈ openGroups) :
    tradeGroup g.pk ∈ groupRefs openGroups := List.mem_map_of_mem hg

theorem groupRefs_replaceGroup (openGroups : List OpenGroup) (group : OpenGroup) :
    groupRefs (replaceGroup openGroups group) ⊆ groupRefs openGroups := by
  intro ref href
  obtain ⟨g, hg, rfl⟩ := List.mem_map.mp href
  obtain ⟨g', hg', rfl⟩ := List.mem_map.mp hg
  split
  · rename_i hpk
    exact hpk ▸ mem_groupRefs hg'
  · exact mem_groupRefs hg'

theorem groupRefs_removeGroup (openGroups : List OpenGroup) (pk : ℕ) :
    groupRefs (removeGroup openGroups pk) ⊆ groupRefs openGroups :=
  List.map_subset _ (List.filter_subset_self _)

theorem passes_loadOpenGroups (account : String) :
    ledgerRefs.Passes K (loadOpenGroups account) groupRefs := by
  refine (passes_issue (List.nil_subset _)).bind fun trades => ?_
  refine .foldlM _ (fun groups trade _ => ?_) (List.nil_subset _)
  refine (passes_issue (List.nil_subset _)).bind fun pk? => ?_
  split
  · refine .pure ?_
    grind
  · rename_i pk
    refine (passes_quiet (List.nil_subset _)).bind fun rows => .pure ?_
    grind [groupRefs, LedgerOp.gotRefs, opt_some]

/-! ## Exits -/

theorem passes_stampGroup (group : OpenGroup) (closedAt : Option Datetime) :
    ledgerRefs.Passes K (stampGroup group closedAt) fun _ => [] := by
  refine (passes_quiet (List.nil_subset _)).bind fun tg? => ?_
  split
  · exact .pure (List.nil_subset _)
  · refine (passes_reads (readOnly_groupRealized _)).bind fun realized => ?_
    exact (passes_quiet (List.nil_subset _)).bind fun _ => .pure (List.nil_subset _)

/-- The events of an exit refer to its group, and to the groups it continues in. -/
theorem refs_exitEvents {pk : ℕ} {rows : List TxnRow} {closed : Bool}
    {rolledToPk deliveryPk : Option ℕ} {event : EventRow}
    (h : event ∈ exitEvents pk rows closed rolledToPk deliveryPk) :
    event.refs ⊆ tradeGroup pk :: opt tradeGroup rolledToPk ++ opt tradeGroup deliveryPk := by
  simp only [exitEvents, List.mem_append] at h
  rcases h with (h | h) | h
  · split at h
    · cases h
    · obtain rfl := List.mem_singleton.mp h
      simp [EventRow.refs, exitEvent]
  · obtain ⟨e, -, rfl⟩ := List.mem_map.mp h
    simp only [EventRow.refs, settlementEvent]
    split <;> grind [opt_none]
  · split at h
    · obtain rfl := List.mem_singleton.mp h
      simp [EventRow.refs]
    · cases h

theorem passes_applyExit {group : OpenGroup} {rolledToPk deliveryPk : Option ℕ}
    (hgroup : tradeGroup group.pk ∈ K) (hrolled : opt tradeGroup rolledToPk ⊆ K)
    (hdelivery : opt tradeGroup deliveryPk ⊆ K) (rows : List TxnRow) :
    ledgerRefs.Passes K (applyExit group rows rolledToPk deliveryPk)
      fun a => [tradeGroup a.group.pk] := by
  refine (passes_quiet (by simpa [LedgerOp.refs])).bind fun _ => ?_
  simp only []
  split
  · exact (passes_quiet (List.nil_subset _)).bind fun tg => .pure (by simpa)
  · refine (Passes.forM fun event hevent => ?_).bind fun _ => ?_
    · refine passes_quiet (List.Subset.trans (refs_exitEvents hevent) ?_)
      grind [OpenGroup.extendUnique]
    · split
      · exact (passes_stampGroup _ _).bind fun _ => .pure (by simpa)
      · exact .pure (by simpa)

/-! ## Lapses -/

@[simp] theorem refs_lapseRow (account securityId : String) (sec : SecurityRow) (expiry : Date)
    (points : ℚ) (pk : ℕ) (groupNet : ℚ) :
    (lapseRow account securityId sec expiry points pk groupNet).refs =
      [security securityId, tradeGroup pk] := by
  simp [TxnRow.refs, lapseRow]

theorem refs_lapseRows (account securityId : String) (sec : SecurityRow) (expiry : Date)
    (points : ℚ) (openGroups : List OpenGroup) :
    (lapseRows account securityId sec expiry points openGroups).flatMap TxnRow.refs ⊆
      security securityId :: groupRefs openGroups := by
  intro ref href
  obtain ⟨row, hrow, href⟩ := List.mem_flatMap.mp href
  obtain ⟨g, hg, hsome⟩ := List.mem_filterMap.mp hrow
  have hpk := mem_groupRefs ((mem_sortOn _).mp hg)
  simp only [] at hsome
  split at hsome
  · cases hsome
  · obtain rfl := Option.some.inj hsome
    rw [refs_lapseRow] at href
    grind

theorem passes_synthesizeLapsedSettlements (account : String) (args : ReconcileArgs) :
    ledgerRefs.Passes K (synthesizeLapsedSettlements account args) fun _ => [] := by
  refine (passes_quiet (List.nil_subset _)).bind fun activity => ?_
  split
  · exact .pure (List.nil_subset _)
  · rename_i lastActivity _
    refine (passes_loadOpenGroups account).bind fun openGroups => ?_
    refine Passes.bind (Φ := fun rows => rows.flatMap TxnRow.refs) ?_ fun synthesized => ?_
    · refine .foldlM _ (fun rows securityId _ => ?_) (List.nil_subset _)
      refine (passes_issue (List.nil_subset _)).bind fun sec? => ?_
      split
      · exact .pure (by grind)
      · rename_i sec
        split
        · exact .pure (by grind)
        · rename_i expiry _
          refine (passes_reads ((lookup_settlePoints args sec securityId expiry).mono
            fun _ => LedgerOp.IsLookup.isRead)).bind fun points => ?_
          split
          · exact .pure (by grind)
          · rename_i points
            refine .pure ?_
            have hrows := refs_lapseRows account securityId sec expiry points openGroups
            rw [List.flatMap_append]
            grind [LedgerOp.gotRefs]
    · simp only []
      split
      · refine (passes_quiet (by simp [LedgerOp.refs])).bind fun _ => ?_
        refine (Passes.forM fun group hgroup => ?_).bind fun _ => .pure (List.nil_subset _)
        unfold applyLapse
        simp only []
        split
        · exact .pure (List.nil_subset _)
        · have hpk := mem_groupRefs hgroup
          refine (passes_applyExit (by grind) (by simp) (by simp) _).bind fun _ => ?_
          exact .pure (List.nil_subset _)
      · exact .pure (List.nil_subset _)

/-! ## Pre-attributed rows -/

theorem passes_groupForPk {openGroups : List OpenGroup} (hgroups : groupRefs openGroups ⊆ K)
    {pk : ℕ} (hpk : tradeGroup pk ∈ K) :
    ledgerRefs.Passes K (groupForPk openGroups pk)
      fun w => groupRefs w.1.toList ++ groupRefs w.2 := by
  unfold groupForPk
  split
  · rename_i g hfound
    have hg := mem_groupRefs (List.mem_of_find?_eq_some hfound)
    refine .pure ?_
    grind [groupRefs]
  · refine (passes_quiet (List.nil_subset _)).bind fun tg? => ?_
    split
    · exact .pure (by simpa [groupRefs] using hgroups)
    · refine (passes_quiet (List.nil_subset _)).bind fun rows => .pure ?_
      grind [groupRefs]

theorem passes_refreshGroupFinancials (group : OpenGroup) :
    ledgerRefs.Passes K (refreshGroupFinancials group) fun _ => [] := by
  refine (passes_quiet (List.nil_subset _)).bind fun tg? => ?_
  split
  · exact .pure (List.nil_subset _)
  · refine (passes_reads (readOnly_computeGroupFields _)).bind fun fields => ?_
    exact (passes_quiet (List.nil_subset _)).bind fun _ => .pure (List.nil_subset _)

theorem passes_attachOpening {group : OpenGroup} (hgroup : tradeGroup group.pk ∈ K)
    (opening : List TxnRow) :
    ledgerRefs.Passes K (attachOpening group opening) fun g => [tradeGroup g.pk] := by
  unfold attachOpening
  split
  · exact .pure (by simpa)
  · refine (passes_quiet (by simpa [LedgerOp.refs])).bind fun _ => ?_
    exact (passes_refreshGroupFinancials _).bind fun _ => .pure (by simpa)

theorem passes_applyIntentExit {openGroups : List OpenGroup} (hgroups : groupRefs openGroups ⊆ K)
    {group : OpenGroup} (hgroup : tradeGroup group.pk ∈ K) (closing : List TxnRow) :
    ledgerRefs.Passes K (applyIntentExit openGroups group closing) groupRefs := by
  unfold applyIntentExit
  split
  · exact .pure hgroups
  · refine (passes_applyExit hgroup (by simp) (by simp) closing).bind fun applied => ?_
    split
    · have hle := groupRefs_removeGroup openGroups group.pk
      exact .pure (by grind)
    · have hle := groupRefs_replaceGroup openGroups applied.group
      exact .pure (by grind)

theorem passes_applyIntentRows {openGroups : List OpenGroup}
    (hgroups : groupRefs openGroups ⊆ K) {cluster : List ActivityRow}
    (hcluster : cluster.flatMap ActivityRow.refs ⊆ K) (dryRun : Bool) :
    ledgerRefs.Passes K (applyIntentRows openGroups cluster dryRun) fun w => groupRefs w.1 := by
  unfold applyIntentRows
  split
  · exact .pure hgroups
  · refine .foldlM _ (fun w e he => ?_) hgroups
    -- the key is the group of a row's order
    have hpk : tradeGroup e.1 ∈ K := by
      obtain ⟨⟨row, hrow, hgroup⟩, -⟩ := mem_groupBy.mp he
      refine hcluster (List.mem_flatMap.mpr ⟨row, hrow, ?_⟩)
      simp [ActivityRow.refs, hgroup]
    refine (passes_groupForPk (by grind) (by grind)).bind fun r => ?_
    obtain ⟨group?, openGroups'⟩ := r
    cases group? with
    | none => exact .pure (by grind)
    | some group =>
      have hgroup : tradeGroup group.pk ∈ groupRefs (some group).toList := by simp [groupRefs]
      refine (passes_attachOpening (by grind) _).bind fun g => ?_
      have hle := groupRefs_replaceGroup openGroups' g
      refine (passes_applyIntentExit (by grind) (by grind) _).bind fun openGroups'' => ?_
      exact .pure (by grind)

/-! ## New groups -/

theorem passes_stampOrders {groupPk : ℕ} (hpk : tradeGroup groupPk ∈ K) (cluster : List TxnRow) :
    ledgerRefs.Passes K (stampOrders groupPk cluster) fun pks => pks.map order := by
  refine Passes.bind (Φ := fun orders => orders.flatMap OrderRow.refs) ?_ fun orders => ?_
  · refine .foldlM _ (fun orders ttOrderId _ => ?_) (List.nil_subset _)
    refine (passes_issue (List.nil_subset _)).bind fun order? => ?_
    split
    · rename_i o
      refine .pure ?_
      rw [gotRefs_getOrder_some]
      grind [OrderRow.refs, opt_some]
    · exact .pure (by grind)
  · split
    · exact .pure (List.nil_subset _)
    · refine (passes_issue ?_)
      simp [LedgerOp.refs]

theorem passes_createTradeGroup (account : String) (cluster : List TxnRow) :
    ledgerRefs.Passes K (createTradeGroup account cluster) fun pk => [tradeGroup pk] := by
  refine (passes_reads (readOnly_computeGroupFields _)).bind fun fields => ?_
  refine (passes_issue (List.nil_subset _)).bind fun groupId => ?_
  refine (passes_issue (List.nil_subset _)).bind fun groupPk => ?_
  refine (passes_quiet (by simp [LedgerOp.refs, LedgerOp.gotRefs])).bind fun _ => ?_
  refine (passes_stampOrders (by simp [LedgerOp.gotRefs]) cluster).bind fun orderPks => ?_
  refine (passes_quiet ?_).bind fun _ => .pure (by simp [LedgerOp.gotRefs])
  cases orderPks <;> simp [LedgerOp.refs, LedgerOp.gotRefs, EventRow.refs]

/-! ## The pass -/

/-- The references a pass carries along. -/
def Pass.refs (pass : Pass) : List Ref :=
  groupRefs pass.openGroups ++ (pass.exits.map fun ex => tradeGroup ex.group.pk) ++
    pass.created.map fun cg => tradeGroup cg.pk

theorem passes_openRest (account : String) (dryRun : Bool) {pass : Pass} (hpass : pass.refs ⊆ K)
    (rest : List TxnRow) :
    ledgerRefs.Passes K (openRest account dryRun pass rest)
      fun w => opt tradeGroup w.1 ++ w.2.refs := by
  unfold openRest
  split
  · exact .pure (by simpa)
  · split
    · exact .pure (by simpa)
    · refine (passes_createTradeGroup account rest).bind fun newPk => .pure ?_
      grind [Pass.refs, groupRefs, opt_some]

theorem passes_deliveryPk {newPk : Option ℕ} (hpk : opt tradeGroup newPk ⊆ K)
    (rows rest : List TxnRow) :
    ledgerRefs.Passes K (deliveryPk newPk rows rest) (opt tradeGroup) := by
  unfold deliveryPk
  split
  · exact .pure (List.nil_subset _)
  · refine (passes_reads ((lookup_deliversUnderlying rows rest).mono
      fun _ => LedgerOp.IsLookup.isRead)).bind fun delivers => .pure ?_
    split
    · simpa using hpk
    · simp

theorem passes_applyBucket {newPk : Option ℕ} (hnew : opt tradeGroup newPk ⊆ K)
    (rest : List TxnRow) {pass : Pass} (hpass : pass.refs ⊆ K)
    {bucket : OpenGroup × List ActivityRow} (hbucket : tradeGroup bucket.1.pk ∈ K) :
    ledgerRefs.Passes K (applyBucket newPk rest pass bucket) Pass.refs := by
  unfold applyBucket
  refine (passes_deliveryPk hnew _ _).bind fun delivery => ?_
  have hrolled : ∀ rolls : Bool, opt tradeGroup (if rolls then newPk else none) ⊆ K := by
    intro rolls
    cases rolls
    · exact List.nil_subset _
    · exact hnew
  refine (passes_applyExit (by grind) (List.Subset.trans (hrolled _) (by simp)) (by simp)
    _).bind fun applied => .pure ?_
  have hremoved := groupRefs_removeGroup pass.openGroups bucket.1.pk
  have hreplaced := groupRefs_replaceGroup pass.openGroups applied.group
  simp only [Pass.refs]
  split <;> grind [Pass.refs]

theorem passes_reconcileCluster (account : String) (dryRun : Bool) {pass : Pass}
    (hpass : pass.refs ⊆ K) {cluster : List ActivityRow}
    (hcluster : cluster.flatMap ActivityRow.refs ⊆ K) :
    ledgerRefs.Passes K (reconcileCluster account dryRun pass cluster) Pass.refs := by
  unfold reconcileCluster
  refine (passes_applyIntentRows (by grind [Pass.refs]) hcluster dryRun).bind fun r => ?_
  simp only []
  split
  · exact .pure (by grind [Pass.refs])
  · refine (passes_openRest account dryRun (by grind [Pass.refs]) _).bind fun w => ?_
    split
    · exact .pure (by grind)
    · refine .foldlM _ (fun pass' bucket hb => ?_) (by grind)
      have hmem := mem_groupRefs (mem_of_mem_buckets _ _ hb)
      exact passes_applyBucket (by grind) _ (by grind) (by grind)

/-! ## Rolls and healing -/

theorem passes_linkRoll {ex : AppliedExit} (hex : tradeGroup ex.group.pk ∈ K)
    (closedAt : Datetime) {created : List CreatedGroup}
    (hcreated : (created.map fun cg => tradeGroup cg.pk) ⊆ K) :
    ledgerRefs.Passes K (linkRoll ex closedAt created) fun _ => [] := by
  induction created with
  | nil => exact .pure (List.nil_subset _)
  | cons cg created ih =>
    refine (passes_reads (readOnly_rollsInto closedAt ex.rows cg)).bind fun openedAt? => ?_
    split
    · refine passes_quiet ?_
      grind [LedgerOp.refs, EventRow.refs, opt_some, opt_none]
    · exact (ih (by grind)).mono (by simp)

theorem passes_linkCrossClusterRolls {pass : Pass} (hpass : pass.refs ⊆ K) :
    ledgerRefs.Passes K (linkCrossClusterRolls pass.exits pass.created) fun _ => [] := by
  refine .forM fun ex hex => ?_
  have hmem : tradeGroup ex.group.pk ∈ pass.exits.map fun ex => tradeGroup ex.group.pk :=
    List.mem_map_of_mem hex
  split
  · split
    · exact .pure (List.nil_subset _)
    · exact passes_linkRoll (by grind [Pass.refs]) _ (by grind [Pass.refs])
  · exact .pure (List.nil_subset _)

theorem passes_healFullyClosedGroups (account : String) (dryRun : Bool) :
    ledgerRefs.Passes K (healFullyClosedGroups account dryRun) fun _ => [] := by
  refine (passes_loadOpenGroups account).bind fun groups => ?_
  simp only []
  split
  · exact .pure (List.nil_subset _)
  · refine (Passes.forM fun g hg => ?_).bind fun _ => .pure (List.nil_subset _)
    have hpk := mem_groupRefs (List.mem_of_mem_filter hg)
    refine (passes_quiet (List.nil_subset _)).bind fun tg? => ?_
    split
    · exact .pure (List.nil_subset _)
    · refine (passes_reads (readOnly_groupRealized _)).bind fun realized => ?_
      refine (passes_quiet (List.nil_subset _)).bind fun _ => passes_quiet ?_
      grind [LedgerOp.refs, EventRow.refs, opt_none]

/-! ## Reconcile -/

theorem passes_routeCandidates (account : String) (args : ReconcileArgs) :
    ledgerRefs.Passes K (routeCandidates account args) fun _ => [] := by
  refine (passes_issue (List.nil_subset _)).bind fun activity => ?_
  refine (passes_loadOpenGroups account).bind fun openGroups => ?_
  refine Passes.bind (Φ := Pass.refs) ?_ fun pass => ?_
  · refine .foldlM _ (fun pass cluster hcluster => ?_) (by simp [Pass.refs])
    refine passes_reconcileCluster account args.dryRun (by grind) fun ref href => ?_
    obtain ⟨row, hrow, href⟩ := List.mem_flatMap.mp href
    have hmem : row ∈ activity.filter isCandidate :=
      (clusterByTime_perm _).mem_iff.mp (List.mem_flatten.mpr ⟨cluster, hcluster, hrow⟩)
    have hgot : ref ∈ activity.flatMap ActivityRow.refs :=
      List.mem_flatMap.mpr ⟨row, List.mem_of_mem_filter hmem, href⟩
    grind [LedgerOp.gotRefs]
  · split
    · refine (passes_linkCrossClusterRolls (by grind)).bind fun _ => .pure (List.nil_subset _)
    · exact .pure (List.nil_subset _)

theorem passes_reconcile (account : Option String) (args : ReconcileArgs) :
    ledgerRefs.Passes K (reconcile account args) fun _ => [] := by
  refine (passes_reads (readOnly_accountsOf account args.since)).bind fun accounts => ?_
  refine .foldlM _ (fun result account _ => ?_) (List.nil_subset _)
  refine .tryCatch ?_ fun e => .pure (List.nil_subset _)
  refine Passes.bind (Φ := fun _ => []) ?_ fun _ => .pure (List.nil_subset _)
  refine Passes.bind (Φ := fun _ => []) ?_ fun _ => ?_
  · refine (passes_quiet (List.nil_subset _)).bind fun _ => ?_
    refine (passes_quiet (List.nil_subset _)).bind fun _ => ?_
    exact (passes_quiet (List.nil_subset _)).bind fun _ => .pure (List.nil_subset _)
  · refine (passes_synthesizeLapsedSettlements account args).bind fun _ => ?_
    refine (passes_routeCandidates account args).bind fun _ => ?_
    exact (passes_healFullyClosedGroups account args.dryRun).bind fun _ =>
      .pure (List.nil_subset _)

end Passes

end TtLedger
