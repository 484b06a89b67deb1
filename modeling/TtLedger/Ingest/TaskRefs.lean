import TtLedger.Ingest.PassRefs
import TtLedger.Ingest.Tasks

/-!
# The references of the tasks

Every task passes on what it was given (`passes_program`): whatever id it writes it has had from a
reply of its own, and the one thing a host names itself is the security of an order it records
(`Task.named`). An import stores a security before it writes a row that names it; a rebuild writes
what its walk has found in the rows of the account (`refs_securityPlan`).
-/

namespace TtLedger

open LedgerStore Prog Ref
open Prog.References (Passes)

/-! ## Importers -/

section Programs

variable {K : List Ref}

/-- A resolved security is stored. -/
theorem passes_resolveSecurity (resolver : SecurityResolver) {seen : List String}
    (hseen : seen.map security ⊆ K) (symbol : String) (instrumentType : Option String) :
    ledgerRefs.Passes K (resolveSecurity resolver seen symbol instrumentType)
      fun r => security r.1 :: r.2.map security := by
  have hresolve : ledgerRefs.Passes K
      (Prog.ofExcept (resolver symbol instrumentType) : LedgerProg _) fun _ => [] :=
    .ofExcept fun _ _ => List.nil_subset _
  refine hresolve.bind fun resolved => ?_
  split
  · rename_i hold
    refine .pure (List.cons_subset.mpr ⟨?_, ?_⟩)
    · simpa using hseen (List.mem_map_of_mem (List.contains_iff_mem.mp hold))
    · simpa using hseen
  · refine (passes_issue (List.nil_subset _)).bind fun _ => .pure ?_
    intro ref href
    have hknown := fun h => hseen (a := ref) h
    simp [LedgerOp.gotRefs, securityRow] at href hknown ⊢
    grind

@[simp] theorem refs_txnRow (account sourceSystem : String) (securityId : Option String)
    (t : BrokerTransaction) :
    (txnRow account sourceSystem securityId t).refs = opt security securityId := by
  simp [TxnRow.refs, txnRow]

theorem passes_upsertTransactions (resolver : SecurityResolver) (txns : List BrokerTransaction)
    (account sourceSystem : String) :
    ledgerRefs.Passes K (TransactionRepository.upsert resolver txns account sourceSystem)
      fun _ => [] := by
  unfold TransactionRepository.upsert
  split
  · exact .pure (List.nil_subset _)
  · refine Passes.bind (Φ := fun w => w.1.map security ++ w.2.flatMap TxnRow.refs) ?_ fun w => ?_
    · refine .foldlM _ (fun w t _ => ?_) (List.nil_subset _)
      unfold TransactionRepository.addRow
      split
      · refine (passes_resolveSecurity resolver (by simp) _ _).bind fun r => .pure ?_
        grind [refs_txnRow, opt_some]
      · refine .pure ?_
        grind [refs_txnRow, opt_none]
    · refine (passes_quiet ?_).bind fun _ => .pure (List.nil_subset _)
      simp [LedgerOp.refs]

@[simp] theorem refs_enrich (existing : OrderRow) (po : PlacedOrder) (fill : FillFields) :
    (OrderRepository.enrich existing po fill).refs = existing.refs := rfl

@[simp] theorem refs_brokerRow (account : String) (securityId : Option String)
    (existing : Option OrderRow) (po : PlacedOrder) (fill : FillFields) :
    (OrderRepository.brokerRow account securityId existing po fill).refs =
      opt security securityId ++ opt tradeGroup (existing.bind OrderRow.tradeGroupId) := rfl

@[simp] theorem refs_applyFill (evt : FillEvent) (existing : OrderRow) :
    (evt.apply existing).refs = existing.refs := rfl

theorem passes_buildOrderRow (account : String) {securityId : Option String}
    (hsecurity : opt security securityId ⊆ K) (po : PlacedOrder) :
    ledgerRefs.Passes K (OrderRepository.buildOrderRow account securityId po) OrderRow.refs := by
  refine (passes_issue (List.nil_subset _)).bind fun existing => ?_
  split
  · rename_i existing
    split
    · refine .pure ?_
      rw [refs_enrich, gotRefs_getOrder_some]
      exact List.subset_append_right _ _
    · refine .pure ?_
      rw [refs_brokerRow, gotRefs_getOrder_some, OrderRow.refs, Option.bind_some]
      grind
  · refine .pure ?_
    rw [refs_brokerRow, Option.bind_none, opt_none, List.append_nil]
    exact List.Subset.trans hsecurity (List.subset_append_left _ _)

theorem passes_resolveLegs (resolver : SecurityResolver) {seen : List String}
    (hseen : seen.map security ⊆ K) (legs : List PlacedLeg) :
    ledgerRefs.Passes K (OrderRepository.resolveLegs resolver seen legs)
      fun w => w.1.map security ++ w.2.map security := by
  refine .foldlM (fun w : List String × List String => w.1.map security ++ w.2.map security)
    (fun w leg _ => ?_) (by simpa)
  refine (passes_resolveSecurity resolver (by grind) _ _).bind fun r => .pure ?_
  grind

theorem passes_resolveOrders (resolver : SecurityResolver) (placedOrders : List PlacedOrder) :
    ledgerRefs.Passes K (OrderRepository.resolveOrders resolver placedOrders)
      fun w => w.1.map security ++ w.2.flatMap fun p => opt security p.2 := by
  refine .foldlM (fun w : List String × List (PlacedOrder × Option String) =>
    w.1.map security ++ w.2.flatMap fun p => opt security p.2) (fun w po _ => ?_)
    (List.nil_subset _)
  refine (passes_resolveLegs resolver (by grind) _).bind fun r => .pure ?_
  rcases r with ⟨seen, _ | ⟨sid, _ | ⟨sid', sids⟩⟩⟩ <;> grind [opt_some, opt_none]

theorem passes_upsertFromHistory (resolver : SecurityResolver) (placedOrders : List PlacedOrder)
    (account : String) :
    ledgerRefs.Passes K (OrderRepository.upsertFromHistory resolver placedOrders account)
      fun _ => [] := by
  unfold OrderRepository.upsertFromHistory
  split
  · exact .pure (List.nil_subset _)
  · refine (passes_resolveOrders resolver placedOrders).bind fun w => ?_
    refine (Passes.mapM (I := OrderRow.refs) fun p hp => ?_).bind fun rows => ?_
    · refine passes_buildOrderRow account ?_ _
      grind
    · refine (passes_quiet ?_).bind fun _ => .pure (List.nil_subset _)
      exact List.subset_append_right _ _

theorem passes_applyFillEvent (evt : FillEvent) :
    ledgerRefs.Passes K (applyFillEvent evt) fun _ => [] := by
  refine (passes_issue (List.nil_subset _)).bind fun existing => ?_
  split
  · exact .pure (List.nil_subset _)
  · refine (passes_quiet ?_).bind fun _ => .pure (List.nil_subset _)
    simp [LedgerOp.refs]

@[simp] theorem refs_positionRow (account securityId : String) (existing : Option PositionRow)
    (p : BrokerPosition) :
    (positionRow account securityId existing p).refs =
      security securityId :: opt order (existing.bind PositionRow.openingOrderId) ++
        opt tradeGroup (existing.bind PositionRow.tradeGroupId) := rfl

theorem passes_upsertPositions (resolver : SecurityResolver) (positions : List BrokerPosition)
    (account : String) :
    ledgerRefs.Passes K (PositionRepository.upsert resolver positions account) fun _ => [] := by
  unfold PositionRepository.upsert
  split
  · exact .pure (List.nil_subset _)
  · refine Passes.bind (Φ := fun w => w.1.map security ++ w.2.flatMap PositionRow.refs) ?_
      fun w => ?_
    · refine .foldlM _ (fun w p _ => ?_) (List.nil_subset _)
      refine (passes_resolveSecurity resolver (by grind) _ _).bind fun r => ?_
      refine (passes_issue (List.nil_subset _)).bind fun existing => .pure ?_
      rw [List.flatMap_append, List.flatMap_cons, refs_positionRow]
      cases existing <;> grind [LedgerOp.gotRefs, PositionRow.refs, opt_none]
    · refine (passes_quiet ?_).bind fun _ => .pure (List.nil_subset _)
      simp [LedgerOp.refs]

/-! ## Capture -/

theorem passes_openTradeGroup (account : String) (input : TradeGroupInput) :
    ledgerRefs.Passes K (openTradeGroup account input) fun _ => [] := by
  refine (passes_issue (List.nil_subset _)).bind fun at_ => ?_
  refine (passes_issue (List.nil_subset _)).bind fun groupId => ?_
  refine (passes_issue (List.nil_subset _)).bind fun groupPk => ?_
  refine (passes_quiet ?_).bind fun _ => .pure (List.nil_subset _)
  simp [LedgerOp.refs, LedgerOp.gotRefs, EventRow.refs]

theorem passes_tradeGroupPk (group : Option String) :
    ledgerRefs.Passes K (tradeGroupPk group) (opt tradeGroup) := by
  unfold tradeGroupPk
  split
  · exact .pure (List.nil_subset _)
  · refine (passes_issue (List.nil_subset _)).bind fun pk? => ?_
    split
    · exact .raise
    · exact .pure (List.subset_append_right _ _)

/-- The host names the security of the order. -/
theorem passes_recordOrder (resolver : SecurityResolver) {order : OrderInput}
    (hsecurity : opt security order.securityId ⊆ K) :
    ledgerRefs.Passes K (recordOrder resolver order) fun _ => [] := by
  refine (passes_tradeGroupPk order.tradeGroup).bind fun pk => ?_
  refine (passes_issue (List.nil_subset _)).bind fun at_ => ?_
  refine (passes_quiet ?_).bind fun _ => ?_
  · simp only [LedgerOp.refs, List.flatMap_cons, List.flatMap_nil, OrderRow.refs,
      submittedOrderRow]
    grind
  · refine Passes.bind (Φ := fun seen => seen.map security) ?_ fun _ => .pure (List.nil_subset _)
    refine .foldlM _ (fun seen leg _ => ?_) (List.nil_subset _)
    refine (passes_resolveSecurity resolver (by grind) _ _).bind fun r => .pure ?_
    grind

/-! ## Rebuilds -/

section Walk

variable {account securityId : String} {multiplier : Int} {R : List Ref}

/-- What the walk of a security refers to: the security, and orders of its rows. -/
structure WalkRefs (securityId : String) (R : List Ref) (w : Rebuild) : Prop where
  lot : opt order w.lot.openingOrderId ⊆ R
  plan : ∀ entry ∈ w.plan, ∀ row, entry.closedRow = some row → row.refs ⊆ security securityId :: R

theorem refs_closedRow {lot : RunningLot} {closingOrderId : Option ℕ}
    (hlot : opt order lot.openingOrderId ⊆ R) (hclosing : opt order closingOrderId ⊆ R)
    (closePrice : ℚ) (closedAt : Option Datetime) :
    (closedRow account securityId lot closePrice closingOrderId closedAt).refs ⊆
      security securityId :: R := by
  simp only [ClosedPositionRow.refs, closedRow]
  grind [opt_none]

theorem WalkRefs.applyDelta {w : Rebuild} (h : WalkRefs securityId R w) {r : TxnRow}
    (hr : opt order r.orderId ⊆ R) (delta price : ℚ) :
    WalkRefs securityId R (applyDelta account securityId multiplier w r delta price) := by
  have hentry : ∀ (lot : RunningLot), opt order lot.openingOrderId ⊆ R →
      ∀ (lastDirection : String) (marksOpen : Bool) (closed : Option ClosedPositionRow),
        (∀ row, closed = some row → row.refs ⊆ security securityId :: R) →
          WalkRefs securityId R ⟨lot, lastDirection, true,
            w.plan ++ [⟨r.ttTransactionId, marksOpen, closed⟩]⟩ := by
    refine fun lot hlot _ _ closed hclosed => ⟨hlot, fun entry hentry row hrow => ?_⟩
    rcases List.mem_append.mp hentry with hold | hnew
    · exact h.plan entry hold row hrow
    · rw [List.mem_singleton.mp hnew] at hrow
      exact hclosed row hrow
  have hnone : ∀ row : ClosedPositionRow, none = some row → row.refs ⊆ security securityId :: R :=
    fun row he => by cases he
  unfold TtLedger.applyDelta
  simp only []
  split
  · exact hentry _ hr _ _ _ hnone
  · split
    · refine hentry _ ?_ _ _ _ hnone
      exact h.lot
    · have hclosed : ∀ (lot : RunningLot), opt order lot.openingOrderId ⊆ R → ∀ row,
          some (closedRow account securityId lot price r.orderId r.executedAt) = some row →
            row.refs ⊆ security securityId :: R := by
        intro lot hlot row hrow
        rw [← Option.some.inj hrow]
        exact refs_closedRow hlot hr _ _
      split
      · exact hentry _ (List.nil_subset _) _ _ _ (hclosed _ h.lot)
      · split
        · exact hentry _ hr _ _ _ (hclosed _ h.lot)
        · refine hentry _ ?_ _ _ _ hnone
          exact h.lot

theorem walkRefs_rebuild {rows : List TxnRow} (hrows : ∀ r ∈ rows, opt order r.orderId ⊆ R) :
    WalkRefs securityId R (rebuild account securityId multiplier rows) := by
  have hall : ∀ (w : Rebuild), WalkRefs securityId R w →
      WalkRefs securityId R (rows.foldl (rebuildStep account securityId multiplier) w) := by
    induction rows with
    | nil => exact fun w hw => hw
    | cons r rows ih =>
      refine fun w hw => ih (fun r' hr' => hrows r' (by simp [hr'])) _ ?_
      unfold rebuildStep
      split
      · refine ⟨hw.lot, fun entry hentry row hrow => ?_⟩
        rcases List.mem_append.mp hentry with hold | hnew
        · exact hw.plan entry hold row hrow
        · rw [List.mem_singleton.mp hnew] at hrow
          cases hrow
      · exact hw.applyDelta (hrows r (by simp)) _ _
  exact hall {} ⟨List.nil_subset _, fun entry hentry => by cases hentry⟩

/-- What the plan of a security refers to: it, orders of its rows, and the group its position
had. -/
theorem refs_securityPlan (account securityId : String) (multiplier : Int) (expiry : Option Date)
    (lastActivity : Option Datetime) {rows : List TxnRow} (hrows : rows.flatMap TxnRow.refs ⊆ R)
    {existing : Option PositionRow} (hexisting : existing.toList.flatMap PositionRow.refs ⊆ R) :
    let plan := securityPlan account securityId multiplier expiry lastActivity rows existing
    plan.1.refs ⊆ security securityId :: R ∧ ∀ entry ∈ plan.2, ∀ row,
      entry.closedRow = some row → row.refs ⊆ security securityId :: R := by
  have hwalk : WalkRefs securityId R
      (rebuild account securityId multiplier (sortOn replayKey rows)) := by
    refine walkRefs_rebuild fun r hr ref href => ?_
    refine hrows (List.mem_flatMap.mpr ⟨r, (mem_sortOn _).mp hr, ?_⟩)
    simp [TxnRow.refs, href]
  have hgroup : opt tradeGroup (existing.bind PositionRow.tradeGroupId) ⊆ R := by
    refine List.Subset.trans (fun ref href => ?_) hexisting
    cases existing with
    | none => cases href
    | some p => simpa [PositionRow.refs] using Or.inr (Or.inr href)
  simp only [securityPlan, replaySecurity]
  unfold lapseExpiredLot
  split
  · refine ⟨?_, hwalk.plan⟩
    have hlot := hwalk.lot
    simp only [PositionRow.refs, positionOf]
    grind
  · have hlot := hwalk.lot
    refine ⟨?_, fun entry hentry row hrow => ?_⟩
    · simp only [PositionRow.refs, flattened, positionOf]
      grind [opt_none]
    · rcases List.mem_append.mp hentry with hold | hnew
      · exact hwalk.plan entry hold row hrow
      · rw [List.mem_singleton.mp hnew] at hrow
        rw [← Option.some.inj hrow]
        simp only [ClosedPositionRow.refs, lapsedRow, positionOf]
        grind [opt_none]

end Walk

theorem passes_rebuildSecurity (account : String) (lastActivity : Option Datetime)
    {e : String × List TxnRow} (hsecurity : security e.1 ∈ K)
    (hrows : e.2.flatMap TxnRow.refs ⊆ K) :
    ledgerRefs.Passes K (rebuildSecurity account lastActivity e) fun _ => [] := by
  have hmultiplier : ledgerRefs.Passes K (multiplierOf <$> getSecurity e.1) fun _ => [] :=
    .of_calls (Calls.map multiplierOf (Calls.invoke.mpr rfl))
  refine hmultiplier.bind fun multiplier => ?_
  refine (passes_quiet (List.nil_subset _)).bind fun sec => ?_
  refine (passes_issue (List.nil_subset _)).bind fun existing => ?_
  obtain ⟨hposition, hclosed⟩ := refs_securityPlan
    (R := K ++ (LedgerOp.getPosition account e.1).gotRefs existing) account e.1 multiplier
    (sec.bind SecurityRow.expiry) lastActivity
    (List.Subset.trans hrows (List.subset_append_left _ _)) (List.subset_append_right _ _)
  simp only []
  refine (passes_quiet ?_).bind fun _ => ?_
  · simp only [LedgerOp.refs, List.flatMap_cons, List.flatMap_nil, List.append_nil]
    grind
  refine (passes_issue (List.nil_subset _)).bind fun positionId => ?_
  refine Passes.bind (Φ := fun links => links.flatMap PositionLink.refs) ?_ fun links => ?_
  · refine .foldlM _ (fun links entry hentry => ?_) (List.nil_subset _)
    have hopen : opt position (if entry.marksOpen then positionId else none) ⊆
        (LedgerOp.getPositionId account e.1).gotRefs positionId := by
      cases entry.marksOpen
      · exact List.nil_subset _
      · exact List.Subset.refl _
    unfold writeEntry
    simp only []
    split
    · refine .pure ?_
      rw [List.flatMap_append, List.flatMap_singleton, PositionLink.refs]
      grind [opt_none]
    · rename_i row hrow
      have hrefs := hclosed entry hentry row hrow
      refine (passes_issue ?_).bind fun closedPositionId => .pure ?_
      · rw [LedgerOp.refs]
        grind
      · rw [List.flatMap_append, List.flatMap_singleton, PositionLink.refs]
        grind [LedgerOp.gotRefs, opt_some]
  · refine (passes_quiet ?_).bind fun _ => .pure (List.nil_subset _)
    rw [LedgerOp.refs]
    grind

theorem passes_rebuildForAccount (account : String) :
    ledgerRefs.Passes K (rebuildForAccount account) fun _ => [] := by
  refine (passes_issue (List.nil_subset _)).bind fun activity => ?_
  refine (Passes.forM fun e he => ?_).bind fun _ => .pure (List.nil_subset _)
  obtain ⟨hkey, hrows⟩ := mem_groupBy.mp (show (e.1, e.2) ∈ _ from he)
  have hgot : ∀ r ∈ (activity.map ActivityRow.toTxnRow).filter TxnRow.isReplayed,
      r.refs ⊆ activity.flatMap ActivityRow.refs := by
    intro r hr ref href
    obtain ⟨a, ha, rfl⟩ := List.mem_map.mp (List.mem_of_mem_filter hr)
    exact List.mem_flatMap.mpr ⟨a, ha, List.mem_append_left _ href⟩
  refine passes_rebuildSecurity account _ ?_ fun ref href => ?_
  · obtain ⟨r, hr, hsid⟩ := hkey
    refine List.mem_append_right _ (hgot r hr ?_)
    simp [TxnRow.refs, hsid]
  · obtain ⟨r, hr, href⟩ := List.mem_flatMap.mp href
    rw [hrows] at hr
    exact List.mem_append_right _ (hgot r (List.mem_of_mem_filter hr) href)

theorem passes_rebuildPositionsFromTransactions (account : Option String) :
    ledgerRefs.Passes K (rebuildPositionsFromTransactions account) fun _ => [] := by
  refine (passes_reads (readOnly_accountsOf account none)).bind fun accounts => ?_
  refine .foldlM _ (fun result acct _ => ?_) (List.nil_subset _)
  refine .tryCatch ?_ fun e => .pure (List.nil_subset _)
  exact (passes_rebuildForAccount acct).bind fun _ => .pure (List.nil_subset _)

/-! ## Edits -/

theorem passes_remapTradeGroup (groupId : String) (attribution : Attribution) :
    ledgerRefs.Passes K (remapTradeGroup groupId attribution) fun _ => [] := by
  refine (passes_quiet (List.nil_subset _)).bind fun tg? => ?_
  split
  · exact .raise
  rename_i tg
  refine (passes_quiet (List.nil_subset _)).bind fun at_ => ?_
  refine (passes_issue (List.nil_subset _)).bind fun groupPk => ?_
  have hevent : ∀ {K' : List Ref}, tradeGroup groupPk ∈ K' →
      ledgerRefs.Passes K' (do
        addTradeGroupEvent (adjustment groupPk at_ ("remapped by " ++ attribution.reviewedBy))
        pure (remapped tg attribution at_) : LedgerProg TradeGroupRow) fun _ => [] := by
    refine fun hpk => (passes_quiet ?_).bind fun _ => .pure (List.nil_subset _)
    simpa [LedgerOp.refs, EventRow.refs, adjustment] using hpk
  simp only []
  split
  · rename_i strategy _
    refine Passes.bind (Φ := fun _ => []) ?_ fun _ => hevent (by simp [LedgerOp.gotRefs])
    refine (passes_issue (List.nil_subset _)).bind fun orders => ?_
    have hposition : ∀ {K' : List Ref}, tradeGroup groupPk ∈ K' →
        ledgerRefs.Passes K' (cascadeToPosition strategy groupPk (remapped tg attribution at_))
          fun _ => [] := by
      intro K' hpk
      unfold cascadeToPosition
      split
      · exact .pure (List.nil_subset _)
      · refine (passes_issue (List.nil_subset _)).bind fun position? => ?_
        split
        · exact .pure (List.nil_subset _)
        · refine passes_quiet ?_
          simp only [LedgerOp.refs, List.flatMap_cons, List.flatMap_nil, PositionRow.refs]
          grind [LedgerOp.gotRefs, PositionRow.refs, opt_some]
    simp only []
    split
    · refine (passes_quiet ?_).bind fun _ => hposition (by simp [LedgerOp.gotRefs])
      -- the strategy is no reference
      rw [LedgerOp.refs, List.flatMap_map]
      exact List.subset_append_right _ _
    · exact hposition (by simp [LedgerOp.gotRefs])
  · exact hevent (by simp [LedgerOp.gotRefs])

theorem passes_dismissTradeGroup (groupId reviewedBy : String) :
    ledgerRefs.Passes K (dismissTradeGroup groupId reviewedBy) fun _ => [] := by
  refine (passes_quiet (List.nil_subset _)).bind fun tg? => ?_
  split
  · exact .raise
  · refine (passes_quiet (List.nil_subset _)).bind fun at_ => ?_
    refine (passes_issue (List.nil_subset _)).bind fun groupPk => ?_
    refine (passes_quiet ?_).bind fun _ => .pure (List.nil_subset _)
    simp [LedgerOp.refs, LedgerOp.gotRefs, EventRow.refs, adjustment]

theorem passes_markTradeGroupUnfilled (groupId reviewedBy reason : String) :
    ledgerRefs.Passes K (markTradeGroupUnfilled groupId reviewedBy reason) fun _ => [] := by
  refine (passes_quiet (List.nil_subset _)).bind fun tg? => ?_
  split
  · exact .raise
  · refine Passes.bind (Φ := fun _ => []) ?_ fun rows => ?_
    · refine (passes_quiet (List.nil_subset _)).bind fun pk? => ?_
      split
      · exact passes_quiet (List.nil_subset _)
      · exact .pure (List.nil_subset _)
    · simp only []
      split
      · exact .raise
      · refine (passes_quiet (List.nil_subset _)).bind fun at_ => ?_
        refine (passes_issue (List.nil_subset _)).bind fun groupPk => ?_
        refine (passes_quiet ?_).bind fun _ => .pure (List.nil_subset _)
        simp [LedgerOp.refs, LedgerOp.gotRefs, EventRow.refs, adjustment]

theorem passes_regroupTarget (account : String) (targetGroupId : Option String)
    (reviewedBy : String) (at_ : Datetime) :
    ledgerRefs.Passes K (regroupTarget account targetGroupId reviewedBy at_)
      fun pk => [tradeGroup pk] := by
  unfold regroupTarget
  split
  · refine (passes_quiet (List.nil_subset _)).bind fun groupId => ?_
    exact passes_issue (List.nil_subset _)
  · refine (passes_quiet (List.nil_subset _)).bind fun tg? => ?_
    split
    · exact .raise
    · exact passes_issue (List.nil_subset _)

theorem passes_linkTarget (order : OrderRow) (ttOrderId : String)
    (targetGroupId : Option String) (reviewedBy : String) (at_ : Datetime) :
    ledgerRefs.Passes K (linkTarget order ttOrderId targetGroupId reviewedBy at_)
      fun pk => [tradeGroup pk] := by
  unfold linkTarget
  split
  · refine (passes_quiet (List.nil_subset _)).bind fun groupId => ?_
    exact passes_issue (List.nil_subset _)
  · refine (passes_quiet (List.nil_subset _)).bind fun tg? => ?_
    split
    · exact .raise
    · split
      · exact .raise
      · exact passes_issue (List.nil_subset _)

theorem passes_recomputeGroup (pk : ℕ) (tg : TradeGroupRow) :
    ledgerRefs.Passes K (recomputeGroup pk tg) fun _ => [] := by
  refine (passes_quiet (List.nil_subset _)).bind fun activity => ?_
  refine (passes_reads (readOnly_computeGroupFields _)).bind fun fields => ?_
  refine Passes.bind (Φ := fun _ => []) ?_ fun updated => ?_
  · unfold recomputedLifecycle
    split
    · exact .pure (List.nil_subset _)
    · split
      · refine (passes_reads (readOnly_groupRealized _)).bind fun realized => ?_
        exact .pure (List.nil_subset _)
      · exact .pure (List.nil_subset _)
  · exact (passes_quiet (List.nil_subset _)).bind fun _ => .pure (List.nil_subset _)

theorem passes_regroupTransactions (txnIds : List ℕ) (targetGroupId : Option String)
    (reviewedBy : String) :
    ledgerRefs.Passes K (regroupTransactions txnIds targetGroupId reviewedBy) fun _ => [] := by
  unfold regroupTransactions
  split
  · exact .pure (List.nil_subset _)
  refine (passes_issue (List.nil_subset _)).bind fun txns => ?_
  split
  · exact .pure (List.nil_subset _)
  refine (passes_quiet (List.nil_subset _)).bind fun at_ => ?_
  refine (passes_regroupTarget _ _ _ _).bind fun groupPk => ?_
  refine (passes_quiet (by simp [LedgerOp.refs])).bind fun _ => ?_
  refine .foldlM _ (fun updated pk hpk => ?_) (List.nil_subset _)
  -- the groups affected are those of the transactions, and the target
  have hgroup : tradeGroup pk ∈ txns.flatMap TxnRow.refs ++ [tradeGroup groupPk] := by
    rcases List.mem_append.mp (List.mem_eraseDups.mp hpk) with hsource | htarget
    · obtain ⟨t, ht, htpk⟩ := List.mem_filterMap.mp (List.mem_eraseDups.mp hsource)
      refine List.mem_append_left _ (List.mem_flatMap.mpr ⟨t, ht, ?_⟩)
      simp [TxnRow.refs, htpk]
    · rw [List.mem_singleton.mp htarget]
      simp
  refine (passes_quiet (List.nil_subset _)).bind fun tg? => ?_
  split
  · exact .pure (List.nil_subset _)
  · refine (passes_recomputeGroup pk _).bind fun group => ?_
    refine (passes_quiet ?_).bind fun _ => .pure (List.nil_subset _)
    simp only [LedgerOp.refs, EventRow.refs, adjustment]
    grind [LedgerOp.gotRefs, opt_none]

theorem passes_linkOrderToGroup (ttOrderId : String) (targetGroupId : Option String)
    (reviewedBy : String) :
    ledgerRefs.Passes K (linkOrderToGroup ttOrderId targetGroupId reviewedBy) fun _ => [] := by
  refine (passes_issue (List.nil_subset _)).bind fun order? => ?_
  split
  · exact .raise
  rename_i o
  split
  · exact .raise
  refine (passes_quiet (List.nil_subset _)).bind fun at_ => ?_
  refine (passes_linkTarget _ _ _ _ _).bind fun groupPk => ?_
  refine (passes_quiet ?_).bind fun _ => ?_
  · rw [gotRefs_getOrder_some]
    simp only [LedgerOp.refs, List.flatMap_cons, List.flatMap_nil, OrderRow.refs]
    grind [opt_some]
  refine (passes_quiet (by simp [LedgerOp.refs, EventRow.refs, adjustment])).bind fun _ => ?_
  refine (passes_reconcile (some o.account) {}).bind fun _ => ?_
  refine (passes_quiet (List.nil_subset _)).bind fun tg? => ?_
  split
  · exact .raise
  · exact .pure (List.nil_subset _)

theorem passes_hasFuture (sids : List String) :
    ledgerRefs.Passes K (hasFuture sids) fun _ => [] := by
  induction sids with
  | nil => exact .pure (List.nil_subset _)
  | cons sid sids ih =>
    have hrest := ih.mono (List.subset_append_left K [])
    refine (passes_quiet (List.nil_subset _)).bind fun sec? => ?_
    split
    · split
      · exact .pure (List.nil_subset _)
      · exact hrest
    · exact hrest

theorem passes_recomputeTrade (str : ℚ → String) (account : String) (dryRun : Bool)
    (changes : List PnlChange) (trade : TradeGroupRow) :
    ledgerRefs.Passes K (recomputeTrade str account dryRun changes trade) fun _ => [] := by
  unfold recomputeTrade
  split
  · exact .pure (List.nil_subset _)
  rename_i old _
  refine (passes_issue (List.nil_subset _)).bind fun pk? => ?_
  split
  · exact .pure (List.nil_subset _)
  rename_i pk
  refine (passes_quiet (List.nil_subset _)).bind fun rows => ?_
  refine (passes_hasFuture _).bind fun future => ?_
  split
  · refine (passes_reads (readOnly_groupRealized rows)).bind fun new => ?_
    split
    · exact .pure (List.nil_subset _)
    · simp only []
      split
      · refine Passes.bind (Φ := fun _ => []) ?_ fun _ => .pure (List.nil_subset _)
        refine (passes_quiet (List.nil_subset _)).bind fun tg? => ?_
        split
        · exact .pure (List.nil_subset _)
        · refine (passes_quiet (List.nil_subset _)).bind fun _ => passes_quiet ?_
          simp [LedgerOp.refs, LedgerOp.gotRefs, EventRow.refs, repairEvent]
      · exact .pure (List.nil_subset _)
  · exact .pure (List.nil_subset _)

theorem passes_recomputeFuturesGroupPnl (str : ℚ → String) (account : Option String)
    (dryRun : Bool) :
    ledgerRefs.Passes K (recomputeFuturesGroupPnl str account dryRun) fun _ => [] := by
  refine (passes_reads (readOnly_accountsOf account none)).bind fun accounts => ?_
  refine .foldlM _ (fun changes acct _ => ?_) (List.nil_subset _)
  refine (passes_quiet (List.nil_subset _)).bind fun trades => ?_
  exact .foldlM _ (fun changes trade _ => passes_recomputeTrade _ _ _ _ _) (List.nil_subset _)

end Programs

/-! ## Every task -/

/-- The one reference a host names itself: the security of an order it records. -/
def Task.named : Task → List Ref
  | recordOrder _ input => opt security input.securityId
  | _ => []

/-- **Every task** passes on what it was given. -/
theorem passes_program (task : Task) :
    ledgerRefs.Passes task.named task.program fun _ => [] := by
  have hdone : ∀ {α : Type} {p : LedgerProg α} {K : List Ref} {r : α → Option TradeGroupRow},
      ledgerRefs.Passes K p (fun _ => []) →
        ledgerRefs.Passes K (p >>= fun a => pure (r a)) fun _ => [] :=
    fun hp => hp.bind fun _ => .pure (List.nil_subset _)
  cases task with
  | openTradeGroup account input => exact hdone (passes_openTradeGroup account input)
  | recordOrder resolver order =>
    exact hdone (passes_recordOrder resolver (List.Subset.refl _))
  | importOrders resolver placedOrders account =>
    exact hdone (passes_upsertFromHistory resolver placedOrders account)
  | importTransactions resolver settlementPrice account txns sourceSystem reconcileAfter =>
    refine Passes.bind (Φ := fun _ => []) ?_ fun _ => .pure (List.nil_subset _)
    refine (passes_upsertTransactions resolver txns account sourceSystem).bind fun n => ?_
    split
    · exact (passes_reconcile _ _).bind fun _ => .pure (List.nil_subset _)
    · exact .pure (List.nil_subset _)
  | importPositions resolver positions account =>
    exact hdone (passes_upsertPositions resolver positions account)
  | applyFill evt => exact hdone (passes_applyFillEvent evt)
  | linkOrder ttOrderId targetGroupId reviewedBy =>
    exact hdone (passes_linkOrderToGroup ttOrderId targetGroupId reviewedBy)
  | regroup txnIds targetGroupId reviewedBy =>
    exact hdone (passes_regroupTransactions txnIds targetGroupId reviewedBy)
  | remap groupId attribution => exact hdone (passes_remapTradeGroup groupId attribution)
  | markUnfilled groupId reviewedBy reason =>
    exact hdone (passes_markTradeGroupUnfilled groupId reviewedBy reason)
  | dismiss groupId reviewedBy => exact hdone (passes_dismissTradeGroup groupId reviewedBy)
  | reconcile account args => exact hdone (passes_reconcile account args)
  | rebuild account => exact hdone (passes_rebuildPositionsFromTransactions account)
  | recomputeFutures str account dryRun =>
    exact hdone (passes_recomputeFuturesGroupPnl str account dryRun)

end TtLedger
