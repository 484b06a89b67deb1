import TtLedger.Ingest.Imports
import TtLedger.Ingest.Tasks

/-!
# The transactions a task writes

Of all the store calls one writes the columns of transactions; the others set links. So what a
task can do to the cash record of an account is told by the rows it upserts: `Writes P p` says that
they satisfy `P`, whatever the calls reply. An import upserts the rows of its records
(`writes_upsertTransactions`), a pass its settlement rows (`writes_reconcile`), and no other task
upserts any (`writes_program`).
-/

namespace TtLedger

open LedgerStore Prog

/-- The transactions a call upserts. -/
def LedgerOp.upserted : LedgerOp → List TxnRow
  | upsertTransactions rows => rows
  | _ => []

/-- Every transaction the program upserts satisfies `P`. -/
abbrev Writes (P : TxnRow → Prop) {α : Type} (p : LedgerProg α) : Prop :=
  p.Calls fun op => ∀ row ∈ op.upserted, P row

variable {P : TxnRow → Prop} {α : Type}

theorem writes_issue {op : LedgerOp} (hop : op.upserted = []) : Writes P (issue op) :=
  Calls.invoke.mpr fun row hrow => by
    rw [hop] at hrow
    cases hrow

theorem LedgerOp.IsRead.upserted {op : LedgerOp} (hop : op.IsRead) : op.upserted = [] := by
  cases op <;> first | rfl | exact hop.elim

theorem ReadOnly.writes {p : LedgerProg α} (hp : ReadOnly p) : Writes P p :=
  hp.calls.mono fun op hop row hrow => by
    rw [hop.upserted] at hrow
    cases hrow

/-! ## The rows of an import -/

/-- The row of a broker transaction, when its symbol resolves. -/
def resolvedRow (resolver : SecurityResolver) (account sourceSystem : String)
    (t : BrokerTransaction) : Except String TxnRow :=
  if truthy t.symbol then do
    let resolved ← resolver (t.symbol.getD "") t.instrumentType
    pure (txnRow account sourceSystem (some resolved.securityId) t)
  else pure (txnRow account sourceSystem none t)

theorem ttTransactionId_resolvedRow {resolver : SecurityResolver} {account sourceSystem : String}
    {t : BrokerTransaction} {row : TxnRow}
    (h : resolvedRow resolver account sourceSystem t = .ok row) : row.ttTransactionId = t.id := by
  unfold resolvedRow at h
  split at h
  · cases hr : resolver (t.symbol.getD "") t.instrumentType with
    | error e =>
      rw [hr] at h
      cases h
    | ok resolved =>
      rw [hr] at h
      obtain rfl := Except.ok.inj h
      rfl
  · obtain rfl := Except.ok.inj h
    rfl

/-- The row is that of one of the records. -/
def RowOf (resolver : SecurityResolver) (account sourceSystem : String)
    (txns : List BrokerTransaction) (row : TxnRow) : Prop :=
  ∃ t ∈ txns, resolvedRow resolver account sourceSystem t = .ok row

section Imports

variable (resolver : SecurityResolver)

theorem ensures_resolveSecurity (seen : List String) (symbol : String)
    (instrumentType : Option String) :
    Ensures (fun op => ∀ row ∈ op.upserted, P row)
      (resolveSecurity resolver seen symbol instrumentType) fun r =>
        ∃ resolved, resolver symbol instrumentType = .ok resolved ∧ r.1 = resolved.securityId := by
  unfold resolveSecurity
  cases hr : resolver symbol instrumentType with
  | error e => exact Triple.raise rfl
  | ok resolved =>
    show Ensures _ (if seen.contains resolved.securityId then _ else _) _
    split
    · exact Ensures.pure ⟨resolved, rfl, rfl⟩
    · exact (Ensures.of_calls (writes_issue rfl)).bind fun _ _ =>
        Ensures.pure ⟨resolved, rfl, rfl⟩

theorem writes_resolveSecurity (seen : List String) (symbol : String)
    (instrumentType : Option String) :
    Writes P (resolveSecurity resolver seen symbol instrumentType) :=
  (ensures_resolveSecurity resolver seen symbol instrumentType).calls

theorem ensures_addRow (account sourceSystem : String) (w : List String × List TxnRow)
    (t : BrokerTransaction) :
    Ensures (fun op => ∀ row ∈ op.upserted, P row)
      (TransactionRepository.addRow resolver account sourceSystem w t) fun w' =>
        ∃ row, resolvedRow resolver account sourceSystem t = .ok row ∧ w'.2 = w.2 ++ [row] := by
  unfold TransactionRepository.addRow resolvedRow
  split
  · refine (ensures_resolveSecurity resolver w.1 _ t.instrumentType).bind fun r hr => ?_
    obtain ⟨resolved, hresolved, hid⟩ := hr
    refine Ensures.pure ⟨_, ?_, rfl⟩
    rw [hresolved, hid]
    rfl
  · exact Ensures.pure ⟨_, rfl, rfl⟩

/-- **An import** upserts the rows of its records. -/
theorem writes_upsertTransactions (txns : List BrokerTransaction) (account sourceSystem : String) :
    Writes (RowOf resolver account sourceSystem txns)
      (TransactionRepository.upsert resolver txns account sourceSystem) := by
  unfold TransactionRepository.upsert
  split
  · exact Calls.pure _
  · refine Ensures.calls (Φ := fun _ => True) ?_
    refine Ensures.bind (Φ := fun w => ∀ row ∈ w.2, RowOf resolver account sourceSystem txns row)
      (Ensures.foldlM _ (fun w t ht hw => ?_) (by simp)) fun w hw => ?_
    · refine (ensures_addRow resolver account sourceSystem w t).mono fun w' _ _ hw' => ?_
      obtain ⟨row, hrow, heq⟩ := hw'
      rw [heq]
      intro row' hrow'
      rcases List.mem_append.mp hrow' with hrow' | hrow'
      · exact hw row' hrow'
      · rw [List.mem_singleton.mp hrow']
        exact ⟨t, ht, hrow⟩
    · exact (Ensures.of_calls (Calls.invoke.mpr hw)).bind fun _ _ => Ensures.pure trivial

theorem writes_upsertFromHistory (placedOrders : List PlacedOrder) (account : String) :
    Writes P (OrderRepository.upsertFromHistory resolver placedOrders account) := by
  unfold OrderRepository.upsertFromHistory
  split
  · exact Calls.pure _
  · refine (Calls.foldlM (fun w po _ => ?_) _).bind fun w => ?_
    · refine (Calls.foldlM (fun w leg _ => ?_) _).bind fun _ => Calls.pure _
      exact (writes_resolveSecurity resolver _ _ _).bind fun _ => Calls.pure _
    · refine (Calls.mapM fun p _ => (readOnly_buildOrderRow account p.2 p.1).writes).bind
        fun rows => ?_
      exact (writes_issue rfl).bind fun _ => Calls.pure _

theorem writes_upsertPositions (positions : List BrokerPosition) (account : String) :
    Writes P (PositionRepository.upsert resolver positions account) := by
  unfold PositionRepository.upsert
  split
  · exact Calls.pure _
  · refine (Calls.foldlM (fun w p _ => ?_) _).bind fun w =>
      (writes_issue rfl).bind fun _ => Calls.pure _
    refine (writes_resolveSecurity resolver _ _ _).bind fun _ => ?_
    exact (writes_issue rfl).bind fun _ => Calls.pure _

theorem writes_recordOrder (order : OrderInput) : Writes P (recordOrder resolver order) := by
  refine Calls.bind ?_ fun tradeGroupId => (writes_issue rfl).bind fun at_ =>
    (writes_issue rfl).bind fun _ => (Calls.foldlM (fun w leg _ => ?_) _).bind fun _ => Calls.pure _
  · unfold tradeGroupPk
    split
    · exact Calls.pure _
    · refine (writes_issue rfl).bind fun pk? => ?_
      split
      · exact Calls.raise _
      · exact Calls.pure _
  · exact (writes_resolveSecurity resolver _ _ _).bind fun _ => Calls.pure _

end Imports

theorem writes_applyFillEvent (evt : FillEvent) : Writes P (applyFillEvent evt) := by
  refine (writes_issue rfl).bind fun existing => ?_
  split
  · exact Calls.pure _
  · exact (writes_issue rfl).bind fun _ => Calls.pure _

/-! ## The rows of a pass -/

/-- The row settles a group's lot of an expired security. -/
def IsSettlement (row : TxnRow) : Prop :=
  ∃ account securityId sec expiry points pk groupNet,
    row = lapseRow account securityId sec expiry points pk groupNet

section Pass

theorem writes_stampGroup (group : OpenGroup) (closedAt : Option Datetime) :
    Writes P (stampGroup group closedAt) := by
  refine (writes_issue rfl).bind fun tg? => ?_
  split
  · exact Calls.pure _
  · exact (readOnly_groupRealized _).writes.bind fun _ =>
      (writes_issue rfl).bind fun _ => Calls.pure _

theorem writes_applyExit (group : OpenGroup) (rows : List TxnRow)
    (rolledToPk deliveryPk : Option ℕ) :
    Writes P (applyExit group rows rolledToPk deliveryPk) := by
  refine (writes_issue rfl).bind fun _ => ?_
  simp only []
  split
  · exact (writes_issue rfl).bind fun _ => Calls.pure _
  · refine (Calls.forM fun _ _ => writes_issue rfl).bind fun _ => ?_
    split
    · exact (writes_stampGroup _ _).bind fun _ => Calls.pure _
    · exact Calls.pure _

theorem writes_attachOpening (group : OpenGroup) (opening : List TxnRow) :
    Writes P (attachOpening group opening) := by
  unfold attachOpening
  split
  · exact Calls.pure _
  · refine (writes_issue rfl).bind fun _ => Calls.bind ?_ fun _ => Calls.pure _
    refine (writes_issue rfl).bind fun tg? => ?_
    split
    · exact Calls.pure _
    · exact (readOnly_computeGroupFields _).writes.bind fun _ =>
        (writes_issue rfl).bind fun _ => Calls.pure _

theorem writes_applyIntentRows (openGroups : List OpenGroup) (cluster : List ActivityRow)
    (dryRun : Bool) : Writes P (applyIntentRows openGroups cluster dryRun) := by
  unfold applyIntentRows
  split
  · exact Calls.pure _
  refine Calls.foldlM (fun w e _ => ?_) _
  refine (readOnly_groupForPk w.1 e.1).writes.bind fun found => ?_
  obtain ⟨group?, openGroups⟩ := found
  cases group? with
  | none => exact Calls.pure _
  | some group =>
    refine (writes_attachOpening _ _).bind fun group => Calls.bind ?_ fun _ => Calls.pure _
    unfold applyIntentExit
    split
    · exact Calls.pure _
    · refine (writes_applyExit _ _ _ _).bind fun applied => ?_
      split <;> exact Calls.pure _

theorem writes_createTradeGroup (account : String) (cluster : List TxnRow) :
    Writes P (createTradeGroup account cluster) := by
  refine (readOnly_computeGroupFields cluster).writes.bind fun fields => ?_
  refine (writes_issue rfl).bind fun groupId => (writes_issue rfl).bind fun pk => ?_
  refine (writes_issue rfl).bind fun _ => Calls.bind ?_ fun orderPks => ?_
  · refine (Calls.foldlM (fun orders k _ => ?_) _).bind fun orders => ?_
    · refine (writes_issue rfl).bind fun order => ?_
      split <;> exact Calls.pure _
    · split
      · exact Calls.pure _
      · exact writes_issue rfl
  · exact (writes_issue rfl).bind fun _ => Calls.pure _

theorem writes_openRest (account : String) (dryRun : Bool) (pass : Pass) (rest : List TxnRow) :
    Writes P (openRest account dryRun pass rest) := by
  unfold openRest
  split
  · exact Calls.pure _
  · split
    · exact Calls.pure _
    · exact (writes_createTradeGroup account rest).bind fun _ => Calls.pure _

theorem writes_reconcileCluster (account : String) (dryRun : Bool) (pass : Pass)
    (cluster : List ActivityRow) : Writes P (reconcileCluster account dryRun pass cluster) := by
  refine (writes_applyIntentRows _ _ _).bind fun w => ?_
  obtain ⟨openGroups, left⟩ := w
  simp only []
  split
  · exact Calls.pure _
  · refine (writes_openRest _ _ _ _).bind fun w => ?_
    split
    · exact Calls.pure _
    · refine Calls.foldlM (fun pass bucket _ => ?_) _
      refine (readOnly_deliveryPk _ _ _).writes.bind fun delivery => ?_
      exact (writes_applyExit _ _ _ _).bind fun _ => Calls.pure _

theorem writes_linkRoll (ex : AppliedExit) (closedAt : Datetime) (created : List CreatedGroup) :
    Writes P (linkRoll ex closedAt created) := by
  induction created with
  | nil => exact Calls.pure _
  | cons cg created ih =>
    refine (readOnly_rollsInto _ _ _).writes.bind fun opened => ?_
    cases opened with
    | none => exact ih
    | some openedAt => exact writes_issue rfl

theorem writes_routeCandidates (account : String) (args : ReconcileArgs) :
    Writes P (routeCandidates account args) := by
  refine (writes_issue rfl).bind fun activity => ?_
  refine (readOnly_loadOpenGroups account).writes.bind fun openGroups => ?_
  refine (Calls.foldlM (fun pass cluster _ => writes_reconcileCluster _ _ pass cluster) _).bind
    fun pass => ?_
  split
  · refine (Calls.forM fun ex _ => ?_).bind fun _ => Calls.pure _
    split
    · split
      · exact Calls.pure _
      · exact writes_linkRoll _ _ _
    · exact Calls.pure _
  · exact Calls.pure _

theorem isSettlement_lapseRows {account securityId : String} {sec : SecurityRow} {expiry : Date}
    {points : ℚ} {openGroups : List OpenGroup} :
    ∀ row ∈ lapseRows account securityId sec expiry points openGroups, IsSettlement row := by
  intro row hrow
  obtain ⟨g, -, hg⟩ := List.mem_filterMap.mp hrow
  simp only [] at hg
  split at hg
  · cases hg
  · obtain rfl := Option.some.inj hg
    exact ⟨_, _, _, _, _, _, _, rfl⟩

theorem ensures_synthesizeSecurity (args : ReconcileArgs) (account : String)
    (lastActivity : Datetime) (openGroups : List OpenGroup) {synthesized : List TxnRow}
    (h : ∀ row ∈ synthesized, IsSettlement row) (securityId : String) :
    Ensures (fun op => ∀ row ∈ op.upserted, P row)
      (synthesizeSecurity args account lastActivity openGroups synthesized securityId)
      fun rows => ∀ row ∈ rows, IsSettlement row := by
  refine (Ensures.of_calls (writes_issue rfl)).bind fun sec? _ => ?_
  split
  · exact Ensures.pure h
  split
  · exact Ensures.pure h
  have hpoints : ∀ sec expiry, ReadOnly (settlePoints args sec securityId expiry) :=
    fun sec expiry => (lookup_settlePoints args sec securityId expiry).mono
      fun _ => LedgerOp.IsLookup.isRead
  refine (Ensures.of_calls (hpoints _ _).writes).bind fun points _ => ?_
  split
  · exact Ensures.pure h
  · refine Ensures.pure fun row hrow => ?_
    rcases List.mem_append.mp hrow with hrow | hrow
    · exact h row hrow
    · exact isSettlement_lapseRows row hrow

theorem writes_synthesizeLapsedSettlements (account : String) (args : ReconcileArgs) :
    Writes IsSettlement (synthesizeLapsedSettlements account args) := by
  refine (writes_issue rfl).bind fun activity => ?_
  split
  · exact Calls.pure _
  refine (readOnly_loadOpenGroups account).writes.bind fun openGroups => ?_
  refine Ensures.calls (Φ := fun _ => True) ?_
  refine Ensures.bind (Ensures.foldlM (fun rows => ∀ row ∈ rows, IsSettlement row)
    (fun rows sid _ hrows => ensures_synthesizeSecurity _ _ _ _ hrows sid) (by simp))
    fun synthesized hrows => Ensures.of_calls ?_
  split
  · refine (Calls.invoke.mpr hrows).bind fun _ => (Calls.forM fun g _ => ?_).bind
      fun _ => Calls.pure _
    unfold applyLapse
    simp only []
    split
    · exact Calls.pure _
    · exact (writes_applyExit _ _ _ _).bind fun _ => Calls.pure _
  · exact Calls.pure _

theorem writes_healFullyClosedGroups (account : String) (dryRun : Bool) :
    Writes P (healFullyClosedGroups account dryRun) := by
  refine (readOnly_loadOpenGroups account).writes.bind fun openGroups => ?_
  simp only []
  split
  · exact Calls.pure _
  · refine (Calls.forM fun g _ => ?_).bind fun _ => Calls.pure _
    refine (writes_issue rfl).bind fun tg? => ?_
    split
    · exact Calls.pure _
    · exact (readOnly_groupRealized _).writes.bind fun _ =>
        (writes_issue rfl).bind fun _ => writes_issue rfl

/-- **A pass** upserts settlement rows. -/
theorem writes_reconcile (account : Option String) (args : ReconcileArgs) :
    Writes IsSettlement (reconcile account args) := by
  refine (readOnly_accountsOf account args.since).writes.bind fun accounts => ?_
  refine Calls.foldlM (fun result account _ => Calls.tryCatch ?_ fun e => Calls.pure _) _
  refine Calls.bind (Calls.bind ?_ fun _ => ?_) fun _ => Calls.pure _
  · exact (writes_issue rfl).bind fun _ => (writes_issue rfl).bind fun _ =>
      (writes_issue rfl).bind fun _ => Calls.pure _
  · refine (writes_synthesizeLapsedSettlements account args).bind fun _ => ?_
    refine (writes_routeCandidates account args).bind fun _ => ?_
    exact (writes_healFullyClosedGroups account args.dryRun).bind fun _ => Calls.pure _

end Pass

/-! ## The operator's edits, rebuilds and repairs -/

theorem writes_rebuildPositionsFromTransactions (account : Option String) :
    Writes P (rebuildPositionsFromTransactions account) := by
  refine (readOnly_accountsOf account none).writes.bind fun accounts => ?_
  refine Calls.foldlM (fun result acct _ => Calls.tryCatch ?_ fun e => Calls.pure _) _
  refine Calls.bind ((writes_issue rfl).bind fun activity => ?_) fun _ => Calls.pure _
  refine (Calls.forM fun e _ => ?_).bind fun _ => Calls.pure _
  refine (Calls.map multiplierOf (writes_issue rfl)).bind fun multiplier => ?_
  refine (writes_issue rfl).bind fun sec => (writes_issue rfl).bind fun existing =>
    (writes_issue rfl).bind fun _ => (writes_issue rfl).bind fun positionId => ?_
  refine (Calls.foldlM (fun links entry _ => ?_) _).bind fun links =>
    (writes_issue rfl).bind fun _ => Calls.pure _
  unfold writeEntry
  simp only []
  split
  · exact Calls.pure _
  · exact (writes_issue rfl).bind fun _ => Calls.pure _

theorem writes_remapTradeGroup (groupId : String) (attribution : Attribution) :
    Writes P (remapTradeGroup groupId attribution) := by
  refine (writes_issue rfl).bind fun tg? => ?_
  split
  · exact Calls.raise _
  refine (writes_issue rfl).bind fun at_ => (writes_issue rfl).bind fun pk => ?_
  have hcascade : ∀ strategy updated, Writes P (cascadeStrategy strategy pk updated) := by
    intro strategy updated
    have hposition : Writes P (cascadeToPosition strategy pk updated) := by
      unfold cascadeToPosition
      split
      · exact Calls.pure _
      · refine (writes_issue rfl).bind fun position => ?_
        split
        · exact Calls.pure _
        · exact writes_issue rfl
    refine (writes_issue rfl).bind fun orders => ?_
    simp only []
    split
    · exact (writes_issue rfl).bind fun _ => hposition
    · exact hposition
  simp only []
  split
  · exact (hcascade _ _).bind fun _ => (writes_issue rfl).bind fun _ => Calls.pure _
  · exact (writes_issue rfl).bind fun _ => Calls.pure _

theorem writes_markTradeGroupUnfilled (groupId reviewedBy reason : String) :
    Writes P (markTradeGroupUnfilled groupId reviewedBy reason) := by
  refine (writes_issue rfl).bind fun tg? => ?_
  split
  · exact Calls.raise _
  refine Calls.bind ((writes_issue rfl).bind fun pk? => ?_) fun rows => ?_
  · split
    · exact writes_issue rfl
    · exact Calls.pure _
  · simp only []
    split
    · exact Calls.raise _
    · exact (writes_issue rfl).bind fun _ => (writes_issue rfl).bind fun _ =>
        (writes_issue rfl).bind fun _ => Calls.pure _

theorem writes_dismissTradeGroup (groupId reviewedBy : String) :
    Writes P (dismissTradeGroup groupId reviewedBy) := by
  refine (writes_issue rfl).bind fun tg? => ?_
  split
  · exact Calls.raise _
  · exact (writes_issue rfl).bind fun _ => (writes_issue rfl).bind fun _ =>
      (writes_issue rfl).bind fun _ => Calls.pure _

theorem writes_regroupTransactions (txnIds : List ℕ) (targetGroupId : Option String)
    (reviewedBy : String) :
    Writes P (regroupTransactions txnIds targetGroupId reviewedBy) := by
  unfold regroupTransactions
  split
  · exact Calls.pure _
  refine (writes_issue rfl).bind fun txns => ?_
  split
  · exact Calls.pure _
  refine (writes_issue rfl).bind fun at_ => Calls.bind ?_ fun pk => (writes_issue rfl).bind
    fun _ => Calls.foldlM (fun updated pk _ => ?_) _
  · cases targetGroupId with
    | none => exact (writes_issue rfl).bind fun _ => writes_issue rfl
    | some id =>
      refine (writes_issue rfl).bind fun tg? => ?_
      split
      · exact Calls.raise _
      · exact writes_issue rfl
  · refine (writes_issue rfl).bind fun tg? => ?_
    split
    · exact Calls.pure _
    refine Calls.bind ((writes_issue rfl).bind fun activity => ?_) fun _ =>
      (writes_issue rfl).bind fun _ => Calls.pure _
    refine (readOnly_computeGroupFields _).writes.bind fun fields => Calls.bind ?_ fun _ =>
      (writes_issue rfl).bind fun _ => Calls.pure _
    unfold recomputedLifecycle
    split
    · exact Calls.pure _
    · split
      · exact (readOnly_groupRealized _).writes.bind fun _ => Calls.pure _
      · exact Calls.pure _

/-- Linking an order ends with a pass. -/
theorem writes_linkOrderToGroup (ttOrderId : String) (targetGroupId : Option String)
    (reviewedBy : String) :
    Writes IsSettlement (linkOrderToGroup ttOrderId targetGroupId reviewedBy) := by
  refine (writes_issue rfl).bind fun order? => ?_
  split
  · exact Calls.raise _
  split
  · exact Calls.raise _
  refine (writes_issue rfl).bind fun at_ => Calls.bind ?_ fun pk => (writes_issue rfl).bind
    fun _ => (writes_issue rfl).bind fun _ => (writes_reconcile _ _).bind fun _ =>
      (writes_issue rfl).bind fun tg? => ?_
  · cases targetGroupId with
    | none => exact (writes_issue rfl).bind fun _ => writes_issue rfl
    | some id =>
      refine (writes_issue rfl).bind fun tg? => ?_
      split
      · exact Calls.raise _
      · split
        · exact Calls.raise _
        · exact writes_issue rfl
  · split
    · exact Calls.raise _
    · exact Calls.pure _

theorem writes_hasFuture (sids : List String) : Writes P (hasFuture sids) := by
  induction sids with
  | nil => exact Calls.pure _
  | cons sid sids ih =>
    refine (writes_issue rfl).bind fun sec? => ?_
    split
    · split
      · exact Calls.pure _
      · exact ih
    · exact ih

theorem writes_recomputeFuturesGroupPnl (str : ℚ → String) (account : Option String)
    (dryRun : Bool) : Writes P (recomputeFuturesGroupPnl str account dryRun) := by
  refine (readOnly_accountsOf account none).writes.bind fun accounts => ?_
  refine Calls.foldlM (fun changes acct _ => (writes_issue rfl).bind fun trades =>
    Calls.foldlM (fun changes trade _ => ?_) _) _
  unfold recomputeTrade
  split
  · exact Calls.pure _
  refine (writes_issue rfl).bind fun pk? => ?_
  split
  · exact Calls.pure _
  refine (writes_issue rfl).bind fun rows => (writes_hasFuture _).bind fun future => ?_
  split
  · refine (readOnly_groupRealized rows).writes.bind fun new => ?_
    split
    · exact Calls.pure _
    · simp only []
      split
      · refine Calls.bind ((writes_issue rfl).bind fun tg? => ?_) fun _ => Calls.pure _
        split
        · exact Calls.pure _
        · exact (writes_issue rfl).bind fun _ => writes_issue rfl
      · exact Calls.pure _
  · exact Calls.pure _

/-! ## Every task -/

/-- The rows of transactions a task may upsert. -/
def Task.Supplies : Task → TxnRow → Prop
  | importTransactions resolver _ account txns sourceSystem reconcileAfter, row =>
    RowOf resolver account sourceSystem txns row ∨ reconcileAfter ∧ IsSettlement row
  | linkOrder _ _ _, row => IsSettlement row
  | reconcile _ _, row => IsSettlement row
  | _, _ => False

/-- **Every task** upserts the transactions it supplies. -/
theorem writes_program (task : Task) : Writes task.Supplies task.program := by
  cases task with
  | openTradeGroup account input =>
    refine Calls.bind ?_ fun _ => Calls.pure _
    exact (writes_issue rfl).bind fun _ => (writes_issue rfl).bind fun _ =>
      (writes_issue rfl).bind fun _ => (writes_issue rfl).bind fun _ => Calls.pure _
  | recordOrder resolver order =>
    exact (writes_recordOrder resolver order).bind fun _ => Calls.pure _
  | importOrders resolver placedOrders account =>
    exact (writes_upsertFromHistory resolver placedOrders account).bind fun _ => Calls.pure _
  | importTransactions resolver settlementPrice account txns sourceSystem reconcileAfter =>
    refine Calls.bind (Calls.bind ?_ fun transactions => ?_) fun _ => Calls.pure _
    · refine (writes_upsertTransactions resolver txns account sourceSystem).mono ?_
      exact fun op hop row hrow => Or.inl (hop row hrow)
    · split
      · rename_i hafter
        refine ((writes_reconcile _ _).mono ?_).bind fun _ => Calls.pure _
        exact fun op hop row hrow => Or.inr ⟨hafter, hop row hrow⟩
      · exact Calls.pure _
  | importPositions resolver positions account =>
    exact (writes_upsertPositions resolver positions account).bind fun _ => Calls.pure _
  | applyFill evt => exact (writes_applyFillEvent evt).bind fun _ => Calls.pure _
  | linkOrder ttOrderId targetGroupId reviewedBy =>
    exact (writes_linkOrderToGroup ttOrderId targetGroupId reviewedBy).bind fun _ => Calls.pure _
  | regroup txnIds targetGroupId reviewedBy =>
    exact (writes_regroupTransactions txnIds targetGroupId reviewedBy).bind fun _ => Calls.pure _
  | remap groupId attribution =>
    exact (writes_remapTradeGroup groupId attribution).bind fun _ => Calls.pure _
  | markUnfilled groupId reviewedBy reason =>
    exact (writes_markTradeGroupUnfilled groupId reviewedBy reason).bind fun _ => Calls.pure _
  | dismiss groupId reviewedBy =>
    exact (writes_dismissTradeGroup groupId reviewedBy).bind fun _ => Calls.pure _
  | reconcile account args => exact (writes_reconcile account args).bind fun _ => Calls.pure _
  | rebuild account =>
    exact (writes_rebuildPositionsFromTransactions account).bind fun _ => Calls.pure _
  | recomputeFutures str account dryRun =>
    exact (writes_recomputeFuturesGroupPnl str account dryRun).bind fun _ => Calls.pure _

end TtLedger
