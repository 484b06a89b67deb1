import TtLedger.Ingest.NetLaws
import TtLedger.Ingest.Reconcile

/-!
# Runs on the in-memory store

What each program of the pass returns and leaves behind when it runs on the in-memory store, in
closed form: `exec p s = (.ok value, state)`. Programs that only read leave the state as it was;
`exec_applyExit`, `exec_attachOpening` and `exec_createTradeGroup` say which tables the writing
ones touch and how. Later modules reason about these states and do not unfold the programs.
-/

namespace TtLedger

open LedgerStore Prog

variable (s : InMemoryStore)

/-! ## Realized P&L and group columns -/

/-- Whether a row is a bare future's, by the securities dimension. -/
def isFutureRow (sec : String → Option SecurityRow) (r : TxnRow) : Bool :=
  isFuture (r.securityId.bind sec)

/-- Gross realized P&L of rows: cash of the premium-settled ones, price walk of each future. -/
def realizedOf (sec : String → Option SecurityRow) (rows : List TxnRow) : ℚ :=
  ((rows.filter fun r => !isFutureRow sec r).map TxnRow.signedGross).sum +
    ((groupBy TxnRow.securityId (rows.filter (isFutureRow sec))).entries.map fun e =>
      priceRealizedGross e.2 (multiplierOf (sec e.1)) true).sum

/-- What the walk over the members has collected. -/
structure RealizedInv (done : List TxnRow) (w : RealizedWalk) : Prop where
  cached : ∀ sid sec, w.securities.get? sid = some sec → sec = s.getSecurity sid
  known : ∀ r ∈ w.futuresRows, ∀ sid, r.securityId = some sid →
    w.securities.get? sid = some (s.getSecurity sid)
  futures : w.futuresRows = done.filter (isFutureRow s.getSecurity)
  total : w.total = ((done.filter fun r => !isFutureRow s.getSecurity r).map TxnRow.signedGross).sum

/-- Whether it was cached or is read now, the security is the stored one. -/
theorem exec_cacheSecurity {d : Dict String (Option SecurityRow)}
    (hd : ∀ k sec, d.get? k = some sec → sec = s.getSecurity k) (sid : String) :
    ∃ d', exec (cacheSecurity d sid) s = (.ok d', s) ∧
      d'.get? sid = some (s.getSecurity sid) ∧
      (∀ k sec, d'.get? k = some sec → sec = s.getSecurity k) ∧
      ∀ k, d.get? k = some (s.getSecurity k) → d'.get? k = some (s.getSecurity k) := by
  unfold cacheSecurity
  cases hget : d.get? sid with
  | some sec => exact ⟨d, rfl, by rw [hget, hd sid sec hget], hd, fun k hk => hk⟩
  | none =>
    refine ⟨d.set sid (s.getSecurity sid), rfl, by simp, ?_, ?_⟩
    · intro k sec hk
      rw [Dict.get?_set] at hk
      split at hk
      · rename_i h
        rw [h]
        exact (Option.some.inj hk).symm
      · exact hd k sec hk
    · intro k hk
      rw [Dict.get?_set]
      split
      · rename_i h
        rw [h]
      · exact hk

theorem exec_realizedRow {done : List TxnRow} {w : RealizedWalk} (hw : RealizedInv s done w)
    (r : TxnRow) :
    ∃ w', exec (realizedRow w r) s = (.ok w', s) ∧ RealizedInv s (done ++ [r]) w' := by
  unfold realizedRow
  cases hsid : r.securityId with
  | none =>
    have hf : isFutureRow s.getSecurity r = false := by simp [isFutureRow, hsid, isFuture]
    refine ⟨_, rfl, hw.cached, hw.known, ?_, ?_⟩
    · simp [hw.futures, hf]
    · simp [hw.total, hf]
  | some sid =>
    obtain ⟨secs, hrun, hself, hcached, hold⟩ := exec_cacheSecurity s hw.cached sid
    have hf : isFutureRow s.getSecurity r = isFuture ((secs.get? sid).join) := by
      simp [isFutureRow, hsid, hself]
    rw [exec_bind hrun]
    by_cases hfut : isFuture ((secs.get? sid).join) = true
    · rw [if_pos hfut]
      refine ⟨_, rfl, hcached, ?_, ?_, ?_⟩
      · intro q hq k hk
        rcases List.mem_append.mp hq with hq | hq
        · exact hold k (hw.known q hq k hk)
        · obtain rfl : q = r := by simpa using hq
          obtain rfl : k = sid := by rw [hsid] at hk; exact (Option.some.inj hk).symm
          exact hself
      · simp [hw.futures, hf, hfut]
      · simp [hw.total, hf, hfut]
    · rw [if_neg hfut]
      refine ⟨_, rfl, hcached, fun q hq k hk => hold k (hw.known q hq k hk), ?_, ?_⟩
      · simp [hw.futures, hf, hfut]
      · simp [hw.total, hf, hfut]

theorem exec_realizedRows {done : List TxnRow} {w : RealizedWalk} (hw : RealizedInv s done w)
    (rows : List TxnRow) :
    ∃ w', exec (rows.foldlM realizedRow w) s = (.ok w', s) ∧ RealizedInv s (done ++ rows) w' := by
  induction rows generalizing done w with
  | nil => exact ⟨w, rfl, by simpa using hw⟩
  | cons r rows ih =>
    obtain ⟨w₁, h₁, hw₁⟩ := exec_realizedRow s hw r
    obtain ⟨w₂, h₂, hw₂⟩ := ih hw₁
    refine ⟨w₂, ?_, by simpa using hw₂⟩
    rw [List.foldlM_cons, exec_bind h₁, h₂]

@[simp] theorem exec_groupRealized (rows : List TxnRow) :
    exec (groupRealized rows) s = (.ok (realizedOf s.getSecurity rows), s) := by
  have hinit : RealizedInv s [] {} :=
    { cached := by simp, known := by simp, futures := rfl, total := rfl }
  obtain ⟨w, hrun, hw⟩ := exec_realizedRows s hinit rows
  unfold groupRealized
  rw [exec_bind hrun]
  have hfut : (groupBy TxnRow.securityId w.futuresRows).entries.map (fun e =>
      priceRealizedGross e.2 (multiplierOf ((w.securities.get? e.1).join)) true) =
      (groupBy TxnRow.securityId w.futuresRows).entries.map fun e =>
        priceRealizedGross e.2 (multiplierOf (s.getSecurity e.1)) true := by
    refine List.map_congr_left fun e he => ?_
    obtain ⟨⟨r, hr, hsid⟩, -⟩ := mem_groupBy.mp (show (e.1, e.2) ∈ _ from he)
    rw [hw.known r hr e.1 hsid]
    rfl
  rw [exec_pure, hfut, hw.total, hw.futures, List.nil_append, realizedOf]

/-- The legs of a cluster, in first-seen order of their securities. -/
def legsOf (sec : String → Option SecurityRow) (cluster : List TxnRow) : List LegInfo :=
  (distinctSecurityIds cluster).filterMap fun sid => (sec sid).map (legInfo cluster sid)

/-- The derived columns of a cluster. -/
def fieldsOf (sec : String → Option SecurityRow) (cluster : List TxnRow) : GroupFields :=
  groupFieldsOf cluster (legsOf sec cluster)

@[simp] theorem exec_computeGroupFields (cluster : List TxnRow) :
    exec (computeGroupFields cluster) s = (.ok (fieldsOf s.getSecurity cluster), s) := by
  have hstep : ∀ (sids : List String) (legs : List LegInfo),
      exec (sids.foldlM (addLeg cluster) legs) s =
        (.ok (legs ++ sids.filterMap fun sid => (s.getSecurity sid).map (legInfo cluster sid)),
          s) := by
    intro sids
    induction sids with
    | nil => intro legs; simp
    | cons sid sids ih =>
      intro legs
      have hleg : exec (addLeg cluster legs sid) s =
          (.ok (legs ++ ((s.getSecurity sid).map (legInfo cluster sid)).toList), s) := by
        unfold addLeg
        rw [exec_bind (exec_getSecurity s sid)]
        cases s.getSecurity sid <;> simp
      rw [List.foldlM_cons, exec_bind hleg, ih]
      cases hsec : s.getSecurity sid <;> simp [hsec]
  unfold computeGroupFields
  rw [exec_bind (hstep _ [])]
  simp [fieldsOf, legsOf]

/-! ## Events and stamps -/

namespace InMemoryStore

def addEvents (events : List EventRow) : InMemoryStore :=
  events.foldl InMemoryStore.addTradeGroupEvent s

/-- The state after an attach. -/
def attached (ids : List String) (pk : ℕ) : InMemoryStore :=
  (s.attachTransactionsToTradeGroup ids pk).2

/-- The state after an upsert of a group. -/
def putGroup (tg : TradeGroupRow) : InMemoryStore := (s.upsertTradeGroup tg).2

/-- The state after a group is stamped by its rows. -/
def stamped (group : OpenGroup) (closedAt : Option Datetime) : InMemoryStore :=
  match s.getTradeGroupById group.pk with
  | none => s
  | some tg => s.putGroup (stamp tg group.rows closedAt (realizedOf s.getSecurity group.rows))

/-- The state after a group's columns are refined from its rows. -/
def refreshedGroup (group : OpenGroup) : InMemoryStore :=
  match s.getTradeGroupById group.pk with
  | none => s
  | some tg => s.putGroup (refreshed tg (fieldsOf s.getSecurity group.rows))

end InMemoryStore

@[simp] theorem exec_addEvents (events : List EventRow) :
    exec (addEvents events) s = (.ok (), s.addEvents events) :=
  run_forM_eq memory _ events s fun _ _ s => exec_addTradeGroupEvent s _

@[simp] theorem exec_stampGroup (group : OpenGroup) (closedAt : Option Datetime) :
    exec (stampGroup group closedAt) s = (.ok (), s.stamped group closedAt) := by
  unfold stampGroup InMemoryStore.stamped
  rw [exec_bind (exec_getTradeGroupById s _)]
  cases s.getTradeGroupById group.pk with
  | none => rfl
  | some tg =>
    rw [exec_bind (exec_groupRealized s _), exec_bind (exec_upsertTradeGroup s _)]
    rfl

@[simp] theorem exec_refreshGroupFinancials (group : OpenGroup) :
    exec (refreshGroupFinancials group) s = (.ok (), s.refreshedGroup group) := by
  unfold refreshGroupFinancials InMemoryStore.refreshedGroup
  rw [exec_bind (exec_getTradeGroupById s _)]
  cases s.getTradeGroupById group.pk with
  | none => rfl
  | some tg =>
    rw [exec_bind (exec_computeGroupFields s _), exec_bind (exec_upsertTradeGroup s _)]
    rfl

/-! ## Exits -/

/-- What `applyExit` returns. -/
def exitResult (group : OpenGroup) (rows : List TxnRow) (rolledToPk : Option ℕ) : AppliedExit :=
  if (group.newRows rows).isEmpty then
    ⟨group, [], fullyClosed group.rows, false,
      (s.getTradeGroupById group.pk).bind TradeGroupRow.closedAt⟩
  else
    ⟨group.extendUnique rows, group.newRows rows, fullyClosed (group.extendUnique rows).rows,
      rolledToPk.isSome, lastExecutedAt (group.newRows rows)⟩

/-- What `applyExit` leaves behind. -/
def exitState (group : OpenGroup) (rows : List TxnRow) (rolledToPk deliveryPk : Option ℕ) :
    InMemoryStore :=
  let s := s.attached (rows.map TxnRow.ttTransactionId) group.pk
  let new := group.newRows rows
  let group := group.extendUnique rows
  if new.isEmpty then s
  else
    let s := s.addEvents (exitEvents group.pk new (fullyClosed group.rows) rolledToPk deliveryPk)
    if fullyClosed group.rows then s.stamped group (lastExecutedAt new) else s

namespace OpenGroup

theorem newRows_newRows (g : OpenGroup) (rows : List TxnRow) :
    g.newRows (g.newRows rows) = g.newRows rows := by
  simp [newRows, List.filter_filter]

theorem extendUnique_newRows (g : OpenGroup) (rows : List TxnRow) :
    g.extendUnique (g.newRows rows) = g.extendUnique rows := by
  rw [extendUnique, newRows_newRows, extendUnique]

@[simp] theorem pk_extendUnique (g : OpenGroup) (rows : List TxnRow) :
    (g.extendUnique rows).pk = g.pk := rfl

end OpenGroup

@[simp] theorem exec_applyExit (group : OpenGroup) (rows : List TxnRow)
    (rolledToPk deliveryPk : Option ℕ) :
    exec (applyExit group rows rolledToPk deliveryPk) s =
      (.ok (exitResult s group rows rolledToPk), exitState s group rows rolledToPk deliveryPk) := by
  unfold applyExit exitResult exitState
  rw [exec_bind (exec_attachTransactionsToTradeGroup s _ _)]
  by_cases hnew : (group.newRows rows).isEmpty = true
  · simp only [hnew, if_true]
    rw [exec_bind (exec_getTradeGroupById _ _)]
    rfl
  · simp only [hnew, Bool.false_eq_true, if_false, group.extendUnique_newRows]
    rw [exec_bind (exec_addEvents _ _)]
    by_cases hclosed : fullyClosed (group.extendUnique rows).rows = true
    · simp only [hclosed, if_true]
      rw [exec_bind (exec_stampGroup _ _ _)]
      rfl
    · simp only [hclosed, Bool.false_eq_true, if_false]
      rfl

/-! ## Pre-attributed rows -/

/-- What `groupForPk` returns. -/
def groupForPkResult (openGroups : List OpenGroup) (pk : ℕ) : Option OpenGroup × List OpenGroup :=
  match openGroups.find? fun g => g.pk = pk with
  | some g => (some g, openGroups)
  | none =>
    match s.getTradeGroupById pk with
    | none => (none, openGroups)
    | some _ =>
      (some ⟨pk, s.getGroupTransactions pk⟩, openGroups ++ [⟨pk, s.getGroupTransactions pk⟩])

@[simp] theorem exec_groupForPk (openGroups : List OpenGroup) (pk : ℕ) :
    exec (groupForPk openGroups pk) s = (.ok (groupForPkResult s openGroups pk), s) := by
  unfold groupForPk groupForPkResult
  cases openGroups.find? fun g => g.pk = pk with
  | some g => rfl
  | none =>
    simp only []
    rw [exec_bind (exec_getTradeGroupById s _)]
    cases s.getTradeGroupById pk with
    | none => rfl
    | some _ => rfl

/-- What `attachOpening` leaves behind. -/
def openingState (group : OpenGroup) (opening : List TxnRow) : InMemoryStore :=
  if opening.isEmpty then s
  else
    (s.attached (opening.map TxnRow.ttTransactionId) group.pk).refreshedGroup
      (group.extendUnique opening)

@[simp] theorem exec_attachOpening (group : OpenGroup) (opening : List TxnRow) :
    exec (attachOpening group opening) s =
      (.ok (group.extendUnique opening), openingState s group opening) := by
  unfold attachOpening openingState
  by_cases h : opening.isEmpty = true
  · have : group.extendUnique opening = group := by
      rw [List.isEmpty_iff.mp h]
      simp [OpenGroup.extendUnique, OpenGroup.newRows]
    simp [h, this]
  · simp only [h, Bool.false_eq_true, if_false]
    rw [exec_bind (exec_attachTransactionsToTradeGroup s _ _),
      exec_bind (exec_refreshGroupFinancials _ _)]
    rfl

/-- What `applyIntentExit` returns. -/
def intentExitResult (openGroups : List OpenGroup) (group : OpenGroup) (closing : List TxnRow) :
    List OpenGroup :=
  if closing.isEmpty then openGroups
  else if (exitResult s group closing none).fullyClosed then removeGroup openGroups group.pk
  else replaceGroup openGroups (exitResult s group closing none).group

/-- What `applyIntentExit` leaves behind. -/
def intentExitState (group : OpenGroup) (closing : List TxnRow) : InMemoryStore :=
  if closing.isEmpty then s else exitState s group closing none none

@[simp] theorem exec_applyIntentExit (openGroups : List OpenGroup) (group : OpenGroup)
    (closing : List TxnRow) :
    exec (applyIntentExit openGroups group closing) s =
      (.ok (intentExitResult s openGroups group closing), intentExitState s group closing) := by
  unfold applyIntentExit intentExitResult intentExitState
  by_cases h : closing.isEmpty = true
  · simp [h]
  · simp only [h, Bool.false_eq_true, if_false]
    rw [exec_bind (exec_applyExit s _ _ _ _)]
    by_cases hc : (exitResult s group closing none).fullyClosed = true
    · simp [hc]
    · simp [hc]

/-- The rows of a pre-attributed order that open, and those that close. -/
def openingRows (rows : List ActivityRow) : List TxnRow :=
  (rows.map ActivityRow.toTxnRow).filter fun r => !r.isClosing

def closingRows (rows : List ActivityRow) : List TxnRow :=
  (rows.map ActivityRow.toTxnRow).filter TxnRow.isClosing

/-- One iteration of `applyIntentRows`: the open groups, the rows still to be routed and the
state. -/
def intentStep (w : (List OpenGroup × List ActivityRow) × InMemoryStore)
    (e : ℕ × List ActivityRow) : (List OpenGroup × List ActivityRow) × InMemoryStore :=
  let r := groupForPkResult w.2 w.1.1 e.1
  match r.1 with
  | none => ((r.2, w.1.2 ++ e.2), w.2)
  | some group =>
    let s := openingState w.2 group (openingRows e.2)
    let group := group.extendUnique (openingRows e.2)
    ((intentExitResult s (replaceGroup r.2 group) group (closingRows e.2), w.1.2),
      intentExitState s group (closingRows e.2))

theorem exec_applyIntent (w : List OpenGroup × List ActivityRow) (e : ℕ × List ActivityRow) :
    exec (applyIntent w e) s = (.ok (intentStep (w, s) e).1, (intentStep (w, s) e).2) := by
  unfold applyIntent intentStep
  rw [exec_bind (exec_groupForPk s _ _)]
  simp only []
  cases (groupForPkResult s w.1 e.1).1 with
  | none => rfl
  | some group =>
    simp only []
    rw [exec_bind (exec_attachOpening s _ _), exec_bind (exec_applyIntentExit _ _ _ _)]
    rfl

/-- What `applyIntentRows` returns and leaves behind. -/
def intentRows (openGroups : List OpenGroup) (cluster : List ActivityRow) (dryRun : Bool) :
    (List OpenGroup × List ActivityRow) × InMemoryStore :=
  if dryRun then ((openGroups, unattributed cluster), s)
  else (intentOf cluster).entries.foldl intentStep ((openGroups, unattributed cluster), s)

theorem exec_applyIntentRows (openGroups : List OpenGroup) (cluster : List ActivityRow)
    (dryRun : Bool) :
    exec (applyIntentRows openGroups cluster dryRun) s =
      (.ok (intentRows s openGroups cluster dryRun).1,
        (intentRows s openGroups cluster dryRun).2) := by
  unfold applyIntentRows intentRows
  cases dryRun with
  | true => rfl
  | false =>
    simp only [Bool.false_eq_true, if_false]
    exact run_foldlM_eq memory intentStep _ ((openGroups, unattributed cluster), s)
      fun e _ w => exec_applyIntent w.2 w.1 e

/-! ## New groups -/

/-- The stored orders a cluster names, under their new group. -/
def ordersToUpdate (groupPk : ℕ) (cluster : List TxnRow) : List OrderRow :=
  (ttOrderIds cluster).filterMap fun k =>
    (s.getOrder k).map fun order => { order with tradeGroupId := some groupPk }

/-- What `stampOrders` leaves behind. -/
def stampedOrders (groupPk : ℕ) (cluster : List TxnRow) : InMemoryStore :=
  (s.upsertOrders (ordersToUpdate s groupPk cluster)).2

theorem exec_stampOrders (groupPk : ℕ) (cluster : List TxnRow) :
    exec (stampOrders groupPk cluster) s =
      (.ok (s.upsertOrders (ordersToUpdate s groupPk cluster)).1,
        stampedOrders s groupPk cluster) := by
  have hstep : ∀ (ks : List String) (orders : List OrderRow),
      exec (ks.foldlM (orderToUpdate groupPk) orders) s =
        (.ok (orders ++ ks.filterMap fun k =>
          (s.getOrder k).map fun order => { order with tradeGroupId := some groupPk }), s) := by
    intro ks
    induction ks with
    | nil => intro orders; simp
    | cons k ks ih =>
      intro orders
      have horder : exec (orderToUpdate groupPk orders k) s =
          (.ok (orders ++ ((s.getOrder k).map fun order =>
            { order with tradeGroupId := some groupPk }).toList), s) := by
        unfold orderToUpdate
        rw [exec_bind (exec_getOrder s k)]
        cases s.getOrder k <;> simp
      rw [List.foldlM_cons, exec_bind horder, ih]
      cases hk : s.getOrder k <;> simp [hk]
  unfold stampOrders stampedOrders
  rw [exec_bind (hstep _ [])]
  simp only [List.nil_append]
  by_cases h : (ordersToUpdate s groupPk cluster).isEmpty = true
  · have hnil := List.isEmpty_iff.mp h
    rw [ordersToUpdate] at hnil ⊢
    simp only [hnil]
    rfl
  · rw [ordersToUpdate] at h ⊢
    simp only [h, Bool.false_eq_true, if_false]
    rfl

/-- The state in which a new group's row has been written. -/
def groupWritten (account : String) (cluster : List TxnRow) : InMemoryStore :=
  s.uuid4.2.putGroup (newGroupRow s.freshGroupId account (fieldsOf s.getSecurity cluster))

/-- The key of the next group created. -/
def newPk (account : String) (cluster : List TxnRow) : ℕ :=
  (s.uuid4.2.upsertTradeGroup
    (newGroupRow s.freshGroupId account (fieldsOf s.getSecurity cluster))).1

/-- The entry event of a new group. -/
def entryEvent (groupPk : ℕ) (fields : GroupFields) (orderId : Option ℕ) : EventRow where
  tradeGroupId := groupPk
  eventType := .entry
  quantityChange := fields.quantity.getD 0
  premiumChange := fields.totalPremium
  eventAt := fields.executedAt
  orderId := orderId

/-- The state in which a new group has its members. -/
def groupAttached (account : String) (cluster : List TxnRow) : InMemoryStore :=
  (groupWritten s account cluster).attached (cluster.map TxnRow.ttTransactionId)
    (newPk s account cluster)

/-- What `createTradeGroup` leaves behind. -/
def createState (account : String) (cluster : List TxnRow) : InMemoryStore :=
  let groupPk := newPk s account cluster
  let s' := groupAttached s account cluster
  (stampedOrders s' groupPk cluster).addTradeGroupEvent
    (entryEvent groupPk (fieldsOf s.getSecurity cluster)
      (s'.upsertOrders (ordersToUpdate s' groupPk cluster)).1.head?)

theorem exec_createTradeGroup (account : String) (cluster : List TxnRow) :
    exec (createTradeGroup account cluster) s =
      (.ok (newPk s account cluster), createState s account cluster) := by
  unfold createTradeGroup
  rw [exec_bind (exec_computeGroupFields s _), exec_bind (exec_uuid4 s),
    exec_bind (exec_upsertTradeGroup _ _),
    exec_bind (exec_attachTransactionsToTradeGroup _ _ _), exec_bind (exec_stampOrders _ _ _),
    exec_bind (exec_addTradeGroupEvent _ _)]
  rfl

end TtLedger
