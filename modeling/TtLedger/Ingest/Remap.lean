import TtLedger.Ingest.Reconcile

/-!
# Operator edits

The operator's programs of `ingest/remap.py`: `remapTradeGroup` sets a group's attribution,
`regroupTransactions` moves transactions between groups and recomputes both ends
(`recomputeGroup`), `linkOrderToGroup` pre-attributes an order and reconciles its account,
`markTradeGroupUnfilled` retires a group that never traded and `dismissTradeGroup` one that is not
a trade. Texts are quoted as `repr` quotes a string without quotes or escapes.
-/

namespace TtLedger

open LedgerStore

/-- `repr` of a string. -/
def quoted (s : String) : String := "'" ++ s ++ "'"

/-- A group an operator opens. -/
def manualGroupRow (groupId account reviewedBy : String) (now : Datetime) : TradeGroupRow where
  groupId
  account
  origin := .broker
  reviewStatus := .needsReview
  manuallyAttributed := true
  status := .open
  reviewedBy := some reviewedBy
  reviewedAt := some now

/-- Mark a group as edited by an operator. -/
def reviewed (tg : TradeGroupRow) (reviewedBy : String) (now : Datetime) : TradeGroupRow :=
  { tg with manuallyAttributed := true, reviewedBy := some reviewedBy, reviewedAt := some now }

/-- The event of an operator's edit. -/
def adjustment (pk : ℕ) (at_ : Datetime) (notes : String) : EventRow where
  tradeGroupId := pk
  eventType := .adjustment
  eventAt := some at_
  notes := some notes

/-! ## Attribution -/

/-- The attribution an operator sets. -/
structure Attribution where
  strategy : Option ℕ := none
  bot : Option String := none
  signal : Option String := none
  strategyType : Option String := none
  reviewedBy : String

/-- A group under an operator's attribution; what is not given stays. -/
def remapped (tg : TradeGroupRow) (attribution : Attribution) (now : Datetime) : TradeGroupRow :=
  { tg with
    strategyId := attribution.strategy <|> tg.strategyId
    botName := attribution.bot <|> tg.botName
    signalId := attribution.signal <|> tg.signalId
    strategyType := attribution.strategyType <|> tg.strategyType
    manuallyAttributed := true
    reviewStatus := .confirmed
    reviewedBy := some attribution.reviewedBy
    reviewedAt := some now }

/-- Give the position of a group in one security the group's strategy. -/
def cascadeToPosition (strategy groupPk : ℕ) (updated : TradeGroupRow) : LedgerProg Unit :=
  match updated.securityId with
  | none => pure ()
  | some securityId => do
    match ← getPosition updated.account securityId with
    | none => pure ()
    | some position =>
      upsertPositions
        [{ position with strategyId := some strategy, tradeGroupId := some groupPk }]

/-- Give a group's orders, and its position, the group's strategy. -/
def cascadeStrategy (strategy groupPk : ℕ) (updated : TradeGroupRow) : LedgerProg Unit := do
  let orders ← queryOrders { tradeGroupId := some groupPk }
  if !orders.isEmpty then
    let _ ← upsertOrders (orders.map fun order => { order with strategyId := some strategy })
  cascadeToPosition strategy groupPk updated

/-- Set a group's attribution and cascade its strategy. -/
def remapTradeGroup (groupId : String) (attribution : Attribution) :
    LedgerProg TradeGroupRow := do
  match ← getTradeGroup groupId with
  | none => .raise ("trade group " ++ quoted groupId ++ " not found")
  | some tg =>
    let at_ ← now
    let updated := remapped tg attribution at_
    let groupPk ← upsertTradeGroup updated
    match attribution.strategy with
    | some strategy => cascadeStrategy strategy groupPk updated
    | none => pure ()
    addTradeGroupEvent (adjustment groupPk at_ ("remapped by " ++ attribution.reviewedBy))
    pure updated

/-! ## Regrouping -/

/-- A group's columns, recomputed from its rows; its lifecycle stays. -/
def recomputed (tg : TradeGroupRow) (fields : GroupFields) : TradeGroupRow :=
  { tg with
    underlying := fields.underlying
    securityId := fields.securityId
    strategyType := some fields.strategyType
    legCount := fields.legCount
    totalPremium := some fields.totalPremium
    totalFees := some fields.totalFees
    quantity := fields.quantity
    executedAt := fields.executedAt }

/-- The lifecycle after a move: an empty group is ignored and loses its P&L, a fully closed one
is stamped, and any other is left as it was. -/
def recomputedLifecycle (tg : TradeGroupRow) (cluster : List TxnRow) :
    LedgerProg TradeGroupRow :=
  if cluster.isEmpty then pure { tg with reviewStatus := .ignored, realizedPnl := none }
  else if fullyClosed cluster then do
    let realized ← groupRealized cluster
    pure (stamp tg cluster (lastExecutedAt cluster) realized)
  else pure tg

/-- Re-derive a group's columns and lifecycle from the transactions it holds after a move. -/
def recomputeGroup (pk : ℕ) (tg : TradeGroupRow) : LedgerProg TradeGroupRow := do
  let activity ← accountActivity { account := some tg.account }
  let cluster := (activity.map ActivityRow.toTxnRow).filter fun r => r.tradeGroupId = some pk
  let fields ← computeGroupFields cluster
  let updated ← recomputedLifecycle (recomputed tg fields) cluster
  let _ ← upsertTradeGroup updated
  pure updated

/-- Recompute one group affected by a move and record the edit. -/
def recomputeAffected (reviewedBy : String) (now : Datetime) (updated : List TradeGroupRow)
    (pk : ℕ) : LedgerProg (List TradeGroupRow) := do
  match ← getTradeGroupById pk with
  | none => pure updated
  | some tg =>
    let group ← recomputeGroup pk tg
    addTradeGroupEvent (adjustment pk now ("regrouped by " ++ reviewedBy))
    pure (updated ++ [group])

/-- The group transactions move to: a new one, or the target under its operator mark. -/
def regroupTarget (account : String) (targetGroupId : Option String) (reviewedBy : String)
    (at_ : Datetime) : LedgerProg ℕ := do
  match targetGroupId with
  | none =>
    let groupId ← uuid4
    upsertTradeGroup (manualGroupRow groupId account reviewedBy at_)
  | some targetGroupId =>
    match ← getTradeGroup targetGroupId with
    | none => .raise ("target trade group " ++ quoted targetGroupId ++ " not found")
    | some targetTg => upsertTradeGroup (reviewed targetTg reviewedBy at_)

/-- Move transactions, by surrogate id, into a group and recompute every group affected. -/
def regroupTransactions (txnIds : List ℕ) (targetGroupId : Option String) (reviewedBy : String) :
    LedgerProg (List TradeGroupRow) := do
  if txnIds.isEmpty then pure []
  else
    let txns ← getTransactionsById txnIds
    match txns.head? with
    | none => pure []
    | some first =>
      let sources := (txns.filterMap TxnRow.tradeGroupId).eraseDups
      let at_ ← now
      let targetGroupPk ← regroupTarget first.account targetGroupId reviewedBy at_
      let _ ← moveTransactionsToGroup txnIds (some targetGroupPk)
      (sources ++ [targetGroupPk]).eraseDups.foldlM (recomputeAffected reviewedBy at_) []

/-! ## Linking an order -/

/-- The group an order is linked to. -/
def linkTarget (order : OrderRow) (ttOrderId : String) (targetGroupId : Option String)
    (reviewedBy : String) (at_ : Datetime) : LedgerProg ℕ := do
  match targetGroupId with
  | none =>
    let groupId ← uuid4
    upsertTradeGroup
      { manualGroupRow groupId order.account reviewedBy at_ with
        underlying := order.underlying
        securityId := order.securityId }
  | some targetGroupId =>
    match ← getTradeGroup targetGroupId with
    | none => .raise ("target trade group " ++ quoted targetGroupId ++ " not found")
    | some targetTg =>
      if targetTg.account ≠ order.account then
        .raise ("target trade group " ++ quoted targetGroupId ++ " belongs to account " ++
          quoted targetTg.account ++ ", order " ++ quoted ttOrderId ++ " to " ++
          quoted order.account)
      else upsertTradeGroup (reviewed targetTg reviewedBy at_)

/-- Attach an unlinked order to a group, or to a new one, and reconcile its account. -/
def linkOrderToGroup (ttOrderId : String) (targetGroupId : Option String) (reviewedBy : String) :
    LedgerProg TradeGroupRow := do
  match ← getOrder ttOrderId with
  | none => .raise ("order " ++ quoted ttOrderId ++ " not found")
  | some order =>
    match order.tradeGroupId with
    | some pk =>
      .raise ("order " ++ quoted ttOrderId ++ " is already linked to trade group pk=" ++
        toString pk ++ " — move its transactions with regroup instead")
    | none =>
      let at_ ← now
      let groupPk ← linkTarget order ttOrderId targetGroupId reviewedBy at_
      let _ ← upsertOrders [{ order with tradeGroupId := some groupPk }]
      addTradeGroupEvent
        (adjustment groupPk at_ ("order " ++ ttOrderId ++ " linked by " ++ reviewedBy))
      let _ ← reconcile (some order.account) {}
      match ← getTradeGroupById groupPk with
      | none => .raise ("trade group pk=" ++ toString groupPk ++ " vanished during link")
      | some tg => pure tg

/-! ## Unfilled groups -/

/-- The transactions of a group, by its public identifier. -/
def transactionsOf (groupId : String) : LedgerProg (List TxnRow) := do
  match ← getTradeGroupId groupId with
  | some pk => getGroupTransactions pk
  | none => pure []

/-- Retire a group whose order never filled; a group with transactions is refused. -/
def markTradeGroupUnfilled (groupId reviewedBy reason : String) : LedgerProg TradeGroupRow := do
  match ← getTradeGroup groupId with
  | none => .raise ("trade group " ++ quoted groupId ++ " not found")
  | some tg =>
    let rows ← transactionsOf groupId
    if !rows.isEmpty then
      .raise ("trade group " ++ quoted groupId ++ " has " ++ toString rows.length ++
        " transaction(s) -- it traded, so it is not unfilled; let the exit machinery set its " ++
        "terminal status")
    else
      let at_ ← now
      let updated := { tg with
        status := .unfilled, reviewedBy := some reviewedBy, reviewedAt := some at_ }
      let groupPk ← upsertTradeGroup updated
      let note := "marked unfilled by " ++ reviewedBy
      addTradeGroupEvent
        (adjustment groupPk at_ (if reason = "" then note else note ++ ": " ++ reason))
      pure updated

/-! ## Dismissed groups -/

/-- A group that is not a trade, out of the review queue; dismissing is not attributing. -/
def dismissed (tg : TradeGroupRow) (reviewedBy : String) (at_ : Datetime) : TradeGroupRow :=
  { tg with reviewStatus := .ignored, reviewedBy := some reviewedBy, reviewedAt := some at_ }

/-- Ignore a group. -/
def dismissTradeGroup (groupId reviewedBy : String) : LedgerProg TradeGroupRow := do
  match ← getTradeGroup groupId with
  | none => .raise ("trade group " ++ quoted groupId ++ " not found")
  | some tg =>
    let at_ ← now
    let groupPk ← upsertTradeGroup (dismissed tg reviewedBy at_)
    addTradeGroupEvent (adjustment groupPk at_ ("dismissed by " ++ reviewedBy))
    pure (dismissed tg reviewedBy at_)

end TtLedger
