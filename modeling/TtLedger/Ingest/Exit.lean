import TtLedger.Ingest.Route
import TtLedger.Ingest.Strategy

/-!
# Attaching rows to groups

The programs that change a group: `applyExit` attaches closing rows to an open group, records the
lifecycle events and stamps a group they close; `refreshGroupFinancials` refines a group's columns
from its members; `applyIntentRows` routes the rows of pre-attributed orders; `createTradeGroup`
opens a group for the rows nobody closes. An open group is a value here: a program that adds
members to it returns the group it has become, and its caller replaces it in the list of open
groups.
-/

namespace TtLedger

open LedgerStore

/-! ## Open groups -/

/-- The open group of one trade, when the trade still exists. -/
def loadOpenGroup (groups : List OpenGroup) (trade : TradeGroupRow) :
    LedgerProg (List OpenGroup) := do
  match ← getTradeGroupId trade.groupId with
  | none => pure groups
  | some pk =>
    let rows ← getGroupTransactions pk
    pure (groups ++ [⟨pk, rows⟩])

def loadOpenGroups (account : String) : LedgerProg (List OpenGroup) := do
  let trades ← unifiedTrades { account := some account, status := some .open }
  trades.foldlM loadOpenGroup []

/-- Put what a group has become in its place. -/
def replaceGroup (openGroups : List OpenGroup) (group : OpenGroup) : List OpenGroup :=
  openGroups.map fun g => if g.pk = group.pk then group else g

/-- Take a group out of the open ones. -/
def removeGroup (openGroups : List OpenGroup) (pk : ℕ) : List OpenGroup :=
  openGroups.filter fun g => g.pk ≠ pk

/-! ## Exits -/

/-- What applying an exit did: the group it became, the rows that were new to it. -/
structure AppliedExit where
  group : OpenGroup
  rows : List TxnRow
  fullyClosed : Bool
  rolled : Bool
  closedAt : Option Datetime

/-- The rows of an exit that trade. -/
def tradeRows (rows : List TxnRow) : List TxnRow :=
  rows.filter fun r => !r.isNontradeClose && (isClosingAction r.action || isBareAction r.action)

/-- The event of the trade rows of an exit. -/
def exitEvent (pk : ℕ) (rows : List TxnRow) (closed : Bool) : EventRow where
  tradeGroupId := pk
  eventType := if closed then .fullExit else .partialExit
  quantityChange := -((tradeRows rows).map TxnRow.absQuantity).sum
  premiumChange := ((tradeRows rows).map TxnRow.signedNet).sum
  eventAt := lastExecutedAt rows

/-- The settlement rows of an exit under their events. -/
def rdRowsByEvent (rows : List TxnRow) : List (TradeGroupEventType × List TxnRow) :=
  (groupBy (fun r => if r.isNontradeClose then rdEventBySubtype r.transactionSubType else none)
    rows).entries

/-- The event of settlement rows of one kind. -/
def settlementEvent (pk : ℕ) (rows : List TxnRow) (deliveryPk : Option ℕ)
    (e : TradeGroupEventType × List TxnRow) : EventRow where
  tradeGroupId := pk
  eventType := e.1
  quantityChange := -settledQuantity e.2
  premiumChange := (e.2.map TxnRow.signedNet).sum
  eventAt := lastExecutedAt e.2 <|> lastExecutedAt rows
  rolledToGroupId := if e.1 = .assignment ∨ e.1 = .exercise then deliveryPk else none

/-- The events an exit records, in order. -/
def exitEvents (pk : ℕ) (rows : List TxnRow) (closed : Bool) (rolledToPk deliveryPk : Option ℕ) :
    List EventRow :=
  (if (tradeRows rows).isEmpty then [] else [exitEvent pk rows closed]) ++
    (rdRowsByEvent rows).map (settlementEvent pk rows deliveryPk) ++
    match rolledToPk with
    | some rolledTo =>
      [{ tradeGroupId := pk, eventType := .roll, eventAt := lastExecutedAt rows,
         rolledToGroupId := some rolledTo }]
    | none => []

/-- Add events one by one. -/
def addEvents (events : List EventRow) : LedgerProg Unit :=
  events.forM addTradeGroupEvent

/-- The lifecycle columns of a group whose rows have closed it. -/
def stamp (tg : TradeGroupRow) (rows : List TxnRow) (closedAt : Option Datetime) (realized : ℚ) :
    TradeGroupRow :=
  { tg with
    status := closedStatus rows
    closedAt
    realizedPnl := some realized
    totalFees := some (totalFees rows) }

/-- Stamp a group its rows have closed, when it still exists. -/
def stampGroup (group : OpenGroup) (closedAt : Option Datetime) : LedgerProg Unit := do
  match ← getTradeGroupById group.pk with
  | none => pure ()
  | some tg =>
    let realized ← groupRealized group.rows
    let _ ← upsertTradeGroup (stamp tg group.rows closedAt realized)

/-- Attach closing rows to their open group, record the events and stamp the group once it is
fully offset. Rows the group already holds are not applied again. -/
def applyExit (group : OpenGroup) (rows : List TxnRow) (rolledToPk deliveryPk : Option ℕ) :
    LedgerProg AppliedExit := do
  let _ ← attachTransactionsToTradeGroup (rows.map TxnRow.ttTransactionId) group.pk
  let rows := group.newRows rows
  if rows.isEmpty then
    let tg ← getTradeGroupById group.pk
    pure ⟨group, [], fullyClosed group.rows, false, tg.bind TradeGroupRow.closedAt⟩
  else
    let group := group.extendUnique rows
    let closed := fullyClosed group.rows
    let eventAt := lastExecutedAt rows
    addEvents (exitEvents group.pk rows closed rolledToPk deliveryPk)
    if closed then stampGroup group eventAt
    pure ⟨group, rows, closed, rolledToPk.isSome, eventAt⟩

/-! ## Pre-attributed rows -/

/-- The open group with a key; a group that is not open is loaded and joins the open ones. -/
def groupForPk (openGroups : List OpenGroup) (pk : ℕ) :
    LedgerProg (Option OpenGroup × List OpenGroup) := do
  match openGroups.find? fun g => g.pk = pk with
  | some g => pure (some g, openGroups)
  | none =>
    match ← getTradeGroupById pk with
    | none => pure (none, openGroups)
    | some _ =>
      let rows ← getGroupTransactions pk
      pure (some ⟨pk, rows⟩, openGroups ++ [⟨pk, rows⟩])

/-- The columns a group takes from its members; what was set at submit time stays. -/
def refreshed (tg : TradeGroupRow) (fields : GroupFields) : TradeGroupRow :=
  { tg with
    totalPremium := some fields.totalPremium
    totalFees := some fields.totalFees
    quantity := fields.quantity
    legCount := fields.legCount
    underlying := orElse tg.underlying fields.underlying
    securityId := orElse tg.securityId fields.securityId
    strategyType := orElse tg.strategyType (some fields.strategyType)
    executedAt := fields.executedAt <|> tg.executedAt }

/-- Refine a group's fill-derived columns from its members. -/
def refreshGroupFinancials (group : OpenGroup) : LedgerProg Unit := do
  match ← getTradeGroupById group.pk with
  | none => pure ()
  | some tg =>
    let fields ← computeGroupFields group.rows
    let _ ← upsertTradeGroup (refreshed tg fields)

/-- Attach the opening rows of a pre-attributed order. -/
def attachOpening (group : OpenGroup) (opening : List TxnRow) : LedgerProg OpenGroup := do
  if opening.isEmpty then pure group
  else
    let _ ← attachTransactionsToTradeGroup (opening.map TxnRow.ttTransactionId) group.pk
    let group := group.extendUnique opening
    refreshGroupFinancials group
    pure group

/-- Apply the closing rows of a pre-attributed order. -/
def applyIntentExit (openGroups : List OpenGroup) (group : OpenGroup) (closing : List TxnRow) :
    LedgerProg (List OpenGroup) := do
  if closing.isEmpty then pure openGroups
  else
    let applied ← applyExit group closing none none
    if applied.fullyClosed then pure (removeGroup openGroups group.pk)
    else pure (replaceGroup openGroups applied.group)

/-- Route the rows pre-attributed to one group; they stay to be routed when it is gone. -/
def applyIntent (w : List OpenGroup × List ActivityRow) (e : ℕ × List ActivityRow) :
    LedgerProg (List OpenGroup × List ActivityRow) := do
  let (group?, openGroups) ← groupForPk w.1 e.1
  match group? with
  | none => pure (openGroups, w.2 ++ e.2)
  | some group =>
    let rows := e.2.map ActivityRow.toTxnRow
    let group ← attachOpening group (rows.filter fun r => !r.isClosing)
    let openGroups ← applyIntentExit (replaceGroup openGroups group) group
      (rows.filter TxnRow.isClosing)
    pure (openGroups, w.2)

/-- The rows of a cluster whose order was pre-attributed, under the group it names. -/
def intentOf (cluster : List ActivityRow) : Dict ℕ (List ActivityRow) :=
  groupBy ActivityRow.orderTradeGroupId cluster

/-- The rows of a cluster whose order names no group. -/
def unattributed (cluster : List ActivityRow) : List ActivityRow :=
  cluster.filter fun r => r.orderTradeGroupId.isNone

/-- Route the pre-attributed rows of a cluster to their groups: the open groups that result, and
the rows still to be routed. -/
def applyIntentRows (openGroups : List OpenGroup) (cluster : List ActivityRow) (dryRun : Bool) :
    LedgerProg (List OpenGroup × List ActivityRow) := do
  if dryRun then pure (openGroups, unattributed cluster)
  else (intentOf cluster).entries.foldlM applyIntent (openGroups, unattributed cluster)

/-! ## New groups -/

/-- The orders of a cluster, in first-seen order. -/
def ttOrderIds (cluster : List TxnRow) : List String :=
  ((cluster.map TxnRow.ttOrderId).filter truthy).reduceOption.eraseDups

/-- Collect the stored order of one identifier, under its new group. -/
def orderToUpdate (groupPk : ℕ) (orders : List OrderRow) (ttOrderId : String) :
    LedgerProg (List OrderRow) := do
  match ← getOrder ttOrderId with
  | some order => pure (orders ++ [{ order with tradeGroupId := some groupPk }])
  | none => pure orders

/-- The row of the group opened for a cluster. -/
def newGroupRow (groupId account : String) (fields : GroupFields) : TradeGroupRow where
  groupId
  account
  origin := .broker
  reviewStatus := .needsReview
  status := .open
  underlying := fields.underlying
  securityId := fields.securityId
  strategyType := some fields.strategyType
  legCount := fields.legCount
  totalPremium := some fields.totalPremium
  totalFees := some fields.totalFees
  quantity := fields.quantity
  executedAt := fields.executedAt

/-- Stamp the orders of a cluster with its group: the keys of the orders. -/
def stampOrders (groupPk : ℕ) (cluster : List TxnRow) : LedgerProg (List ℕ) := do
  let orders ← (ttOrderIds cluster).foldlM (orderToUpdate groupPk) []
  if orders.isEmpty then pure [] else upsertOrders orders

/-- Open a group for a cluster: the group, its members, its orders and its entry event. -/
def createTradeGroup (account : String) (cluster : List TxnRow) : LedgerProg ℕ := do
  let fields ← computeGroupFields cluster
  let groupId ← uuid4
  let groupPk ← upsertTradeGroup (newGroupRow groupId account fields)
  let _ ← attachTransactionsToTradeGroup (cluster.map TxnRow.ttTransactionId) groupPk
  let orderPks ← stampOrders groupPk cluster
  addTradeGroupEvent
    { tradeGroupId := groupPk, eventType := .entry, quantityChange := fields.quantity.getD 0,
      premiumChange := fields.totalPremium, eventAt := fields.executedAt,
      orderId := orderPks.head? }
  pure groupPk

end TtLedger
