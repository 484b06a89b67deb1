import TtLedger.Ingest.Remap
import TtLedger.Repositories

/-!
# The ledger client

The capture calls of `LedgerClient` (`sdk.py`): opening a group at submit time, recording an
order, importing transactions, orders and positions, applying a fill of the stream. `Command`
collects them with the operator's edits and with reconcile passes; a *run* of the ledger is a list
of commands, each executed from the state the previous one left, whether or not that one failed.
-/

namespace TtLedger

open LedgerStore

/-- A leg of an order recorded at submission. -/
structure OrderLegInput where
  symbol : String
  instrumentType : Option String := none

/-- An order recorded at submission. -/
structure OrderInput where
  account : String
  ttOrderId : Option String := none
  omsOrderId : Option String := none
  clientOrderId : Option String := none
  securityId : Option String := none
  underlying : Option String := none
  orderType : Option String := none
  timeInForce : Option String := none
  price : Option ℚ := none
  priceEffect : Option String := none
  isComplex : Bool := false
  complexOrderType : Option String := none
  signalId : Option String := none
  traceId : Option String := none
  strategyId : Option ℕ := none
  marketContextId : Option ℕ := none
  /-- The public identifier of the group the order is pre-attributed to. -/
  tradeGroup : Option String := none
  legs : List OrderLegInput := []

/-- The intent of a group opened at submit time. -/
structure TradeGroupInput where
  strategyType : Option String := none
  underlying : Option String := none
  securityId : Option String := none
  quantity : Option ℚ := none
  totalPremium : Option ℚ := none
  maxProfit : Option ℚ := none
  maxLoss : Option ℚ := none
  initialRisk : Option ℚ := none
  profitTarget : Option String := none
  stopLoss : Option String := none
  exitStrategy : Option String := none
  structureText : Option String := none
  strategyId : Option ℕ := none
  bot : Option String := none
  signal : Option String := none
  reviewedBy : Option String := none

/-- The row of a group opened at submit time. -/
def openedGroupRow (groupId account : String) (input : TradeGroupInput) (at_ : Datetime) :
    TradeGroupRow where
  groupId
  account
  origin := .zts
  reviewStatus := .confirmed
  manuallyAttributed := true
  reviewedAt := some at_
  reviewedBy := input.reviewedBy
  underlying := input.underlying
  securityId := input.securityId
  strategyType := input.strategyType
  totalPremium := input.totalPremium
  quantity := input.quantity
  maxProfit := input.maxProfit
  maxLoss := input.maxLoss
  initialRisk := input.initialRisk
  profitTarget := input.profitTarget
  stopLoss := input.stopLoss
  exitStrategy := input.exitStrategy
  structureText := input.structureText
  strategyId := input.strategyId
  botName := input.bot
  signalId := input.signal
  executedAt := some at_

/-- Open a trade group at submit time. -/
def openTradeGroup (account : String) (input : TradeGroupInput) : LedgerProg TradeGroupRow := do
  let at_ ← now
  let groupId ← uuid4
  let row := openedGroupRow groupId account input at_
  let groupPk ← upsertTradeGroup row
  addTradeGroupEvent
    { tradeGroupId := groupPk, eventType := .entry, quantityChange := input.quantity.getD 0,
      premiumChange := input.totalPremium.getD 0, eventAt := some at_ }
  pure row

/-- The row of an order recorded at submission. -/
def submittedOrderRow (order : OrderInput) (tradeGroupId : Option ℕ) (at_ : Datetime) :
    OrderRow where
  ttOrderId := order.ttOrderId
  account := order.account
  origin := .zts
  ingest := .omsSubmit
  omsOrderId := order.omsOrderId
  clientOrderId := order.clientOrderId
  securityId := order.securityId
  underlying := order.underlying
  orderType := order.orderType
  timeInForce := order.timeInForce
  price := order.price
  priceEffect := order.priceEffect
  isComplex := order.isComplex
  complexOrderType := order.complexOrderType
  signalId := order.signalId
  traceId := order.traceId
  strategyId := order.strategyId
  tradeGroupId
  marketContextId := order.marketContextId
  receivedAt := some at_

/-- The key of the group an order names. -/
def tradeGroupPk (tradeGroup : Option String) : LedgerProg (Option ℕ) :=
  match tradeGroup with
  | none => pure none
  | some tradeGroup => do
    match ← getTradeGroupId tradeGroup with
    | none => .raise ("unknown trade_group " ++ quoted tradeGroup ++ " -- open_trade_group() first")
    | some pk => pure (some pk)

/-- Resolve one leg of a submitted order. -/
def resolveLegInput (resolver : SecurityResolver) (seen : List String) (leg : OrderLegInput) :
    LedgerProg (List String) := do
  let (_, seen) ← resolveSecurity resolver seen leg.symbol leg.instrumentType
  pure seen

/-- Record an order at submission, pre-attributed to its group when it names one. -/
def recordOrder (resolver : SecurityResolver) (order : OrderInput) : LedgerProg OrderRow := do
  let tradeGroupId ← tradeGroupPk order.tradeGroup
  let at_ ← now
  let row := submittedOrderRow order tradeGroupId at_
  let _ ← upsertOrders [row]
  let _ ← order.legs.foldlM (resolveLegInput resolver) []
  pure row

/-- Import host-generated transactions and, by default, route them. -/
def importTransactions (resolver : SecurityResolver)
    (settlementPrice : Option SettlementPriceResolver) (account : String)
    (txns : List BrokerTransaction) (sourceSystem : String) (reconcileAfter : Bool) :
    LedgerProg SyncResult := do
  let transactions ← TransactionRepository.upsert resolver txns account sourceSystem
  if reconcileAfter then
    let rec_ ← reconcile (some account) { settlementPrice }
    pure { transactions, tradeGroups := rec_.tradeGroups, errors := rec_.errors }
  else pure { transactions }

/-- No symbol is known. -/
def noSymbols : SecurityResolver := fun symbol _ => .error ("unknown symbol " ++ symbol)

/-! ## Runs -/

/-- What a host can ask of the ledger. -/
inductive Command
  | openTradeGroup (account : String) (input : TradeGroupInput)
  | recordOrder (resolver : SecurityResolver) (order : OrderInput)
  | importOrders (resolver : SecurityResolver) (placedOrders : List PlacedOrder) (account : String)
  | importTransactions (resolver : SecurityResolver) (txns : List BrokerTransaction)
      (account sourceSystem : String)
  | importPositions (resolver : SecurityResolver) (positions : List BrokerPosition)
      (account : String)
  | applyFill (evt : FillEvent)
  | linkOrderToGroup (ttOrderId : String) (targetGroupId : Option String) (reviewedBy : String)
  | regroup (txnIds : List ℕ) (targetGroupId : Option String) (reviewedBy : String)
  | remap (groupId : String) (attribution : Attribution)
  | markTradeGroupUnfilled (groupId reviewedBy reason : String)
  | reconcile (account : Option String) (args : ReconcileArgs)
  /-- The wall clock moves between commands. -/
  | tick (clock : Datetime)

namespace Command

/-- The state after a command. -/
def exec (s : InMemoryStore) : Command → InMemoryStore
  | openTradeGroup account input => (TtLedger.exec (TtLedger.openTradeGroup account input) s).2
  | recordOrder resolver order => (TtLedger.exec (TtLedger.recordOrder resolver order) s).2
  | importOrders resolver placedOrders account =>
    (TtLedger.exec (OrderRepository.upsertFromHistory resolver placedOrders account) s).2
  | importTransactions resolver txns account sourceSystem =>
    (TtLedger.exec (TransactionRepository.upsert resolver txns account sourceSystem) s).2
  | importPositions resolver positions account =>
    (TtLedger.exec (PositionRepository.upsert resolver positions account) s).2
  | applyFill evt => (TtLedger.exec (applyFillEvent evt) s).2
  | linkOrderToGroup ttOrderId targetGroupId reviewedBy =>
    (TtLedger.exec (TtLedger.linkOrderToGroup ttOrderId targetGroupId reviewedBy) s).2
  | regroup txnIds targetGroupId reviewedBy =>
    (TtLedger.exec (regroupTransactions txnIds targetGroupId reviewedBy) s).2
  | remap groupId attribution => (TtLedger.exec (remapTradeGroup groupId attribution) s).2
  | markTradeGroupUnfilled groupId reviewedBy reason =>
    (TtLedger.exec (TtLedger.markTradeGroupUnfilled groupId reviewedBy reason) s).2
  | reconcile account args => (TtLedger.exec (TtLedger.reconcile account args) s).2
  | tick clock => { s with clock }

/-- The state after a run. -/
def execAll (s : InMemoryStore) (run : List Command) : InMemoryStore := run.foldl exec s

theorem execAll_append (s : InMemoryStore) (run run' : List Command) :
    execAll s (run ++ run') = execAll (execAll s run) run' := List.foldl_append

/-- Every command of the run satisfies the condition in the state it is executed from. -/
def Along (P : InMemoryStore → Command → Prop) (s : InMemoryStore) : List Command → Prop
  | [] => True
  | cmd :: run => P s cmd ∧ Along P (exec s cmd) run

theorem Along.of_append {P : InMemoryStore → Command → Prop} {s : InMemoryStore}
    {run run' : List Command} (h : Along P s (run ++ run')) :
    Along P s run ∧ Along P (execAll s run) run' := by
  induction run generalizing s with
  | nil => exact ⟨trivial, h⟩
  | cons cmd run ih => exact ⟨⟨h.1, (ih h.2).1⟩, (ih h.2).2⟩

end Command

end TtLedger
