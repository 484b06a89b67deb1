import TtLedger.Store.Calls
import TtLedger.Foundations.Text

/-!
# Importers

`TransactionRepository`, `OrderRepository` and `PositionRepository` turn broker-native records
into rows and upsert them (`repositories/__init__.py`): a re-imported transaction carries no
linkage of its own, a resync of an order the host submitted only enriches it, any other order is
rebuilt from the broker's facts with the linkage it had, and so is a position; `applyFillEvent`
applies a fill update of the stream to a known order. The leg and fill tables, which nothing here
reads, are in `Ingest.OrderHistory`.
-/

namespace TtLedger

open LedgerStore

/-! ## Broker records -/

/-- What a resolver returns for one vendor symbol. -/
structure ResolvedSecurity where
  securityId : String
  productType : Option String := none
  underlying : Option String := none
  expiry : Option Date := none
  strike : Option ℚ := none
  optionType : Option String := none
  multiplier : Option Int := none

/-- The injected symbology: a vendor symbol and an instrument-type hint; it may raise. -/
abbrev SecurityResolver := String → Option String → Except String ResolvedSecurity

/-- One row of the broker's transaction history. -/
structure BrokerTransaction where
  id : String
  accountNumber : String
  orderId : Option String := none
  underlyingSymbol : Option String := none
  symbol : Option String := none
  instrumentType : Option String := none
  transactionType : Option String := none
  transactionSubType : Option String := none
  action : Option String := none
  quantity : Option ℚ := none
  price : Option ℚ := none
  value : Option ℚ := none
  valueEffect : Option String := none
  netValue : Option ℚ := none
  netValueEffect : Option String := none
  commission : Option ℚ := none
  clearingFees : Option ℚ := none
  regulatoryFees : Option ℚ := none
  proprietaryIndexOptionFees : Option ℚ := none
  isEstimatedFee : Option Bool := none
  description : Option String := none
  executedAt : Option Datetime := none
  transactionDate : Option Date := none

/-- One execution against a leg. -/
structure PlacedFill where
  fillId : String
  quantity : ℚ
  fillPrice : ℚ
  filledAt : Datetime
  destinationVenue : Option String := none
  extExecId : Option String := none
  extGroupFillId : Option String := none

/-- One leg of a placed order. -/
structure PlacedLeg where
  instrumentType : String
  symbol : String
  action : String
  quantity : ℚ
  remainingQuantity : ℚ
  fills : List PlacedFill := []

/-- One order of the broker's order history. -/
structure PlacedOrder where
  id : String
  receivedAt : Datetime
  legs : List PlacedLeg := []
  underlyingSymbol : Option String := none
  orderType : Option String := none
  timeInForce : Option String := none
  gtcDate : Option String := none
  price : Option ℚ := none
  stopTrigger : Option ℚ := none
  priceEffect : Option String := none
  status : Option String := none
  rejectReason : Option String := none
  complexOrderId : Option String := none
  complexOrderTag : Option String := none
  terminalAt : Option Datetime := none

/-! ## Securities -/

/-- The dimension row of a resolved symbol. -/
def securityRow (resolved : ResolvedSecurity) (ttSymbol : Option String) : SecurityRow where
  securityId := resolved.securityId
  productType := resolved.productType.getD ""
  underlying := resolved.underlying
  expiry := resolved.expiry
  strike := resolved.strike
  optionType := resolved.optionType
  multiplier := resolved.multiplier
  ttSymbol := ttSymbol

/-- Resolve a symbol, upserting its security unless this import has already done so. -/
def resolveSecurity (resolver : SecurityResolver) (seen : List String) (symbol : String)
    (instrumentType : Option String) : LedgerProg (String × List String) := do
  let resolved ← Prog.ofExcept (resolver symbol instrumentType)
  if seen.contains resolved.securityId then pure (resolved.securityId, seen)
  else
    upsertSecurity (securityRow resolved (some symbol))
    pure (resolved.securityId, seen ++ [resolved.securityId])

/-! ## Transactions -/

/-- The row of a broker transaction. -/
def txnRow (account sourceSystem : String) (securityId : Option String) (t : BrokerTransaction) :
    TxnRow where
  ttTransactionId := t.id
  ttOrderId := t.orderId
  account
  accountNumber := some t.accountNumber
  sourceSystem
  transactionType := t.transactionType
  transactionSubType := t.transactionSubType
  action := t.action
  securityId
  underlying := t.underlyingSymbol
  quantity := t.quantity
  price := t.price
  value := t.value
  valueEffect := t.valueEffect
  netValue := t.netValue
  netValueEffect := t.netValueEffect
  commission := t.commission
  clearingFees := t.clearingFees
  regulatoryFees := t.regulatoryFees
  proprietaryIndexOptionFees := t.proprietaryIndexOptionFees
  isEstimatedFee := t.isEstimatedFee
  description := t.description
  executedAt := t.executedAt
  transactionDate := t.transactionDate

namespace TransactionRepository

/-- Resolve one transaction and add its row. -/
def addRow (resolver : SecurityResolver) (account sourceSystem : String)
    (w : List String × List TxnRow) (t : BrokerTransaction) :
    LedgerProg (List String × List TxnRow) :=
  if truthy t.symbol then do
    let (securityId, seen) ← resolveSecurity resolver w.1 (t.symbol.getD "") t.instrumentType
    pure (seen, w.2 ++ [txnRow account sourceSystem (some securityId) t])
  else pure (w.1, w.2 ++ [txnRow account sourceSystem none t])

/-- Upsert transactions on their identifier. -/
def upsert (resolver : SecurityResolver) (txns : List BrokerTransaction)
    (account sourceSystem : String) : LedgerProg ℕ :=
  if txns.isEmpty then pure 0
  else do
    let w ← txns.foldlM (addRow resolver account sourceSystem) ([], [])
    upsertTransactions w.2
    pure w.2.length

end TransactionRepository

/-! ## Orders -/

/-- The normalised status of a raw broker status. -/
def mapOrderStatus (raw : Option String) : Option OrderStatus :=
  raw.bind fun raw =>
    match String.ofList (Text.lower (Text.strip raw.toList)) with
    | "received" => some .pending
    | "routed" => some .submitted
    | "in flight" => some .submitted
    | "live" => some .working
    | "contingent" => some .working
    | "cancel requested" => some .working
    | "replace requested" => some .working
    | "filled" => some .filled
    | "cancelled" => some .cancelled
    | "canceled" => some .cancelled
    | "removed" => some .cancelled
    | "partially removed" => some .cancelled
    | "rejected" => some .rejected
    | "expired" => some .expired
    | _ => none

/-- The filled quantity of a leg. -/
def filledOf (leg : PlacedLeg) : ℚ := (leg.fills.map PlacedFill.quantity).sum

/-- The quantity-weighted average fill price of a leg. -/
def vwap (fills : List PlacedFill) : Option ℚ :=
  let total := (fills.map PlacedFill.quantity).sum
  if fills.isEmpty || total = 0 then none
  else some ((fills.map fun f => f.quantity * f.fillPrice).sum / total)

/-- The order-level aggregates of the legs. -/
structure FillFields where
  averageFillPrice : Option ℚ := none
  filledQuantity : Option ℚ := none
  remainingQuantity : Option ℚ := none
  deriving DecidableEq

/-- The net price of a structure unit: sell legs positive, buy legs negative, none until every
leg has fills. -/
def netPrice (legs : List PlacedLeg) (units : ℚ) : Option ℚ :=
  legs.foldl (fun net leg =>
    match net, vwap leg.fills with
    | some net, some vwap =>
      let sign : ℚ :=
        if Text.startsWith (Text.lower leg.action.toList) "sell".toList then 1 else -1
      some (net + sign * vwap * (leg.quantity / units))
    | _, _ => none) (some 0)

/-- Average fill price, filled and remaining quantity of an order, in structure units. -/
def orderLevelFillFields (legs : List PlacedLeg) (priceEffect : Option String) : FillFields :=
  match legs with
  | [] => {}
  | [leg] => ⟨vwap leg.fills, some (filledOf leg), some leg.remainingQuantity⟩
  | legs =>
    if legs.all fun leg => 0 < leg.quantity && leg.quantity.den = 1 then
      let units : ℚ := ((legs.map fun leg => leg.quantity.num.toNat).foldl Nat.gcd 0 : ℕ)
      let net := netPrice legs units
      { averageFillPrice := if priceEffect = some "Debit" then net.map (- ·) else net
        filledQuantity := (legs.map fun leg => filledOf leg / (leg.quantity / units)).min?
        remainingQuantity :=
          (legs.map fun leg => leg.remainingQuantity / (leg.quantity / units)).max? }
    else {}

namespace OrderRepository

/-- A resync of an order the host submitted: status and fill fields only. -/
def enrich (existing : OrderRow) (po : PlacedOrder) (fill : FillFields) : OrderRow :=
  let omsStatus := mapOrderStatus po.status
  { existing with
    omsStatus := (omsStatus.map OrderStatus.value) <|> existing.omsStatus
    ttStatus := po.status
    statusMessage := po.rejectReason <|> existing.statusMessage
    averageFillPrice := fill.averageFillPrice <|> existing.averageFillPrice
    filledQuantity := fill.filledQuantity <|> existing.filledQuantity
    remainingQuantity := fill.remainingQuantity <|> existing.remainingQuantity
    filledAt := if omsStatus = some .filled then po.terminalAt else existing.filledAt }

/-- The row of a broker order, with the linkage it already had. -/
def brokerRow (account : String) (securityId : Option String) (existing : Option OrderRow)
    (po : PlacedOrder) (fill : FillFields) : OrderRow :=
  let omsStatus := mapOrderStatus po.status
  { ttOrderId := some po.id
    account
    origin := .broker
    ingest := .orderHistory
    omsOrderId := existing.bind OrderRow.omsOrderId
    tradeGroupId := existing.bind OrderRow.tradeGroupId
    signalId := existing.bind OrderRow.signalId
    traceId := existing.bind OrderRow.traceId
    strategyId := existing.bind OrderRow.strategyId
    securityId
    underlying := po.underlyingSymbol
    orderType := po.orderType
    timeInForce := po.timeInForce
    gtcDate := po.gtcDate
    price := po.price
    stopTrigger := po.stopTrigger
    priceEffect := po.priceEffect
    averageFillPrice := fill.averageFillPrice
    isComplex := po.complexOrderId.isSome
    complexOrderType := po.complexOrderTag
    statusMessage := po.rejectReason
    omsStatus := omsStatus.map OrderStatus.value
    ttStatus := po.status
    filledQuantity := fill.filledQuantity
    remainingQuantity := fill.remainingQuantity
    receivedAt := some po.receivedAt
    submittedAt := some po.receivedAt
    filledAt := if omsStatus = some .filled then po.terminalAt else none
    terminalAt := po.terminalAt }

def buildOrderRow (account : String) (securityId : Option String) (po : PlacedOrder) :
    LedgerProg OrderRow := do
  let fill := orderLevelFillFields po.legs po.priceEffect
  match ← getOrder po.id with
  | some existing =>
    if existing.origin = .zts then pure (enrich existing po fill)
    else pure (brokerRow account securityId (some existing) po fill)
  | none => pure (brokerRow account securityId none po fill)

/-- Resolve the legs of one order: the securities seen, and the security of each leg. -/
def resolveLegs (resolver : SecurityResolver) (seen : List String) (legs : List PlacedLeg) :
    LedgerProg (List String × List String) :=
  legs.foldlM (fun (w : List String × List String) leg => do
    let (securityId, seen) ← resolveSecurity resolver w.1 leg.symbol (some leg.instrumentType)
    pure (seen, w.2 ++ [securityId])) (seen, [])

/-- Resolve the legs of every order, in order; a single leg is the order's security. -/
def resolveOrders (resolver : SecurityResolver) (placedOrders : List PlacedOrder) :
    LedgerProg (List String × List (PlacedOrder × Option String)) :=
  placedOrders.foldlM (fun (w : List String × List (PlacedOrder × Option String)) po => do
    let (seen, securityIds) ← resolveLegs resolver w.1 po.legs
    let securityId := match securityIds with
      | [securityId] => some securityId
      | _ => none
    pure (seen, w.2 ++ [(po, securityId)])) ([], [])

/-- Upsert the orders of the broker's history. -/
def upsertFromHistory (resolver : SecurityResolver) (placedOrders : List PlacedOrder)
    (account : String) : LedgerProg ℕ :=
  if placedOrders.isEmpty then pure 0
  else do
    let w ← resolveOrders resolver placedOrders
    let rows ← w.2.mapM fun p => buildOrderRow account p.2 p.1
    let _ ← upsertOrders rows
    pure rows.length

end OrderRepository

/-! ## Fill events -/

/-- A fill or status update of the stream. -/
structure FillEvent where
  ttOrderId : String
  status : Option String := none
  averageFillPrice : Option ℚ := none
  filledQuantity : Option ℚ := none
  remainingQuantity : Option ℚ := none
  filledAt : Option Datetime := none

/-- An order with the update of a fill event. -/
def FillEvent.apply (evt : FillEvent) (existing : OrderRow) : OrderRow :=
  { existing with
    omsStatus := ((mapOrderStatus evt.status).map OrderStatus.value) <|> existing.omsStatus
    ttStatus := evt.status <|> existing.ttStatus
    averageFillPrice := evt.averageFillPrice <|> existing.averageFillPrice
    filledQuantity := evt.filledQuantity <|> existing.filledQuantity
    remainingQuantity := evt.remainingQuantity <|> existing.remainingQuantity
    filledAt := evt.filledAt <|> existing.filledAt }

/-- Update a known order; a fill of an unknown one does nothing. -/
def applyFillEvent (evt : FillEvent) : LedgerProg (Option OrderRow) := do
  match ← getOrder evt.ttOrderId with
  | none => pure none
  | some existing =>
    let _ ← upsertOrders [evt.apply existing]
    pure (some (evt.apply existing))

/-! ## Positions -/

/-- One row of the broker's current positions. -/
structure BrokerPosition where
  symbol : String
  quantity : ℚ
  quantityDirection : String
  instrumentType : Option String := none
  averageOpenPrice : Option ℚ := none
  markPrice : Option ℚ := none
  closePrice : Option ℚ := none
  /-- A magnitude; its sign is the effect's. -/
  realizedDayGain : Option ℚ := none
  realizedDayGainEffect : Option String := none
  multiplier : Int := 1
  expiresAt : Option Datetime := none

/-- The unrealized P&L of a position at its mark. -/
def deriveUnrealizedPnl (p : BrokerPosition) : Option ℚ :=
  match p.markPrice, p.averageOpenPrice with
  | some mark, some averageOpen =>
    let diff := mark - averageOpen
    let diff :=
      if Text.lower (Text.strip p.quantityDirection.toList) = "short".toList then -diff else diff
    some (diff * p.quantity * p.multiplier)
  | _, _ => none

/-- A magnitude under a credit or debit effect. -/
def applyEffect (magnitude : Option ℚ) (effect : Option String) : Option ℚ :=
  magnitude.map fun magnitude =>
    if Text.lower (Text.strip (effect.getD "").toList) = "debit".toList then -magnitude
    else magnitude

/-- The row of a broker position, with the attribution it already had. -/
def positionRow (account securityId : String) (existing : Option PositionRow)
    (p : BrokerPosition) : PositionRow where
  account
  securityId
  quantity := p.quantity
  quantityDirection := p.quantityDirection
  averageOpenPrice := p.averageOpenPrice
  markPrice := p.markPrice
  closePrice := p.closePrice
  unrealizedPnl := deriveUnrealizedPnl p
  realizedDayGain := applyEffect p.realizedDayGain p.realizedDayGainEffect
  multiplier := p.multiplier
  expiresAt := p.expiresAt
  strategyId := existing.bind PositionRow.strategyId
  openingOrderId := existing.bind PositionRow.openingOrderId
  tradeGroupId := existing.bind PositionRow.tradeGroupId
  positionOpenedAt := existing.bind PositionRow.positionOpenedAt

namespace PositionRepository

/-- Resolve one position and add its row. -/
def addRow (resolver : SecurityResolver) (account : String)
    (w : List String × List PositionRow) (p : BrokerPosition) :
    LedgerProg (List String × List PositionRow) := do
  let (securityId, seen) ← resolveSecurity resolver w.1 p.symbol p.instrumentType
  let existing ← getPosition account securityId
  pure (seen, w.2 ++ [positionRow account securityId existing p])

/-- Upsert the broker's current positions. -/
def upsert (resolver : SecurityResolver) (positions : List BrokerPosition) (account : String) :
    LedgerProg ℕ :=
  if positions.isEmpty then pure 0
  else do
    let w ← positions.foldlM (addRow resolver account) ([], [])
    upsertPositions w.2
    pure w.2.length

end PositionRepository

end TtLedger
