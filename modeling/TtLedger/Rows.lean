import Mathlib.Data.Rat.Defs
import Mathlib.Data.List.Nodup

/-!
# Rows and enumerations of the ledger

The records the store, the importers and the reconciler exchange (`rows.py`) and the enumerations
they carry (`enums.py`). A `Decimal` is a rational: every amount is a `Money` value, and the sums
and products formed from them stay exact. An instant is its number of microseconds since the
epoch in UTC, a calendar date its number of days since the epoch.
-/

namespace TtLedger

/-- An instant: microseconds since the epoch, UTC. -/
abbrev Datetime := Int

/-- A calendar date: days since the epoch. -/
abbrev Date := Int

/-- Microseconds in a second. -/
def second : Int := 1000000

/-- Microseconds in a day. -/
def day : Int := 86400 * second

/-- The UTC calendar date of an instant. -/
def Datetime.date (t : Datetime) : Date := t / day

/-- The instant of a date at a time of day. -/
def Date.at (d : Date) (hour minute : Int) : Datetime :=
  d * day + (hour * 60 + minute) * 60 * second

/-- A missing or empty string counts as false where the source tests a string. -/
def truthy : Option String → Bool
  | some s => s ≠ ""
  | none => false

/-- `a or b` on optional strings. -/
def orElse (a b : Option String) : Option String := if truthy a then a else b

/-! ## Enumerations -/

inductive Origin
  | zts
  | broker
  deriving DecidableEq

inductive Ingest
  | omsSubmit
  | orderHistory
  | import
  deriving DecidableEq

inductive ReviewStatus
  | needsReview
  | confirmed
  | ignored
  | invalid
  deriving DecidableEq

inductive OrderStatus
  | pending
  | submitted
  | working
  | filled
  | partiallyFilled
  | cancelled
  | rejected
  | expired
  deriving DecidableEq

/-- The stored text of an order status. -/
def OrderStatus.value : OrderStatus → String
  | pending => "pending"
  | submitted => "submitted"
  | working => "working"
  | filled => "filled"
  | partiallyFilled => "partially_filled"
  | cancelled => "cancelled"
  | rejected => "rejected"
  | expired => "expired"

inductive TradeGroupStatus
  | open
  | closed
  | expired
  | assigned
  | exercised
  | mixed
  /-- Opened in intent, never traded. -/
  | unfilled
  deriving DecidableEq

inductive TradeGroupEventType
  | entry
  | partialExit
  | fullExit
  | roll
  | adjustment
  | expiration
  | assignment
  | exercise
  deriving DecidableEq

inductive StrategyType
  | single
  | vertical
  | calendar
  | diagonal
  | ironCondor
  | ironButterfly
  | straddle
  | strangle
  | butterfly
  | condor
  | ratio
  | covered
  | collar
  | custom
  | future
  | futureSpread
  deriving DecidableEq

/-- The stored text of a strategy type. -/
def StrategyType.value : StrategyType → String
  | single => "single"
  | vertical => "vertical"
  | calendar => "calendar"
  | diagonal => "diagonal"
  | ironCondor => "iron_condor"
  | ironButterfly => "iron_butterfly"
  | straddle => "straddle"
  | strangle => "strangle"
  | butterfly => "butterfly"
  | condor => "condor"
  | ratio => "ratio"
  | covered => "covered"
  | collar => "collar"
  | custom => "custom"
  | future => "future"
  | futureSpread => "future_spread"

/-! ## Write shapes -/

structure SecurityRow where
  securityId : String
  productType : String
  underlying : Option String := none
  expiry : Option Date := none
  strike : Option ℚ := none
  /-- `P` or `C`. -/
  optionType : Option String := none
  multiplier : Option Int := none
  ttSymbol : Option String := none
  deriving DecidableEq

structure OrderRow where
  ttOrderId : Option String
  account : String
  origin : Origin
  ingest : Ingest
  omsOrderId : Option String := none
  clientOrderId : Option String := none
  securityId : Option String := none
  underlying : Option String := none
  orderType : Option String := none
  timeInForce : Option String := none
  gtcDate : Option String := none
  price : Option ℚ := none
  stopTrigger : Option ℚ := none
  priceEffect : Option String := none
  averageFillPrice : Option ℚ := none
  isComplex : Bool := false
  complexOrderType : Option String := none
  omsStatus : Option String := none
  ttStatus : Option String := none
  statusMessage : Option String := none
  filledQuantity : Option ℚ := none
  remainingQuantity : Option ℚ := none
  signalId : Option String := none
  traceId : Option String := none
  strategyId : Option ℕ := none
  tradeGroupId : Option ℕ := none
  marketContextId : Option ℕ := none
  receivedAt : Option Datetime := none
  submittedAt : Option Datetime := none
  filledAt : Option Datetime := none
  terminalAt : Option Datetime := none
  deriving DecidableEq

structure TxnRow where
  ttTransactionId : String
  ttOrderId : Option String := none
  account : String
  accountNumber : Option String := none
  sourceSystem : String := "tastytrade"
  transactionType : Option String := none
  transactionSubType : Option String := none
  action : Option String := none
  securityId : Option String := none
  underlying : Option String := none
  quantity : Option ℚ := none
  price : Option ℚ := none
  value : Option ℚ := none
  valueEffect : Option String := none
  netValue : Option ℚ := none
  netValueEffect : Option String := none
  commission : Option ℚ := none
  clearingFees : Option ℚ := none
  regulatoryFees : Option ℚ := none
  proprietaryIndexOptionFees : Option ℚ := none
  isEstimatedFee : Option Bool := none
  description : Option String := none
  orderId : Option ℕ := none
  orderLegId : Option ℕ := none
  positionId : Option ℕ := none
  closedPositionId : Option ℕ := none
  tradeGroupId : Option ℕ := none
  executedAt : Option Datetime := none
  transactionDate : Option Date := none
  deriving DecidableEq

structure ClosedPositionRow where
  account : String
  securityId : String
  quantity : ℚ
  quantityDirection : String
  averageOpenPrice : Option ℚ := none
  averageClosePrice : Option ℚ := none
  realizedPnl : Option ℚ := none
  fees : Option ℚ := none
  pnlNet : Option ℚ := none
  openingOrderId : Option ℕ := none
  closingOrderId : Option ℕ := none
  tradeGroupId : Option ℕ := none
  openedAt : Option Datetime := none
  closedAt : Option Datetime := none
  holdingPeriodDays : Option Int := none
  deriving DecidableEq

structure PositionRow where
  account : String
  securityId : String
  quantity : ℚ
  quantityDirection : String
  averageOpenPrice : Option ℚ := none
  markPrice : Option ℚ := none
  closePrice : Option ℚ := none
  unrealizedPnl : Option ℚ := none
  realizedDayGain : Option ℚ := none
  multiplier : Int := 1
  expiresAt : Option Datetime := none
  strategyId : Option ℕ := none
  openingOrderId : Option ℕ := none
  tradeGroupId : Option ℕ := none
  positionOpenedAt : Option Datetime := none
  deriving DecidableEq

structure TradeGroupRow where
  groupId : String
  account : String
  origin : Origin
  reviewStatus : ReviewStatus := .needsReview
  manuallyAttributed : Bool := false
  reviewedAt : Option Datetime := none
  reviewedBy : Option String := none
  underlying : Option String := none
  securityId : Option String := none
  strategyType : Option String := none
  legCount : ℕ := 1
  totalPremium : Option ℚ := none
  quantity : Option ℚ := none
  totalFees : Option ℚ := none
  status : TradeGroupStatus := .open
  realizedPnl : Option ℚ := none
  maxProfit : Option ℚ := none
  maxLoss : Option ℚ := none
  initialRisk : Option ℚ := none
  profitTarget : Option String := none
  stopLoss : Option String := none
  exitStrategy : Option String := none
  /-- The opaque submit-time structure descriptor. -/
  structureText : Option String := none
  strategyId : Option ℕ := none
  botName : Option String := none
  signalId : Option String := none
  executedAt : Option Datetime := none
  closedAt : Option Datetime := none
  deriving DecidableEq

structure EventRow where
  tradeGroupId : ℕ
  eventType : TradeGroupEventType
  quantityChange : ℚ := 0
  premiumChange : ℚ := 0
  eventAt : Option Datetime := none
  notes : Option String := none
  rolledToGroupId : Option ℕ := none
  orderId : Option ℕ := none
  deriving DecidableEq

/-! ## Read shapes, filters and results -/

/-- A transaction joined to its order and its trade group. -/
structure ActivityRow extends TxnRow where
  /-- From the joined order. -/
  origin : Option Origin := none
  /-- From the joined trade group. -/
  reviewStatus : Option ReviewStatus := none
  /-- The group of the joined order: the intent at submit time. -/
  orderTradeGroupId : Option ℕ := none

structure OrderFilter where
  origin : Option Origin := none
  account : Option String := none
  status : Option String := none
  underlying : Option String := none
  tradeGroupId : Option ℕ := none
  omsOrderId : Option String := none
  /-- Only orders without a group. -/
  unlinked : Bool := false
  start : Option Date := none
  stop : Option Date := none

structure ActivityFilter where
  account : Option String := none
  start : Option Date := none
  stop : Option Date := none
  unreconciledOnly : Bool := false

structure TradeFilter where
  origin : Option Origin := none
  reviewStatus : Option ReviewStatus := none
  status : Option TradeGroupStatus := none
  account : Option String := none
  underlying : Option String := none
  start : Option Date := none
  stop : Option Date := none

/-- The position and the completed lifecycle a transaction is linked to. -/
structure PositionLink where
  ttTransactionId : String
  positionId : Option ℕ
  closedPositionId : Option ℕ
  deriving DecidableEq

structure SyncResult where
  transactions : ℕ := 0
  positions : ℕ := 0
  tradeGroups : ℕ := 0
  healedGroups : ℕ := 0
  errors : List String := []
  deriving DecidableEq

end TtLedger
