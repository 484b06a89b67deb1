import TtLedger.Ingest.Replay

/-!
# Rebuilding one position

The walk of `ingest/replay.py` that rebuilds the lot of one security from its rows
(`replaySecurity`): the running lot at weighted-average cost, the lifecycles it completes, and for
every row what it fed or closed (the *plan*). `lapseExpiredLot` is the backstop behind it, which
closes a lot left open a day past its contract's expiry.
-/

namespace TtLedger

/-- Every fee itemised on a transaction, as replay reads them. -/
abbrev feesOf (r : TxnRow) : ℚ := r.rowFees

/-! ## The running lot -/

/-- The open lot of one security with what its lifecycle has accumulated. -/
structure RunningLot extends Lot where
  openedAt : Option Datetime := none
  openingOrderId : Option ℕ := none
  /-- Gross, over the partial closes of this lifecycle. -/
  realizedPnl : ℚ := 0
  fees : ℚ := 0
  deriving DecidableEq

/-- What the rebuild does with a transaction: its identifier, whether it fed the open lot, and
the lifecycle it closed. -/
structure PlanEntry where
  ttTransactionId : String
  marksOpen : Bool
  closedRow : Option ClosedPositionRow
  deriving DecidableEq

/-- The completed lifecycles of a plan. -/
def closedRows (plan : List PlanEntry) : List ClosedPositionRow :=
  plan.filterMap PlanEntry.closedRow

/-- The whole days between two instants. -/
def holdingPeriod (openedAt closedAt : Option Datetime) : Option Int :=
  match openedAt, closedAt with
  | some openedAt, some closedAt => some ((closedAt - openedAt) / day)
  | _, _ => none

/-- The record of a completed lifecycle. -/
def closedRow (account securityId : String) (lot : RunningLot) (closePrice : ℚ)
    (closingOrderId : Option ℕ) (closedAt : Option Datetime) : ClosedPositionRow where
  account
  securityId
  quantity := |lot.signedQuantity|
  quantityDirection := if 0 < lot.signedQuantity then "Long" else "Short"
  averageOpenPrice := lot.averageOpenPrice
  averageClosePrice := some closePrice
  realizedPnl := some lot.realizedPnl
  fees := some lot.fees
  pnlNet := some (lot.realizedPnl - lot.fees)
  openingOrderId := lot.openingOrderId
  closingOrderId
  openedAt := lot.openedAt
  closedAt
  holdingPeriodDays := holdingPeriod lot.openedAt closedAt

/-! ## The walk -/

/-- The state of the rebuild. -/
structure Rebuild where
  lot : RunningLot := {}
  lastDirection : String := "Long"
  hadPosition : Bool := false
  plan : List PlanEntry := []

/-- The lot a row opens. -/
def openedLot (r : TxnRow) (signedQuantity price fees : ℚ) : RunningLot where
  signedQuantity
  averageOpenPrice := some price
  openedAt := r.executedAt
  openingOrderId := r.orderId
  fees

/-- Apply a row that moves the lot by `delta` at `price`. -/
def applyDelta (account securityId : String) (multiplier : Int) (w : Rebuild) (r : TxnRow)
    (delta price : ℚ) : Rebuild :=
  let lot := w.lot
  let old := lot.signedQuantity
  let new := old + delta
  let average := lot.averageOpenPrice.getD 0
  let entry := fun marksOpen closedRow => w.plan ++ [⟨r.ttTransactionId, marksOpen, closedRow⟩]
  if old = 0 then
    { w with lot := openedLot r new price (feesOf r), hadPosition := true, plan := entry true none }
  else if 0 < old * delta then
    { w with
      lot := { lot with
        averageOpenPrice := some ((|old| * average + |delta| * price) / (|old| + |delta|))
        signedQuantity := new
        fees := lot.fees + feesOf r }
      hadPosition := true
      plan := entry true none }
  else
    let closing := min |delta| |old|
    let sign : ℚ := if 0 < old then 1 else -1
    let lot := { lot with
      realizedPnl := lot.realizedPnl + (price - average) * closing * multiplier * sign
      fees := lot.fees + feesOf r }
    let closed := closedRow account securityId lot price r.orderId r.executedAt
    if new = 0 then
      { lot := {}, lastDirection := closed.quantityDirection, hadPosition := true,
        plan := entry false (some closed) }
    else if (0 < new) ≠ (0 < old) then
      -- the fees of a flip stay with the lifecycle it closes
      { lot := openedLot r new price 0, lastDirection := closed.quantityDirection,
        hadPosition := true, plan := entry true (some closed) }
    else
      { w with lot := { lot with signedQuantity := new }, hadPosition := true,
               plan := entry true none }

/-- The quantity change and the price of a row the walk applies. -/
def appliedBy (w : Rebuild) (r : TxnRow) : Option (ℚ × ℚ) :=
  let (delta, price) := effectiveDeltaPrice r w.lot.toLot w.hadPosition
  if delta = 0 then none else price.map fun price => (delta, price)

/-- One row of the rebuild. -/
def rebuildStep (account securityId : String) (multiplier : Int) (w : Rebuild) (r : TxnRow) :
    Rebuild :=
  match appliedBy w r with
  | none => { w with plan := w.plan ++ [⟨r.ttTransactionId, false, none⟩] }
  | some (delta, price) => applyDelta account securityId multiplier w r delta price

/-- The state after the rows. -/
def rebuild (account securityId : String) (multiplier : Int) (rows : List TxnRow) : Rebuild :=
  rows.foldl (rebuildStep account securityId multiplier) {}

/-- The position row of a lot; what replay has no opinion on stays. -/
def positionOf (account securityId : String) (multiplier : Int) (w : Rebuild)
    (existing : Option PositionRow) : PositionRow where
  account
  securityId
  quantity := |w.lot.signedQuantity|
  quantityDirection :=
    if 0 < w.lot.signedQuantity then "Long"
    else if w.lot.signedQuantity < 0 then "Short" else w.lastDirection
  averageOpenPrice := w.lot.averageOpenPrice
  multiplier
  openingOrderId := w.lot.openingOrderId
  positionOpenedAt := w.lot.openedAt
  markPrice := existing.bind PositionRow.markPrice
  closePrice := existing.bind PositionRow.closePrice
  unrealizedPnl := existing.bind PositionRow.unrealizedPnl
  realizedDayGain := existing.bind PositionRow.realizedDayGain
  expiresAt := existing.bind PositionRow.expiresAt
  strategyId := existing.bind PositionRow.strategyId
  tradeGroupId := existing.bind PositionRow.tradeGroupId

/-- The position and the plan of one security's rows. -/
def replaySecurity (account securityId : String) (rows : List TxnRow) (multiplier : Int)
    (existing : Option PositionRow) : PositionRow × List PlanEntry :=
  let w := rebuild account securityId multiplier rows
  (positionOf account securityId multiplier w existing, w.plan)

/-! ## The lapse backstop -/

/-- The lot is closed by the backstop: open, with account activity more than a day past its
contract's expiry. -/
def lapsesLot (position : PositionRow) (expiry : Option Date) (lastActivity : Option Datetime) :
    Option Date :=
  match expiry, lastActivity with
  | some expiry, some last =>
    if position.quantity = 0 ∨ Datetime.date last ≤ expiry + 1 then none else some expiry
  | _, _ => none

/-- The record of a lapsed lot, closed at zero. -/
def lapsedRow (account securityId : String) (position : PositionRow) (expiry : Date)
    (multiplier : Int) : ClosedPositionRow :=
  let closedAt := Date.at expiry 21 15
  let sign : ℚ := if position.quantityDirection = "Long" then 1 else -1
  let gross := (0 - position.averageOpenPrice.getD 0) * position.quantity * multiplier * sign
  { account
    securityId
    quantity := position.quantity
    quantityDirection := position.quantityDirection
    averageOpenPrice := position.averageOpenPrice
    averageClosePrice := some 0
    realizedPnl := some gross
    fees := some 0
    pnlNet := some gross
    openingOrderId := position.openingOrderId
    openedAt := position.positionOpenedAt
    closedAt := some closedAt
    holdingPeriodDays := holdingPeriod position.positionOpenedAt (some closedAt) }

/-- A position without its lot. -/
def flattened (position : PositionRow) : PositionRow :=
  { position with
    quantity := 0, averageOpenPrice := none, openingOrderId := none, positionOpenedAt := none }

/-- Close a lot whose contract expired without a settlement row. -/
def lapseExpiredLot (account securityId : String) (position : PositionRow) (plan : List PlanEntry)
    (expiry : Option Date) (multiplier : Int) (lastActivity : Option Datetime) :
    PositionRow × List PlanEntry :=
  match lapsesLot position expiry lastActivity with
  | none => (position, plan)
  | some expiry =>
    (flattened position,
      plan ++ [⟨"__lapsed__" ++ securityId, false,
        some (lapsedRow account securityId position expiry multiplier)⟩])

end TtLedger
