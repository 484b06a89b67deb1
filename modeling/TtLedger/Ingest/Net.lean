import TtLedger.Foundations.Dict
import TtLedger.Foundations.StableSort
import TtLedger.Foundations.Text
import TtLedger.Store.Memory
import Mathlib.Algebra.Order.Ring.Rat
import Mathlib.Algebra.Order.Group.Abs
import Mathlib.Algebra.BigOperators.Group.List.Basic

/-!
# A group's book

What the reconciler reads off transaction rows (`ingest/reconcile.py`): which rows close and which
open, the running net of a group in each of its securities (`groupNetStep`, `netQuantities`), the
peak exposures, whether the group is fully closed and by which causes, and the money of a row.

The walk treats securities independently: the net in one security is a fold over that security's
rows (`NetLaws`), and `netQuantities` is the dictionary of these nets.
-/

namespace TtLedger

/-! ## Kinds of rows -/

/-- The lifecycle event of a `Receive Deliver` sub-type that ends a position without a trade. -/
def rdEventBySubtype : Option String → Option TradeGroupEventType
  | some "Expiration" => some .expiration
  | some "Assignment" => some .assignment
  | some "Cash Settled Assignment" => some .assignment
  | some "Exercise" => some .exercise
  | some "Cash Settled Exercise" => some .exercise
  | _ => none

/-- The money half of a cash-settled settlement. -/
def isCashSettled (subType : Option String) : Bool :=
  subType = some "Cash Settled Assignment" || subType = some "Cash Settled Exercise"

/-- The status a fully offset group lands on, by the event that closed it. -/
def statusByEvent : TradeGroupEventType → Option TradeGroupStatus
  | .fullExit => some .closed
  | .partialExit => some .closed
  | .expiration => some .expired
  | .assignment => some .assigned
  | .exercise => some .exercised
  | _ => none

def isClosingAction (action : Option String) : Bool :=
  action = some "Sell to Close" || action = some "Buy to Close"

def isOpeningAction (action : Option String) : Bool :=
  action = some "Buy to Open" || action = some "Sell to Open"

/-- Futures trade without open or close intent. -/
def isBareAction (action : Option String) : Bool := action = some "Buy" || action = some "Sell"

namespace TxnRow

def isNontradeClose (r : TxnRow) : Bool :=
  r.transactionType = some "Receive Deliver" && (rdEventBySubtype r.transactionSubType).isSome

/-- The position leg of an assignment or exercise, or a transfer. -/
def isDelivery (r : TxnRow) : Bool :=
  r.transactionType = some "Receive Deliver" &&
    (isOpeningAction r.action || isClosingAction r.action || isBareAction r.action)

def isClosing (r : TxnRow) : Bool := isClosingAction r.action || r.isNontradeClose

def isOpening (r : TxnRow) : Bool := isOpeningAction r.action

def isMoneyMovement (r : TxnRow) : Bool := r.transactionType = some "Money Movement"

/-- `abs(row.quantity or 0)`. -/
def absQuantity (r : TxnRow) : ℚ := |r.quantity.getD 0|

/-- Whether an action, stripped and lowered, starts with `sell`. -/
def sells (r : TxnRow) : Bool :=
  Text.startsWith (Text.lower (Text.strip (r.action.getD "").toList)) "sell".toList

/-- The signed position change of a trade-like row. -/
def actionDelta (r : TxnRow) : ℚ := if r.sells then -r.absQuantity else r.absQuantity

/-- Rows with a security and a quantity. -/
def isPosition (r : TxnRow) : Bool := truthy r.securityId && r.quantity.isSome

/-- The security of a position row. -/
def sid (r : TxnRow) : String := r.securityId.getD ""

end TxnRow

/-! ## The walk over one group's rows -/

/-- Move a net toward zero by at most what it holds. -/
def clampToward (current quantity : ℚ) : ℚ :=
  if 0 < current then current - min quantity |current| else current + min quantity |current|

/-- The group's running net after a row; `none` when the row does not move it. -/
def groupNetStep (current : ℚ) (r : TxnRow) : Option ℚ :=
  if r.isMoneyMovement then none
  else if r.isNontradeClose then
    if current = 0 then none else some (clampToward current r.absQuantity)
  else if !truthy r.action then none
  else
    let delta := r.actionDelta
    let closes := isClosingAction r.action ||
      (isBareAction r.action && current ≠ 0 && current * delta < 0)
    if !closes then some (current + delta)
    else if current = 0 then none
    else some (clampToward current |delta|)

/-- Position rows in time order, undated ones last. -/
def orderedPositionRows (rows : List TxnRow) : List TxnRow :=
  sortOn (fun r => timeKey r.executedAt) (rows.filter TxnRow.isPosition)

/-- One row of the net walk. -/
def netWalk (net : Dict String ℚ) (r : TxnRow) : Dict String ℚ :=
  match groupNetStep ((net.get? r.sid).getD 0) r with
  | some stepped => net.set r.sid stepped
  | none => net

/-- The net signed position of a group in each security it traded. -/
def netQuantities (rows : List TxnRow) : Dict String ℚ :=
  (orderedPositionRows rows).foldl netWalk Dict.empty

/-- One row of the exposure walk: the running nets and their peaks. -/
def peakWalk (w : Dict String ℚ × Dict String ℚ) (r : TxnRow) : Dict String ℚ × Dict String ℚ :=
  match groupNetStep ((w.1.get? r.sid).getD 0) r with
  | some stepped =>
    (w.1.set r.sid stepped, w.2.set r.sid (max ((w.2.get? r.sid).getD 0) |stepped|))
  | none => w

/-- The peak absolute net of a group in each security it traded. -/
def peakExposures (rows : List TxnRow) : Dict String ℚ :=
  ((orderedPositionRows rows).foldl peakWalk (Dict.empty, Dict.empty)).2

/-- The group opened something and every security it traded nets to zero. -/
def fullyClosed (rows : List TxnRow) : Bool :=
  let net := netQuantities rows
  !net.entries.isEmpty && rows.any (fun r => r.isOpening || isBareAction r.action) &&
    net.values.all (· = 0)

/-- The cause a row contributes to the status of a closed group. -/
def closeCause (net : Dict String ℚ) (r : TxnRow) : Option TradeGroupStatus :=
  if r.isNontradeClose then (rdEventBySubtype r.transactionSubType).bind statusByEvent
  else if isClosingAction r.action then some .closed
  else if isBareAction r.action && truthy r.securityId && net.get? r.sid = some 0 then some .closed
  else none

/-- The distinct causes that closed a group. -/
def closeCauses (rows : List TxnRow) : List TradeGroupStatus :=
  (rows.filterMap (closeCause (netQuantities rows))).eraseDups

/-- The status of a fully closed group: its cause, or `mixed` unless there is exactly one. -/
def closedStatus (rows : List TxnRow) : TradeGroupStatus :=
  match closeCauses rows with
  | [cause] => cause
  | _ => .mixed

/-! ## Money -/

namespace TxnRow

/-- `net_value` with its effect applied. -/
def signedNet (r : TxnRow) : ℚ :=
  if r.netValueEffect = some "Debit" then -(r.netValue.getD 0) else r.netValue.getD 0

/-- Every fee itemised on a transaction. -/
def rowFees (r : TxnRow) : ℚ :=
  r.commission.getD 0 + r.clearingFees.getD 0 + r.regulatoryFees.getD 0 +
    r.proprietaryIndexOptionFees.getD 0

/-- The signed gross value: fees added back onto the net. -/
def signedGross (r : TxnRow) : ℚ := r.signedNet + r.rowFees

end TxnRow

/-- The fees of a group. -/
def totalFees (rows : List TxnRow) : ℚ := (rows.map TxnRow.rowFees).sum

/-- The latest instant of the dated rows. -/
def lastExecutedAt (rows : List TxnRow) : Option Datetime :=
  (rows.filterMap TxnRow.executedAt).max?

/-- The earliest instant of the dated rows. -/
def firstExecutedAt (rows : List TxnRow) : Option Datetime :=
  (rows.filterMap TxnRow.executedAt).min?

/-- The contracts a settlement event retired: for each security the removal rows, or the money
rows when there is no removal row. -/
def settledQuantity (rdRows : List TxnRow) : ℚ :=
  let quantityOf := fun (money : Bool) (sid : Option String) =>
    ((rdRows.filter fun r => r.quantity.isSome && r.securityId = sid &&
      isCashSettled r.transactionSubType = money).map TxnRow.absQuantity).sum
  (((rdRows.filter fun r => r.quantity.isSome).map TxnRow.securityId).eraseDups.map fun sid =>
    if quantityOf false sid = 0 then quantityOf true sid else quantityOf false sid).sum

end TtLedger
