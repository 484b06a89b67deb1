import TtLedger.Ingest.Net
import Mathlib.Data.Prod.Lex

/-!
# Replay's walks

The account-level walks of `ingest/replay.py` the reconciler uses: `netOpenQuantities`, the signed
open quantity of each security over the whole account's rows, and `priceRealizedGross`, the
price-based realized P&L of one security's rows. At account grain a close beyond the lot flips it
through zero; `clampCloses` is the group grain, where it stops at zero.
-/

namespace TtLedger

/-- `datetime.min` in UTC. -/
def datetimeMin : Datetime := -62135596800 * second

namespace TxnRow

/-- Whether an action, stripped, ends with `to Close`. -/
def endsToClose (r : TxnRow) : Bool :=
  Text.endsWith (Text.strip (r.action.getD "").toList) "to Close".toList

/-- Within one timestamp, opens are applied before closes and settlements. -/
def closesLast (r : TxnRow) : ℕ := if r.isNontradeClose then 1 else if r.endsToClose then 1 else 0

/-- `_signed_delta`: the quantity as given, negated by a `sell` action. -/
def signedDelta (r : TxnRow) : ℚ := if r.sells then -(r.quantity.getD 0) else r.quantity.getD 0

end TxnRow

/-- The order of the price and account walks. -/
def replayKey (r : TxnRow) : Datetime ×ₗ ℕ := toLex (r.executedAt.getD datetimeMin, r.closesLast)

/-! ## The account's open quantities -/

/-- One row of the quantity walk: the signed lot, and whether the walk has held a position. -/
def openWalk (w : ℚ × Bool) (r : TxnRow) : ℚ × Bool :=
  if r.isMoneyMovement then w
  else if r.isNontradeClose then
    if w.1 = 0 then w
    else
      let quantity := min r.absQuantity |w.1|
      (w.1 + if 0 < w.1 then -quantity else quantity, true)
  else if w.1 = 0 && !w.2 && r.endsToClose then w
  else (w.1 + r.signedDelta, true)

/-- Rows with a security, a quantity and an instant. -/
def TxnRow.isReplayed (r : TxnRow) : Bool :=
  r.securityId.isSome && r.quantity.isSome && r.executedAt.isSome

/-- The signed open quantity of each security, by the account-level walk. -/
def netOpenQuantities (rows : List TxnRow) : Dict String ℚ where
  entries := (groupBy TxnRow.securityId (rows.filter TxnRow.isReplayed)).entries.map fun e =>
    (e.1, ((sortOn replayKey e.2).foldl openWalk (0, false)).1)
  keys_nodup := by
    rw [List.map_map]
    exact (groupBy TxnRow.securityId (rows.filter TxnRow.isReplayed)).keys_nodup

/-! ## Price-based realized P&L -/

/-- The running lot of one security. -/
structure Lot where
  signedQuantity : ℚ := 0
  averageOpenPrice : Option ℚ := none
  deriving DecidableEq

/-- The signed quantity change and the effective price of a row against the current lot. -/
def effectiveDeltaPrice (r : TxnRow) (lot : Lot) (hadPosition : Bool) : ℚ × Option ℚ :=
  if r.isMoneyMovement then (0, none)
  else if r.isNontradeClose then
    if lot.signedQuantity = 0 then (0, none)
    else
      let quantity := min r.absQuantity |lot.signedQuantity|
      (if 0 < lot.signedQuantity then -quantity else quantity, some (r.price.getD 0))
  else if lot.signedQuantity = 0 && !hadPosition && r.endsToClose then (0, none)
  else (r.signedDelta, r.price)

/-- The state of the price walk. -/
structure PriceWalk where
  lot : Lot := {}
  realized : ℚ := 0
  hadPosition : Bool := false
  deriving DecidableEq

/-- One row of the price walk. -/
def priceWalk (multiplier : Int) (clampCloses : Bool) (w : PriceWalk) (r : TxnRow) : PriceWalk :=
  if r.quantity.isNone then w
  else
    let held := w.lot.signedQuantity
    let (delta, price) := effectiveDeltaPrice r w.lot w.hadPosition
    let delta :=
      if clampCloses && delta ≠ 0 && held ≠ 0 && held * delta < 0 then
        let capped := min |delta| |held|
        if 0 < delta then capped else -capped
      else delta
    match price with
    | none => w
    | some price =>
      if delta = 0 then w
      else
        let average := w.lot.averageOpenPrice.getD 0
        let after := held + delta
        if held = 0 then { w with lot := ⟨after, some price⟩, hadPosition := true }
        else if 0 < held * delta then
          { w with
            lot := ⟨after, some ((|held| * average + |delta| * price) / (|held| + |delta|))⟩
            hadPosition := true }
        else
          let closing := min |delta| |held|
          let sign : ℚ := if 0 < held then 1 else -1
          let realized := w.realized + (price - average) * closing * multiplier * sign
          if after = 0 then ⟨{}, realized, true⟩
          else if (0 < after) ≠ (0 < held) then ⟨⟨after, some price⟩, realized, true⟩
          else ⟨⟨after, w.lot.averageOpenPrice⟩, realized, true⟩

/-- Price-based gross realized P&L over one security's rows. -/
def priceRealizedGross (rows : List TxnRow) (multiplier : Int) (clampCloses : Bool) : ℚ :=
  ((sortOn replayKey rows).foldl (priceWalk multiplier clampCloses) {}).realized

end TtLedger
