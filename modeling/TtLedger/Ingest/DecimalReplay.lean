import TtLedger.Foundations.Decimals
import TtLedger.Ingest.Rebuild
import TtLedger.Store.Money

/-!
# Replay in a decimal context

`Replay` and `Rebuild` state the walks of `ingest/replay.py` in exact numbers. The code computes
with decimals of a context, which round every sum, product, quotient, absolute value and negation
to its precision. Here the same functions are computations in a context (`Dec`), with the
operations in the order of the code; in a context that rounds nothing they are the exact ones
(`run_id_rebuild`, `run_id_lapseExpiredLot`, `run_id_priceRealizedGross`).
-/

namespace TtLedger

/-- A computation in a decimal context. -/
abbrev Dec := Arith ℚ

/-- The default context: 28 significant digits, half to even. -/
def defaultContext : Arith.Context ℚ := .digits contextPrecision (by decide)

namespace Decimal

/-- Every fee itemised on a transaction, added up. -/
def feesOf (r : TxnRow) : Dec ℚ :=
  Arith.total [r.commission.getD 0, r.clearingFees.getD 0, r.regulatoryFees.getD 0,
    r.proprietaryIndexOptionFees.getD 0]

/-- `_signed_delta`: the quantity as given, negated by a `sell` action. -/
def signedDelta (r : TxnRow) : Dec ℚ :=
  if r.sells then Arith.neg (r.quantity.getD 0) else pure (r.quantity.getD 0)

/-- The signed quantity change and the effective price of a row against the current lot. -/
def effectiveDeltaPrice (r : TxnRow) (lot : Lot) (hadPosition : Bool) : Dec (ℚ × Option ℚ) :=
  if r.isMoneyMovement then pure (0, none)
  else if r.isNontradeClose then
    if lot.signedQuantity = 0 then pure (0, none)
    else do
      let asked ← Arith.abs (r.quantity.getD 0)
      let held ← Arith.abs lot.signedQuantity
      let quantity := min asked held
      let delta ← if 0 < lot.signedQuantity then Arith.neg quantity else pure quantity
      pure (delta, some (r.price.getD 0))
  else if lot.signedQuantity = 0 && !hadPosition && r.endsToClose then pure (0, none)
  else do
    let delta ← signedDelta r
    pure (delta, r.price)

/-- The weighted-average cost of a lot after a row in its direction. -/
def addedAverage (old average delta price : ℚ) : Dec ℚ := do
  let held ← Arith.abs old
  let added ← Arith.abs delta
  let totalQty ← Arith.add held added
  let cost ← Arith.mul held average
  let paid ← Arith.mul added price
  let spent ← Arith.add cost paid
  Arith.div spent totalQty

/-- What a row against a lot realizes. -/
def realizedGain (old average delta price : ℚ) (multiplier : Int) : Dec ℚ := do
  let moved ← Arith.abs delta
  let held ← Arith.abs old
  let closing := min moved held
  let sign : ℚ := if 0 < old then 1 else -1
  let points ← Arith.sub price average
  let value ← Arith.mul points closing
  let gross ← Arith.mul value multiplier
  Arith.mul gross sign

/-! ## The rebuild -/

/-- The record of a completed lifecycle. -/
def closedRow (account securityId : String) (lot : RunningLot) (closePrice : ℚ)
    (closingOrderId : Option ℕ) (closedAt : Option Datetime) : Dec ClosedPositionRow := do
  let quantity ← Arith.abs lot.signedQuantity
  let pnlNet ← Arith.sub lot.realizedPnl lot.fees
  pure { TtLedger.closedRow account securityId lot closePrice closingOrderId closedAt with
    quantity, pnlNet := some pnlNet }

/-- Apply a row that moves the lot by `delta` at `price`. -/
def applyDelta (account securityId : String) (multiplier : Int) (w : Rebuild) (r : TxnRow)
    (delta price : ℚ) : Dec Rebuild := do
  let lot := w.lot
  let old := lot.signedQuantity
  let average := lot.averageOpenPrice.getD 0
  let entry := fun marksOpen closedRow => w.plan ++ [⟨r.ttTransactionId, marksOpen, closedRow⟩]
  let new ← Arith.add old delta
  if old = 0 then do
    let fees ← feesOf r
    pure { w with lot := openedLot r new price fees, hadPosition := true, plan := entry true none }
  else do
    let direction ← Arith.mul old delta
    if 0 < direction then do
      let average ← addedAverage old average delta price
      let rowFees ← feesOf r
      let fees ← Arith.add lot.fees rowFees
      pure { w with
        lot := { lot with averageOpenPrice := some average, signedQuantity := new, fees }
        hadPosition := true
        plan := entry true none }
    else do
      let gain ← realizedGain old average delta price multiplier
      let realizedPnl ← Arith.add lot.realizedPnl gain
      let rowFees ← feesOf r
      let fees ← Arith.add lot.fees rowFees
      let lot := { lot with realizedPnl, fees }
      if new = 0 then do
        let closed ← closedRow account securityId lot price r.orderId r.executedAt
        pure { lot := {}, lastDirection := closed.quantityDirection, hadPosition := true,
               plan := entry false (some closed) }
      else if (0 < new) ≠ (0 < old) then do
        let closed ← closedRow account securityId lot price r.orderId r.executedAt
        -- the fees of a flip stay with the lifecycle it closes
        pure { lot := openedLot r new price 0, lastDirection := closed.quantityDirection,
               hadPosition := true, plan := entry true (some closed) }
      else
        pure { w with lot := { lot with signedQuantity := new }, hadPosition := true,
                      plan := entry true none }

/-- The quantity change and the price of a row the walk applies. -/
def appliedBy (w : Rebuild) (r : TxnRow) : Dec (Option (ℚ × ℚ)) := do
  let (delta, price) ← effectiveDeltaPrice r w.lot.toLot w.hadPosition
  pure (if delta = 0 then none else price.map fun price => (delta, price))

/-- One row of the rebuild. -/
def rebuildStep (account securityId : String) (multiplier : Int) (w : Rebuild) (r : TxnRow) :
    Dec Rebuild := do
  match ← appliedBy w r with
  | none => pure { w with plan := w.plan ++ [⟨r.ttTransactionId, false, none⟩] }
  | some (delta, price) => applyDelta account securityId multiplier w r delta price

/-- The state after the rows. -/
def rebuild (account securityId : String) (multiplier : Int) (rows : List TxnRow) : Dec Rebuild :=
  rows.foldlM (rebuildStep account securityId multiplier) {}

/-- The position row of a lot. -/
def positionOf (account securityId : String) (multiplier : Int) (w : Rebuild)
    (existing : Option PositionRow) : Dec PositionRow := do
  let quantity ← Arith.abs w.lot.signedQuantity
  pure { TtLedger.positionOf account securityId multiplier w existing with quantity }

/-- The position and the plan of one security's rows. -/
def replaySecurity (account securityId : String) (rows : List TxnRow) (multiplier : Int)
    (existing : Option PositionRow) : Dec (PositionRow × List PlanEntry) := do
  let w ← rebuild account securityId multiplier rows
  let position ← positionOf account securityId multiplier w existing
  pure (position, w.plan)

/-! ## The lapse backstop -/

/-- The record of a lapsed lot, closed at zero. -/
def lapsedRow (account securityId : String) (position : PositionRow) (expiry : Date)
    (multiplier : Int) : Dec ClosedPositionRow := do
  let sign : ℚ := if position.quantityDirection = "Long" then 1 else -1
  let points ← Arith.sub 0 (position.averageOpenPrice.getD 0)
  let value ← Arith.mul points position.quantity
  let scaled ← Arith.mul value multiplier
  let gross ← Arith.mul scaled sign
  pure { TtLedger.lapsedRow account securityId position expiry multiplier with
    realizedPnl := some gross, pnlNet := some gross }

/-- Close a lot whose contract expired without a settlement row. -/
def lapseExpiredLot (account securityId : String) (position : PositionRow) (plan : List PlanEntry)
    (expiry : Option Date) (multiplier : Int) (lastActivity : Option Datetime) :
    Dec (PositionRow × List PlanEntry) :=
  match lapsesLot position expiry lastActivity with
  | none => pure (position, plan)
  | some expiry => do
    let closed ← lapsedRow account securityId position expiry multiplier
    pure (flattened position, plan ++ [⟨"__lapsed__" ++ securityId, false, some closed⟩])

/-! ## Price-based realized P&L -/

/-- The change of a row; where closes are clamped, one against the lot is capped at what the lot
holds. -/
def clampedDelta (clampCloses : Bool) (held delta : ℚ) : Dec ℚ :=
  if clampCloses ∧ delta ≠ 0 ∧ held ≠ 0 then do
    let direction ← Arith.mul held delta
    if direction < 0 then do
      let moved ← Arith.abs delta
      let size ← Arith.abs held
      let capped := min moved size
      if 0 < delta then pure capped else Arith.neg capped
    else pure delta
  else pure delta

/-- Apply a row to the price walk. -/
def applyPrice (multiplier : Int) (w : PriceWalk) (delta price : ℚ) : Dec PriceWalk := do
  let held := w.lot.signedQuantity
  let average := w.lot.averageOpenPrice.getD 0
  let after ← Arith.add held delta
  if held = 0 then pure { w with lot := ⟨after, some price⟩, hadPosition := true }
  else do
    let direction ← Arith.mul held delta
    if 0 < direction then do
      let average ← addedAverage held average delta price
      pure { w with lot := ⟨after, some average⟩, hadPosition := true }
    else do
      let gain ← realizedGain held average delta price multiplier
      let realized ← Arith.add w.realized gain
      if after = 0 then pure ⟨{}, realized, true⟩
      else if (0 < after) ≠ (0 < held) then pure ⟨⟨after, some price⟩, realized, true⟩
      else pure ⟨⟨after, w.lot.averageOpenPrice⟩, realized, true⟩

/-- One row of the price walk. -/
def priceWalk (multiplier : Int) (clampCloses : Bool) (w : PriceWalk) (r : TxnRow) :
    Dec PriceWalk :=
  if r.quantity.isNone then pure w
  else do
    let held := w.lot.signedQuantity
    let (delta, price) ← effectiveDeltaPrice r w.lot w.hadPosition
    let delta ← clampedDelta clampCloses held delta
    match price with
    | none => pure w
    | some price => if delta = 0 then pure w else applyPrice multiplier w delta price

/-- Price-based gross realized P&L over one security's rows. -/
def priceRealizedGross (rows : List TxnRow) (multiplier : Int) (clampCloses : Bool) : Dec ℚ := do
  let w ← (sortOn replayKey rows).foldlM (priceWalk multiplier clampCloses) {}
  pure w.realized

/-! ## Without rounding -/

section Exact

variable (account sid : String) (multiplier : Int)

theorem run_id_feesOf (r : TxnRow) : (feesOf r).run id = TtLedger.feesOf r := by
  simp [feesOf, Arith.run_total, TtLedger.feesOf, TxnRow.rowFees]

theorem run_id_effectiveDeltaPrice (r : TxnRow) (lot : Lot) (hadPosition : Bool) :
    (effectiveDeltaPrice r lot hadPosition).run id =
      TtLedger.effectiveDeltaPrice r lot hadPosition := by
  unfold effectiveDeltaPrice TtLedger.effectiveDeltaPrice
  simp only [Arith.run_ite, Arith.run_bind, Arith.run_pure, Arith.run_abs, Arith.run_neg,
    signedDelta, TxnRow.signedDelta, TxnRow.absQuantity]
  split_ifs <;> rfl

theorem run_id_applyDelta (w : Rebuild) (r : TxnRow) (delta price : ℚ) :
    (applyDelta account sid multiplier w r delta price).run id =
      TtLedger.applyDelta account sid multiplier w r delta price := by
  unfold applyDelta TtLedger.applyDelta
  simp only [Arith.run_ite, Arith.run_bind, Arith.run_pure, addedAverage, realizedGain, closedRow]
  simp only [Arith.run_add, Arith.run_mul, Arith.run_abs, Arith.run_sub, Arith.run_div,
    run_id_feesOf, id_eq]
  rfl

theorem run_id_appliedBy (w : Rebuild) (r : TxnRow) :
    (appliedBy w r).run id = TtLedger.appliedBy w r := by
  simp only [appliedBy, Arith.run_bind, Arith.run_pure, run_id_effectiveDeltaPrice]
  rfl

theorem run_id_rebuildStep (w : Rebuild) (r : TxnRow) :
    (rebuildStep account sid multiplier w r).run id =
      TtLedger.rebuildStep account sid multiplier w r := by
  rw [rebuildStep, Arith.run_bind, run_id_appliedBy, TtLedger.rebuildStep]
  cases TtLedger.appliedBy w r with
  | none => rfl
  | some e => exact run_id_applyDelta account sid multiplier w r e.1 e.2

/-- **Without rounding the rebuild is the exact one.** -/
theorem run_id_rebuild (rows : List TxnRow) :
    (rebuild account sid multiplier rows).run id =
      TtLedger.rebuild account sid multiplier rows := by
  rw [rebuild, Arith.run_foldlM]
  simp only [run_id_rebuildStep]
  rfl

theorem run_id_replaySecurity (rows : List TxnRow) (existing : Option PositionRow) :
    (replaySecurity account sid rows multiplier existing).run id =
      TtLedger.replaySecurity account sid rows multiplier existing := by
  simp only [replaySecurity, Arith.run_bind, Arith.run_pure, run_id_rebuild, positionOf,
    Arith.run_abs, id_eq]
  rfl

theorem run_id_lapseExpiredLot (position : PositionRow) (plan : List PlanEntry)
    (expiry : Option Date) (lastActivity : Option Datetime) :
    (lapseExpiredLot account sid position plan expiry multiplier lastActivity).run id =
      TtLedger.lapseExpiredLot account sid position plan expiry multiplier lastActivity := by
  unfold lapseExpiredLot TtLedger.lapseExpiredLot
  cases lapsesLot position expiry lastActivity with
  | none => rfl
  | some expiry =>
    simp only [lapsedRow, Arith.run_bind, Arith.run_pure, Arith.run_sub, Arith.run_mul, id_eq]
    rfl

theorem run_id_clampedDelta (clampCloses : Bool) (held delta : ℚ) :
    (clampedDelta clampCloses held delta).run id =
      if clampCloses && delta ≠ 0 && held ≠ 0 && held * delta < 0 then
        if 0 < delta then min |delta| |held| else -min |delta| |held|
      else delta := by
  unfold clampedDelta
  simp only [Arith.run_ite, Arith.run_bind, Arith.run_pure]
  simp only [Arith.run_mul, Arith.run_abs, Arith.run_neg, id_eq, Bool.and_eq_true,
    decide_eq_true_eq]
  by_cases hmoves : clampCloses = true ∧ delta ≠ 0 ∧ held ≠ 0
  · by_cases hopp : held * delta < 0 <;> simp [hmoves, hopp]
  · have hnot : ¬(((clampCloses = true ∧ delta ≠ 0) ∧ held ≠ 0) ∧ held * delta < 0) :=
      fun h => hmoves ⟨h.1.1.1, h.1.1.2, h.1.2⟩
    rw [if_neg hmoves, if_neg hnot]

theorem run_id_applyPrice (w : PriceWalk) (delta price : ℚ) :
    (applyPrice multiplier w delta price).run id =
      let held := w.lot.signedQuantity
      let average := w.lot.averageOpenPrice.getD 0
      let after := held + delta
      if held = 0 then { w with lot := ⟨after, some price⟩, hadPosition := true }
      else if 0 < held * delta then
        { w with
          lot := ⟨after, some ((|held| * average + |delta| * price) / (|held| + |delta|))⟩
          hadPosition := true }
      else
        let realized := w.realized + (price - average) * min |delta| |held| * multiplier *
          (if 0 < held then 1 else -1)
        if after = 0 then ⟨{}, realized, true⟩
        else if (0 < after) ≠ (0 < held) then ⟨⟨after, some price⟩, realized, true⟩
        else ⟨⟨after, w.lot.averageOpenPrice⟩, realized, true⟩ := by
  unfold applyPrice
  simp only [Arith.run_ite, Arith.run_bind, Arith.run_pure, addedAverage, realizedGain]
  simp only [Arith.run_add, Arith.run_mul, Arith.run_abs, Arith.run_sub, Arith.run_div, id_eq]
  rfl

theorem run_id_priceWalk (clampCloses : Bool) (w : PriceWalk) (r : TxnRow) :
    (priceWalk multiplier clampCloses w r).run id =
      TtLedger.priceWalk multiplier clampCloses w r := by
  unfold priceWalk TtLedger.priceWalk
  by_cases hnone : r.quantity.isNone = true
  · simp only [hnone, if_true, Arith.run_pure]
  · simp only [hnone, if_false, Arith.run_bind, run_id_effectiveDeltaPrice, Bool.false_eq_true]
    generalize TtLedger.effectiveDeltaPrice r w.lot w.hadPosition = e
    obtain ⟨delta, price⟩ := e
    cases price with
    | none => simp only [Arith.run_pure]
    | some price =>
      simp only [Arith.run_ite, run_id_applyPrice, run_id_clampedDelta, Arith.run_pure]

/-- **Without rounding the price view is the exact one.** -/
theorem run_id_priceRealizedGross (rows : List TxnRow) (clampCloses : Bool) :
    (priceRealizedGross rows multiplier clampCloses).run id =
      TtLedger.priceRealizedGross rows multiplier clampCloses := by
  simp only [priceRealizedGross, Arith.run_bind, Arith.run_pure, Arith.run_foldlM,
    run_id_priceWalk]
  rfl

end Exact

end Decimal

end TtLedger
