import TtLedger.Rows
import TtLedger.Store.Money

/-!
# What the columns hold

The application works in decimals; every price, value, fee and P&L of a row is in a `Money` column,
and what is read back is the decimal that the column holds for it. A `MoneyColumn` is a way to hold
decimals: a decimal read back and written again stays. In memory a decimal is held as it is
(`exact`), SQLite holds micro-units (`sqlite`), Postgres a `NUMERIC(18, 6)` (`numeric`). `heldIn`
is a row of each table as its columns hold it.
-/

namespace TtLedger

/-- The decimals a money column holds. -/
structure MoneyColumn where
  hold : ℚ → ℚ
  hold_hold : ∀ v, hold (hold v) = hold v

attribute [simp] MoneyColumn.hold_hold

/-- A decimal, written to a money column of SQLite and read back. -/
def Money.stored (value : ℚ) : ℚ :=
  (processResultValue moneyScale "sqlite" (processBindParam moneyScale "sqlite" value)).getD 0

theorem Money.stored_eq (value : ℚ) :
    Money.stored value =
      roundHalfEven (roundToDigits contextPrecision (value * 10 ^ moneyScale)) /
        10 ^ moneyScale := by
  have hprecision : 0 < contextPrecision := by decide
  have hdigits := (hasDigits_roundToDigits hprecision (value * 10 ^ moneyScale)).roundHalfEven
    hprecision
  have hscaled := hdigits.mul_zpow (-moneyScale)
  rw [zpow_neg, zpow_natCast, ← div_eq_mul_inv] at hscaled
  exact roundToDigits_of_hasDigits hscaled

namespace MoneyColumn

/-- The decimals of the application. -/
def exact : MoneyColumn := ⟨id, fun _ => rfl⟩

/-- An integer number of micro-units. -/
def sqlite : MoneyColumn where
  hold := Money.stored
  hold_hold v := by
    have hprecision : 0 < contextPrecision := by decide
    have hdigits := (hasDigits_roundToDigits hprecision (v * 10 ^ moneyScale)).roundHalfEven
      hprecision
    rw [Money.stored_eq (Money.stored v), Money.stored_eq v,
      div_mul_cancel₀ _ (pow_ne_zero _ (by norm_num)), roundToDigits_of_hasDigits hdigits,
      roundHalfEven_intCast]

/-- The nearest number of micro-units, the one farther from zero of two. -/
def microUnits (v : ℚ) : ℤ :=
  if v < 0 then -⌊-v * 10 ^ moneyScale + 1 / 2⌋ else ⌊v * 10 ^ moneyScale + 1 / 2⌋

theorem microUnits_div (n : ℤ) : microUnits (n / 10 ^ moneyScale) = n := by
  have hscale : (10 : ℚ) ^ moneyScale ≠ 0 := pow_ne_zero _ (by norm_num)
  have hfloor : ∀ n : ℤ, ⌊(n : ℚ) + 1 / 2⌋ = n := fun n => by
    rw [Int.floor_intCast_add]
    norm_num
  unfold microUnits
  split
  · rw [neg_mul, div_mul_cancel₀ _ hscale, ← Int.cast_neg, hfloor, neg_neg]
  · rw [div_mul_cancel₀ _ hscale, hfloor]

/-- `NUMERIC(18, 6)`. -/
def numeric : MoneyColumn where
  hold v := microUnits v / 10 ^ moneyScale
  hold_hold v := by rw [microUnits_div]

end MoneyColumn

/-! ## Rows -/

section Rows

variable (money : MoneyColumn)

def SecurityRow.heldIn (r : SecurityRow) : SecurityRow :=
  { r with strike := r.strike.map money.hold }

def OrderRow.heldIn (r : OrderRow) : OrderRow :=
  { r with
    price := r.price.map money.hold
    stopTrigger := r.stopTrigger.map money.hold
    averageFillPrice := r.averageFillPrice.map money.hold
    filledQuantity := r.filledQuantity.map money.hold
    remainingQuantity := r.remainingQuantity.map money.hold }

def TxnRow.heldIn (r : TxnRow) : TxnRow :=
  { r with
    quantity := r.quantity.map money.hold
    price := r.price.map money.hold
    value := r.value.map money.hold
    netValue := r.netValue.map money.hold
    commission := r.commission.map money.hold
    clearingFees := r.clearingFees.map money.hold
    regulatoryFees := r.regulatoryFees.map money.hold
    proprietaryIndexOptionFees := r.proprietaryIndexOptionFees.map money.hold }

def PositionRow.heldIn (r : PositionRow) : PositionRow :=
  { r with
    quantity := money.hold r.quantity
    averageOpenPrice := r.averageOpenPrice.map money.hold
    markPrice := r.markPrice.map money.hold
    closePrice := r.closePrice.map money.hold
    unrealizedPnl := r.unrealizedPnl.map money.hold
    realizedDayGain := r.realizedDayGain.map money.hold }

def ClosedPositionRow.heldIn (r : ClosedPositionRow) : ClosedPositionRow :=
  { r with
    quantity := money.hold r.quantity
    averageOpenPrice := r.averageOpenPrice.map money.hold
    averageClosePrice := r.averageClosePrice.map money.hold
    realizedPnl := r.realizedPnl.map money.hold
    fees := r.fees.map money.hold
    pnlNet := r.pnlNet.map money.hold }

def TradeGroupRow.heldIn (r : TradeGroupRow) : TradeGroupRow :=
  { r with
    totalPremium := r.totalPremium.map money.hold
    quantity := r.quantity.map money.hold
    totalFees := r.totalFees.map money.hold
    realizedPnl := r.realizedPnl.map money.hold
    maxProfit := r.maxProfit.map money.hold
    maxLoss := r.maxLoss.map money.hold
    initialRisk := r.initialRisk.map money.hold }

def EventRow.heldIn (r : EventRow) : EventRow :=
  { r with
    quantityChange := money.hold r.quantityChange
    premiumChange := money.hold r.premiumChange }

end Rows

section Laws

theorem TxnRow.heldIn_exact (r : TxnRow) : r.heldIn .exact = r := by
  simp [heldIn, MoneyColumn.exact]

theorem TxnRow.map_heldIn_exact (rows : List TxnRow) : rows.map (heldIn .exact) = rows :=
  (List.map_congr_left fun r _ => r.heldIn_exact).trans (List.map_id rows)

theorem TradeGroupRow.heldIn_exact (r : TradeGroupRow) : r.heldIn .exact = r := by
  simp [heldIn, MoneyColumn.exact]

theorem PositionRow.heldIn_exact (r : PositionRow) : r.heldIn .exact = r := by
  simp [heldIn, MoneyColumn.exact]

theorem ClosedPositionRow.heldIn_exact (r : ClosedPositionRow) : r.heldIn .exact = r := by
  simp [heldIn, MoneyColumn.exact]

theorem ClosedPositionRow.map_heldIn_exact (rows : List ClosedPositionRow) :
    rows.map (heldIn .exact) = rows :=
  (List.map_congr_left fun r _ => r.heldIn_exact).trans (List.map_id rows)

end Laws

end TtLedger
