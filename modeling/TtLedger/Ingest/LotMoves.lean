import TtLedger.Ingest.Rebuild

/-!
# The moves of the lot

A row that the rebuild applies makes one of five moves: it opens a flat lot, adds to the lot,
closes it, flips it through zero, or reduces it (`applyDelta_cases`). `RunningLot.reduced` is the
lot with what a row against it has realized and paid, before its quantity changes.
-/

namespace TtLedger

/-! ## The rows a plan closes -/

@[simp] theorem closedRows_append (plan plan' : List PlanEntry) :
    closedRows (plan ++ plan') = closedRows plan ++ closedRows plan' := List.filterMap_append

@[simp] theorem closedRows_none (id : String) (marksOpen : Bool) :
    closedRows [⟨id, marksOpen, none⟩] = [] := rfl

@[simp] theorem closedRows_some (id : String) (marksOpen : Bool) (c : ClosedPositionRow) :
    closedRows [⟨id, marksOpen, some c⟩] = [c] := rfl

/-! ## The moves -/

/-- The lot with the P&L and the fees of a row that moves against it. -/
def RunningLot.reduced (lot : RunningLot) (multiplier : Int) (r : TxnRow) (delta price : ℚ) :
    RunningLot :=
  { lot with
    realizedPnl := lot.realizedPnl + (price - lot.averageOpenPrice.getD 0) *
      min |delta| |lot.signedQuantity| * multiplier * (if 0 < lot.signedQuantity then 1 else -1)
    fees := lot.fees + feesOf r }

/-- The lot with a row in its direction. -/
def RunningLot.added (lot : RunningLot) (r : TxnRow) (delta price : ℚ) : RunningLot :=
  { lot with
    averageOpenPrice := some ((|lot.signedQuantity| * lot.averageOpenPrice.getD 0 +
      |delta| * price) / (|lot.signedQuantity| + |delta|))
    signedQuantity := lot.signedQuantity + delta
    fees := lot.fees + feesOf r }

section Reduced

variable (lot : RunningLot) (multiplier : Int) (r : TxnRow) (delta price : ℚ)

@[simp] theorem RunningLot.signedQuantity_reduced :
    (lot.reduced multiplier r delta price).signedQuantity = lot.signedQuantity := rfl

@[simp] theorem RunningLot.averageOpenPrice_reduced :
    (lot.reduced multiplier r delta price).averageOpenPrice = lot.averageOpenPrice := rfl

end Reduced

/-- A row in the direction of the lot does not empty it. -/
theorem add_ne_zero_of_mul_pos {held delta : ℚ} (h : 0 < held * delta) : held + delta ≠ 0 := by
  intro hzero
  rw [eq_neg_of_add_eq_zero_right hzero, mul_neg] at h
  exact absurd (mul_self_nonneg held) (not_le.mpr (neg_pos.mp h))

section Apply

variable (account sid : String) (multiplier : Int) (w : Rebuild) (r : TxnRow) (delta price : ℚ)

/-- The record of the lifecycle that a row against the lot completes. -/
def completedRow : ClosedPositionRow :=
  closedRow account sid (w.lot.reduced multiplier r delta price) price r.orderId r.executedAt

/-- What holds of the state after each of the five moves holds of the state after a row. -/
@[elab_as_elim]
theorem applyDelta_cases {motive : Rebuild → Prop}
    (opens : w.lot.signedQuantity = 0 →
      motive { w with
        lot := openedLot r (w.lot.signedQuantity + delta) price (feesOf r)
        hadPosition := true
        plan := w.plan ++ [⟨r.ttTransactionId, true, none⟩] })
    (adds : w.lot.signedQuantity ≠ 0 → 0 < w.lot.signedQuantity * delta →
      motive { w with
        lot := w.lot.added r delta price
        hadPosition := true
        plan := w.plan ++ [⟨r.ttTransactionId, true, none⟩] })
    (closes : w.lot.signedQuantity ≠ 0 → ¬0 < w.lot.signedQuantity * delta →
      w.lot.signedQuantity + delta = 0 →
      motive {
        lot := {}
        lastDirection := (completedRow account sid multiplier w r delta price).quantityDirection
        hadPosition := true
        plan := w.plan ++ [⟨r.ttTransactionId, false,
          some (completedRow account sid multiplier w r delta price)⟩] })
    (flips : w.lot.signedQuantity ≠ 0 → ¬0 < w.lot.signedQuantity * delta →
      w.lot.signedQuantity + delta ≠ 0 →
      (0 < w.lot.signedQuantity + delta) ≠ (0 < w.lot.signedQuantity) →
      motive {
        lot := openedLot r (w.lot.signedQuantity + delta) price 0
        lastDirection := (completedRow account sid multiplier w r delta price).quantityDirection
        hadPosition := true
        plan := w.plan ++ [⟨r.ttTransactionId, true,
          some (completedRow account sid multiplier w r delta price)⟩] })
    (reduces : w.lot.signedQuantity ≠ 0 → ¬0 < w.lot.signedQuantity * delta →
      w.lot.signedQuantity + delta ≠ 0 →
      ¬(0 < w.lot.signedQuantity + delta) ≠ (0 < w.lot.signedQuantity) →
      motive { w with
        lot := { w.lot.reduced multiplier r delta price with
          signedQuantity := w.lot.signedQuantity + delta }
        hadPosition := true
        plan := w.plan ++ [⟨r.ttTransactionId, true, none⟩] }) :
    motive (applyDelta account sid multiplier w r delta price) := by
  unfold applyDelta
  simp only []
  by_cases hflat : w.lot.signedQuantity = 0
  · rw [if_pos hflat]
    exact opens hflat
  · rw [if_neg hflat]
    by_cases hsame : 0 < w.lot.signedQuantity * delta
    · rw [if_pos hsame]
      exact adds hflat hsame
    · rw [if_neg hsame]
      by_cases hzero : w.lot.signedQuantity + delta = 0
      · rw [if_pos hzero]
        exact closes hflat hsame hzero
      · rw [if_neg hzero]
        by_cases hflip : (0 < w.lot.signedQuantity + delta) ≠ (0 < w.lot.signedQuantity)
        · rw [if_pos hflip]
          exact flips hflat hsame hzero hflip
        · rw [if_neg hflip]
          exact reduces hflat hsame hzero hflip

@[simp] theorem signedQuantity_applyDelta :
    (applyDelta account sid multiplier w r delta price).lot.signedQuantity =
      w.lot.signedQuantity + delta := by
  refine applyDelta_cases account sid multiplier w r delta price ?_ ?_ ?_ ?_ ?_
  · exact fun _ => rfl
  · exact fun _ _ => rfl
  · exact fun _ _ hzero => hzero.symm
  · exact fun _ _ _ _ => rfl
  · exact fun _ _ _ _ => rfl

@[simp] theorem hadPosition_applyDelta :
    (applyDelta account sid multiplier w r delta price).hadPosition = true := by
  refine applyDelta_cases account sid multiplier w r delta price ?_ ?_ ?_ ?_ ?_ <;> intros <;> rfl

/-- A row completes one lifecycle or none. -/
theorem closedRows_applyDelta :
    closedRows (applyDelta account sid multiplier w r delta price).plan = closedRows w.plan ∨
      closedRows (applyDelta account sid multiplier w r delta price).plan =
        closedRows w.plan ++ [completedRow account sid multiplier w r delta price] := by
  refine applyDelta_cases account sid multiplier w r delta price ?_ ?_ ?_ ?_ ?_
  · exact fun _ => Or.inl (by simp)
  · exact fun _ _ => Or.inl (by simp)
  · exact fun _ _ _ => Or.inr (by simp)
  · exact fun _ _ _ _ => Or.inr (by simp)
  · exact fun _ _ _ _ => Or.inl (by simp)

end Apply

end TtLedger
