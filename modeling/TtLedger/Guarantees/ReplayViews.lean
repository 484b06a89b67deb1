import TtLedger.Guarantees.Conservation
import TtLedger.Ingest.DecimalReplay

/-!
# Two views of the rebuild

The account walk of quantities and the price walk repeat the lot rules of the rebuild. `SameLot`
and `SamePnl` are the simulations between them: the quantity walk holds the signed lot of the
rebuild on rows that have a price (`netOpenQuantities_eq_replay`), and the price walk, when it does
not clamp closes, has realized what the closed rows and the open lot of the rebuild have
(`priceRealizedGross_eq_replay`).
-/

namespace TtLedger

variable {account sid : String} {multiplier : Int}

/-! ## The quantity view -/

/-- A dated row of a security that moves a quantity, with a price unless it settles a lot or moves
money only. -/
structure Counted (sid : String) (r : TxnRow) : Prop where
  security : r.securityId = some sid
  dated : r.executedAt.isSome = true
  quantity : r.quantity.isSome = true
  nonzero : r.quantity ≠ some 0
  priced : r.isNontradeClose = false → r.isMoneyMovement = false → r.price.isSome = true

section Quantity

variable {r : TxnRow}

theorem Counted.getD_quantity_ne_zero (h : Counted sid r) : r.quantity.getD 0 ≠ 0 := by
  obtain ⟨q, hq⟩ := Option.isSome_iff_exists.mp h.quantity
  have hne := h.nonzero
  rw [hq] at hne ⊢
  exact fun h0 => hne (congrArg some h0)

theorem Counted.absQuantity_ne_zero (h : Counted sid r) : r.absQuantity ≠ 0 :=
  abs_ne_zero.mpr h.getD_quantity_ne_zero

theorem Counted.signedDelta_ne_zero (h : Counted sid r) : r.signedDelta ≠ 0 := by
  unfold TxnRow.signedDelta
  split_ifs
  · exact neg_ne_zero.mpr h.getD_quantity_ne_zero
  · exact h.getD_quantity_ne_zero

theorem Counted.isReplayed (h : Counted sid r) : r.isReplayed = true := by
  simp [TxnRow.isReplayed, h.security, h.quantity, h.dated]

/-- The quantity walk moves by the row's effective quantity change. -/
theorem openWalk_eq (lot : Lot) (held : Bool) (h : Counted sid r) :
    openWalk (lot.signedQuantity, held) r =
      if (effectiveDeltaPrice r lot held).1 = 0 then (lot.signedQuantity, held)
      else (lot.signedQuantity + (effectiveDeltaPrice r lot held).1, true) := by
  unfold openWalk effectiveDeltaPrice
  simp only []
  by_cases hmoney : r.isMoneyMovement = true
  · simp [hmoney]
  · rw [if_neg hmoney, if_neg hmoney]
    by_cases hsettle : r.isNontradeClose = true
    · rw [if_pos hsettle, if_pos hsettle]
      by_cases hflat : lot.signedQuantity = 0
      · simp [hflat]
      · have hmin : min r.absQuantity |lot.signedQuantity| ≠ 0 := by
          rcases min_choice r.absQuantity |lot.signedQuantity| with heq | heq <;> rw [heq]
          · exact h.absQuantity_ne_zero
          · exact abs_ne_zero.mpr hflat
        rw [if_neg hflat, if_neg hflat]
        by_cases hpos : 0 < lot.signedQuantity
        · rw [if_pos hpos, if_neg (neg_ne_zero.mpr hmin)]
        · rw [if_neg hpos, if_neg hmin]
    · rw [if_neg hsettle, if_neg hsettle]
      by_cases hskip : (lot.signedQuantity = 0 && !held && r.endsToClose) = true
      · rw [if_pos hskip, if_pos hskip, if_pos rfl]
      · rw [if_neg hskip, if_neg hskip, if_neg h.signedDelta_ne_zero]

/-- A row that changes the quantity has an effective price. -/
theorem Counted.effectivePrice (h : Counted sid r) (lot : Lot) (held : Bool)
    (hdelta : (effectiveDeltaPrice r lot held).1 ≠ 0) :
    (effectiveDeltaPrice r lot held).2.isSome = true := by
  unfold effectiveDeltaPrice at hdelta ⊢
  by_cases hmoney : r.isMoneyMovement = true
  · simp [hmoney] at hdelta
  · rw [if_neg hmoney] at hdelta ⊢
    by_cases hsettle : r.isNontradeClose = true
    · rw [if_pos hsettle] at hdelta ⊢
      by_cases hflat : lot.signedQuantity = 0
      · simp [hflat] at hdelta
      · rw [if_neg hflat]
        rfl
    · rw [if_neg hsettle] at hdelta ⊢
      by_cases hskip : (lot.signedQuantity = 0 && !held && r.endsToClose) = true
      · rw [if_pos hskip] at hdelta
        exact absurd rfl hdelta
      · rw [if_neg hskip]
        exact h.priced (Bool.eq_false_iff.mpr hsettle) (Bool.eq_false_iff.mpr hmoney)

/-- The quantity walk and the rebuild hold the same lot. -/
structure SameLot (w : ℚ × Bool) (b : Rebuild) : Prop where
  quantity : w.1 = b.lot.signedQuantity
  held : w.2 = b.hadPosition

theorem SameLot.step {w : ℚ × Bool} {b : Rebuild} (hsame : SameLot w b) (h : Counted sid r) :
    SameLot (openWalk w r) (rebuildStep account sid multiplier b r) := by
  have hw : w = (b.lot.toLot.signedQuantity, b.hadPosition) := Prod.ext hsame.quantity hsame.held
  rw [hw, openWalk_eq b.lot.toLot b.hadPosition h]
  unfold rebuildStep appliedBy
  simp only []
  by_cases hdelta : (effectiveDeltaPrice r b.lot.toLot b.hadPosition).1 = 0
  · rw [if_pos hdelta, if_pos hdelta]
    exact ⟨rfl, rfl⟩
  · obtain ⟨price, hprice⟩ :=
      Option.isSome_iff_exists.mp (h.effectivePrice b.lot.toLot b.hadPosition hdelta)
    rw [if_neg hdelta, if_neg hdelta, hprice, Option.map_some]
    exact ⟨(signedQuantity_applyDelta account sid multiplier b r _ price).symm,
      (hadPosition_applyDelta account sid multiplier b r _ price).symm⟩

/-- The quantity walk of the rows gives the lot of the rebuild. -/
theorem sameLot_rebuild {rows : List TxnRow} (h : ∀ r ∈ rows, Counted sid r) :
    SameLot (rows.foldl openWalk (0, false)) (rebuild account sid multiplier rows) :=
  List.foldl_rel ⟨rfl, rfl⟩ fun r hr _ _ hsame => hsame.step (h r hr)

end Quantity

/-- The quantity of a position with the sign of its direction. -/
def PositionRow.signedQuantity (p : PositionRow) : ℚ :=
  if p.quantityDirection = "Long" then p.quantity else -p.quantity

theorem signedQuantity_positionOf (w : Rebuild) (existing : Option PositionRow) :
    (positionOf account sid multiplier w existing).signedQuantity = w.lot.signedQuantity := by
  simp only [PositionRow.signedQuantity, positionOf]
  rcases lt_trichotomy w.lot.signedQuantity 0 with hneg | hzero | hpos
  · simp [hneg, hneg.le.not_gt, abs_of_neg hneg]
  · simp [hzero]
  · simp [hpos, abs_of_pos hpos]

/-- **The quantity view is the rebuild's lot.** Over the rows of one security, dated and of
quantities that are not zero, each with a price unless it settles or moves money only, the open
quantities have one entry: the signed quantity of the position that the rebuild of the same rows
ends with. -/
theorem netOpenQuantities_eq_replay (account sid : String) (multiplier : Int)
    (existing : Option PositionRow) (rows : List TxnRow) (h : ∀ r ∈ rows, Counted sid r) :
    (netOpenQuantities rows).entries =
        (if rows = [] then []
          else [(sid, (replaySecurity account sid (sortOn replayKey rows) multiplier
            existing).1.signedQuantity)]) ∧
      ((netOpenQuantities rows).get? sid).getD 0 =
        (replaySecurity account sid (sortOn replayKey rows) multiplier
          existing).1.signedQuantity := by
  have hread : rows.filter TxnRow.isReplayed = rows :=
    List.filter_eq_self.mpr fun r hr => (h r hr).isReplayed
  have hlot : SameLot ((sortOn replayKey rows).foldl openWalk (0, false))
      (rebuild account sid multiplier (sortOn replayKey rows)) :=
    sameLot_rebuild fun r hr => h r ((mem_sortOn _).mp hr)
  have hsigned : (replaySecurity account sid (sortOn replayKey rows) multiplier
      existing).1.signedQuantity = ((sortOn replayKey rows).foldl openWalk (0, false)).1 := by
    rw [hlot.quantity]
    exact signedQuantity_positionOf _ existing
  have hentries : (netOpenQuantities rows).entries =
      if rows = [] then []
      else [(sid, ((sortOn replayKey rows).foldl openWalk (0, false)).1)] := by
    unfold netOpenQuantities
    simp only [hread]
    split_ifs with hnil
    · simp [hnil]
    · rw [groupBy_entries_of_forall hnil fun r hr => (h r hr).security, List.map_singleton]
  rw [hsigned]
  refine ⟨hentries, ?_⟩
  rw [Dict.get?, hentries]
  split_ifs with hnil
  · simp [hnil]
  · simp

/-- Two contracts bought and five sold: both views hold three short. -/
theorem netOpenQuantities_eq_replay_flip :
    let rows :=
      [TxnRow.trade "a" "Buy to Open" 2 5 0 0, TxnRow.trade "b" "Sell to Close" 5 7 0 day]
    (∀ r ∈ rows, Counted "contract" r) ∧
      (netOpenQuantities rows).entries =
        [("contract", (replaySecurity "live" "contract" (sortOn replayKey rows) 100
          none).1.signedQuantity)] := by
  have h : ∀ r ∈ [TxnRow.trade "a" "Buy to Open" 2 5 0 0,
      TxnRow.trade "b" "Sell to Close" 5 7 0 day], Counted "contract" r := by
    intro r hr
    simp only [List.mem_cons, List.not_mem_nil, or_false] at hr
    rcases hr with rfl | rfl
    · exact ⟨rfl, rfl, rfl, by decide, fun _ _ => rfl⟩
    · exact ⟨rfl, rfl, rfl, by decide, fun _ _ => rfl⟩
  exact ⟨h, (netOpenQuantities_eq_replay "live" "contract" 100 none _ h).1⟩

/-! ## The price view -/

/-- The amounts that rows realize, lifecycle by lifecycle: those of the lots that are closed, and
those of the open one. -/
structure Gains where
  closed : List (List ℚ) := []
  current : List ℚ := []
  deriving DecidableEq

namespace Gains

/-- Take an amount into the open lifecycle, which it may complete. -/
def take (g : Gains) (gain : ℚ) (completes : Bool) : Gains :=
  if completes then ⟨g.closed ++ [g.current ++ [gain]], []⟩ else ⟨g.closed, g.current ++ [gain]⟩

/-- All amounts in their order. -/
def all (g : Gains) : List ℚ := g.closed.flatten ++ g.current

theorem all_take (g : Gains) (gain : ℚ) (completes : Bool) :
    (g.take gain completes).all = g.all ++ [gain] := by
  unfold take all
  split_ifs <;> simp

end Gains

/-- The amounts after a row: one that moves against a lot realizes an amount, and completes the
lifecycle when it takes the lot to zero or through it. -/
def gainsStep (round : ℚ → ℚ) (multiplier : Int) (g : Gains) (b : Rebuild) (r : TxnRow) : Gains :=
  match (Decimal.appliedBy b r).run round with
  | none => g
  | some (delta, price) =>
    let held := b.lot.signedQuantity
    let after := round (held + delta)
    if held = 0 ∨ 0 < round (held * delta) then g
    else
      let gain := Decimal.realizedGain held (b.lot.averageOpenPrice.getD 0) delta price multiplier
      g.take (gain.run round) (after = 0 ∨ (0 < after) ≠ (0 < held))

/-- The amounts that rows realize in the rebuild. -/
def gainsOf (round : ℚ → ℚ) (account sid : String) (multiplier : Int) (rows : List TxnRow) :
    Gains :=
  (rows.foldl (fun s r => (gainsStep round multiplier s.1 s.2 r,
    (Decimal.rebuildStep account sid multiplier s.2 r).run round)) ({}, {})).1

/-- The price walk and the rebuild hold the same lot. The price walk has added up all amounts in
their order, the rebuild those of each lifecycle. -/
structure SamePnl (round : ℚ → ℚ) (g : Gains) (w : PriceWalk) (b : Rebuild) : Prop where
  lot : w.lot = b.lot.toLot
  held : w.hadPosition = b.hadPosition
  realized : w.realized = (Arith.total g.all).run round
  closed : (closedRows b.plan).map ClosedPositionRow.realizedPnl =
    g.closed.map fun gains => some ((Arith.total gains).run round)
  current : b.lot.realizedPnl = (Arith.total g.current).run round
  flat : b.lot.signedQuantity = 0 → g.current = []

section Price

open Decimal (realizedGain)

variable {ctx : Arith.Context ℚ} {g : Gains} {w : PriceWalk} {b : Rebuild} {r : TxnRow}

/-- A row that moves the two lots adds the same amount on both sides, or none. -/
theorem SamePnl.apply (hsame : SamePnl ctx.round g w b) {delta price : ℚ}
    (happ : (Decimal.appliedBy b r).run ctx.round = some (delta, price)) :
    SamePnl ctx.round (gainsStep ctx.round multiplier g b r)
      ((Decimal.applyPrice multiplier w delta price).run ctx.round)
      ((Decimal.applyDelta account sid multiplier b r delta price).run ctx.round) := by
  have hlot := hsame.lot
  have hclosed := hsame.closed
  unfold Decimal.applyPrice Decimal.applyDelta gainsStep
  simp only [Arith.run_ite, Arith.run_bind, Arith.run_pure, hlot, happ]
  simp only [Arith.run_add, Arith.run_mul]
  by_cases hflat : b.lot.signedQuantity = 0
  · simp only [hflat, true_or, if_true]
    have hnil := hsame.flat hflat
    refine ⟨rfl, rfl, hsame.realized, ?_, ?_, fun _ => hnil⟩
    · simpa using hclosed
    · rw [hnil]
      rfl
  · by_cases hadds : 0 < ctx.round (b.lot.signedQuantity * delta)
    · simp only [hflat, hadds, or_true, if_true, if_false]
      have hsum : b.lot.signedQuantity + delta ≠ 0 :=
        add_ne_zero_of_mul_pos ((ctx.pos _).mp hadds)
      refine ⟨rfl, rfl, hsame.realized, ?_, hsame.current, fun h => absurd h (ctx.ne_zero hsum)⟩
      simpa using hclosed
    · simp only [hflat, hadds, or_false, if_false]
      generalize (realizedGain b.lot.signedQuantity (b.lot.averageOpenPrice.getD 0) delta price
        multiplier).run ctx.round = gain
      have hrealized : ∀ completes, ctx.round (w.realized + gain) =
          (Arith.total (g.take gain completes).all).run ctx.round := fun completes => by
        rw [Gains.all_take, Arith.run_total_concat, hsame.realized]
      have hcurrent : ctx.round (b.lot.realizedPnl + gain) =
          (Arith.total (g.current ++ [gain])).run ctx.round := by
        rw [Arith.run_total_concat, hsame.current]
      by_cases hzero : ctx.round (b.lot.signedQuantity + delta) = 0
      · simp only [hzero, if_true, true_or, decide_true]
        refine ⟨rfl, rfl, hrealized true, ?_, rfl, fun _ => rfl⟩
        simp [Gains.take, hclosed, Decimal.closedRow, closedRow, hcurrent]
      · simp only [hzero, if_false, false_or]
        by_cases hside : (0 < ctx.round (b.lot.signedQuantity + delta)) =
            (0 < b.lot.signedQuantity)
        · simp only [ne_eq, hside, not_true_eq_false, if_false, decide_false]
          refine ⟨rfl, rfl, hrealized false, ?_, hcurrent, fun h => absurd h hzero⟩
          simpa [Gains.take] using hclosed
        · simp only [ne_eq, hside, not_false_eq_true, if_true, decide_true]
          refine ⟨rfl, rfl, hrealized true, ?_, rfl, fun _ => rfl⟩
          simp [Gains.take, hclosed, Decimal.closedRow, closedRow, hcurrent]

/-- Without the clamp, the price walk applies the rows that the rebuild applies. -/
theorem run_priceWalk_eq_elim (round : ℚ → ℚ) (hquantity : r.quantity.isSome = true)
    (hlot : w.lot = b.lot.toLot) (hheld : w.hadPosition = b.hadPosition) :
    (Decimal.priceWalk multiplier false w r).run round =
      ((Decimal.appliedBy b r).run round).elim w fun e =>
        (Decimal.applyPrice multiplier w e.1 e.2).run round := by
  have hsome : r.quantity.isNone = false := by
    rw [Option.isNone_eq_false_iff]
    exact hquantity
  unfold Decimal.priceWalk Decimal.appliedBy Decimal.clampedDelta
  simp only [hsome, Bool.false_eq_true, false_and, if_false, Arith.run_bind, Arith.run_pure,
    ← hlot, ← hheld]
  generalize (Decimal.effectiveDeltaPrice r w.lot w.hadPosition).run round = e
  obtain ⟨delta, price⟩ := e
  cases price with
  | none => simp
  | some price =>
    by_cases hdelta : delta = 0
    · simp [hdelta]
    · simp [hdelta]

theorem SamePnl.step (hsame : SamePnl ctx.round g w b) (hquantity : r.quantity.isSome = true) :
    SamePnl ctx.round (gainsStep ctx.round multiplier g b r)
      ((Decimal.priceWalk multiplier false w r).run ctx.round)
      ((Decimal.rebuildStep account sid multiplier b r).run ctx.round) := by
  rw [run_priceWalk_eq_elim ctx.round hquantity hsame.lot hsame.held, Decimal.rebuildStep,
    Arith.run_bind]
  cases happ : (Decimal.appliedBy b r).run ctx.round with
  | none =>
    have hgains : gainsStep ctx.round multiplier g b r = g := by
      unfold gainsStep
      rw [happ]
    rw [hgains]
    refine ⟨hsame.lot, hsame.held, hsame.realized, ?_, hsame.current, hsame.flat⟩
    simpa using hsame.closed
  | some e => exact hsame.apply happ

/-- The price walk of the rows and their rebuild have added up the same amounts. -/
theorem samePnl_rebuild (ctx : Arith.Context ℚ) {rows : List TxnRow}
    (h : ∀ r ∈ rows, r.quantity.isSome = true) :
    SamePnl ctx.round (gainsOf ctx.round account sid multiplier rows)
      ((rows.foldlM (Decimal.priceWalk multiplier false) {}).run ctx.round)
      ((Decimal.rebuild account sid multiplier rows).run ctx.round) := by
  rw [Decimal.rebuild, Arith.run_foldlM, Arith.run_foldlM, gainsOf]
  suffices hrun : ∀ g w b, SamePnl ctx.round g w b →
      SamePnl ctx.round
        (rows.foldl (fun s r => (gainsStep ctx.round multiplier s.1 s.2 r,
          (Decimal.rebuildStep account sid multiplier s.2 r).run ctx.round)) (g, b)).1
        (rows.foldl (fun w r => (Decimal.priceWalk multiplier false w r).run ctx.round) w)
        (rows.foldl (fun b r =>
          (Decimal.rebuildStep account sid multiplier b r).run ctx.round) b) from
    hrun {} {} {} ⟨rfl, rfl, rfl, rfl, rfl, fun _ => rfl⟩
  induction rows with
  | nil => exact fun g w b hsame => hsame
  | cons r rows ih =>
    intro g w b hsame
    exact ih (fun r' hr' => h r' (List.mem_cons_of_mem _ hr')) _ _ _
      (hsame.step (h r List.mem_cons_self))

end Price

/-- What the price view realizes, computed in a context. -/
def priceView (round : ℚ → ℚ) (multiplier : Int) (rows : List TxnRow) : ℚ :=
  (Decimal.priceRealizedGross rows multiplier false).run round

/-- The closed rows of a security's rows, computed in a context. -/
def closedView (round : ℚ → ℚ) (account sid : String) (multiplier : Int)
    (existing : Option PositionRow) (rows : List TxnRow) : List ClosedPositionRow :=
  closedRows ((Decimal.replaySecurity account sid (sortOn replayKey rows) multiplier
    existing).run round).2

/-- The final lot of a security's rows, computed in a context. -/
def lotView (round : ℚ → ℚ) (account sid : String) (multiplier : Int) (rows : List TxnRow) :
    RunningLot :=
  ((Decimal.rebuild account sid multiplier (sortOn replayKey rows)).run round).lot

theorem closedView_eq (round : ℚ → ℚ) (account sid : String) (multiplier : Int)
    (existing : Option PositionRow) (rows : List TxnRow) :
    closedView round account sid multiplier existing rows =
      closedRows ((Decimal.rebuild account sid multiplier (sortOn replayKey rows)).run
        round).plan := by
  rw [closedView, Decimal.replaySecurity, Arith.run_bind, Arith.run_bind, Arith.run_pure]

/-- **The price view is the rebuild's P&L.** Over the rows of one security, dated and with
quantities, with any multiplier and in any context, the rows realize the same amounts in both
walks: what the price walk that does not clamp closes realizes is the total of all of them, and
what the closed rows of the rebuild and its open lot have realized are the totals of each
lifecycle's. So the price view is the sum over the closed rows and the open lot whenever none of
these totals is rounded. -/
theorem priceRealizedGross_eq_replay (ctx : Arith.Context ℚ) (account sid : String)
    (multiplier : Int) (existing : Option PositionRow) (rows : List TxnRow)
    (h : ∀ r ∈ rows, r.securityId = some sid ∧ r.executedAt.isSome = true ∧
      r.quantity.isSome = true) :
    let gains := gainsOf ctx.round account sid multiplier (sortOn replayKey rows)
    let closed := closedView ctx.round account sid multiplier existing rows
    let lot := lotView ctx.round account sid multiplier rows
    (priceView ctx.round multiplier rows = (Arith.total gains.all).run ctx.round ∧
      closed.map ClosedPositionRow.realizedPnl =
        (gains.closed.map fun l => some ((Arith.total l).run ctx.round)) ∧
      lot.realizedPnl = (Arith.total gains.current).run ctx.round) ∧
    ((∀ l ∈ gains.all :: gains.current :: gains.closed, Arith.Exact ctx.round (Arith.total l)) →
      priceView ctx.round multiplier rows = realizedIn closed + lot.realizedPnl) := by
  intro gains closed lot
  have hsame : SamePnl ctx.round gains
      (((sortOn replayKey rows).foldlM (Decimal.priceWalk multiplier false) {}).run ctx.round)
      ((Decimal.rebuild account sid multiplier (sortOn replayKey rows)).run ctx.round) :=
    samePnl_rebuild ctx fun r hr => (h r ((mem_sortOn _).mp hr)).2.2
  have hclosed : closed.map ClosedPositionRow.realizedPnl =
      gains.closed.map fun l => some ((Arith.total l).run ctx.round) :=
    (congrArg _ (closedView_eq ..)).trans hsame.closed
  have hprice : priceView ctx.round multiplier rows = (Arith.total gains.all).run ctx.round := by
    rw [priceView, Decimal.priceRealizedGross, Arith.run_bind, Arith.run_pure]
    exact hsame.realized
  refine ⟨⟨hprice, hclosed, hsame.current⟩, fun hexact => ?_⟩
  have hsums : realizedIn closed = (gains.closed.map List.sum).sum := by
    have hparts : gains.closed.map (fun l => some ((Arith.total l).run ctx.round)) =
        gains.closed.map fun l => some l.sum := List.map_congr_left fun l hl => by
      rw [Arith.run_total_of_exact
        (hexact l (List.mem_cons_of_mem _ (List.mem_cons_of_mem _ hl)))]
    have hread : realizedIn closed =
        ((closed.map ClosedPositionRow.realizedPnl).map fun pnl => pnl.getD 0).sum := by
      rw [realizedIn, List.map_map]
      rfl
    rw [hread, hclosed, hparts, List.map_map]
    rfl
  have hcurrent : lot.realizedPnl = gains.current.sum :=
    hsame.current.trans (Arith.run_total_of_exact
      (hexact _ (List.mem_cons_of_mem _ List.mem_cons_self)))
  rw [hprice, Arith.run_total_of_exact (hexact _ List.mem_cons_self), Gains.all, List.sum_append,
    List.sum_flatten, hsums, hcurrent]

/-- A scale-in of which a third is closed first. Its lot costs 32/3 a unit, so that both amounts
take the last digit there is, and adding them to the 500 made before rounds. -/
def TxnRow.scaledIn : List TxnRow :=
  [TxnRow.trade "a" "Buy to Open" 1 100 0 0, TxnRow.trade "b" "Sell to Close" 1 200 0 day,
    TxnRow.trade "c" "Buy to Open" 1 10 0 (2 * day),
    TxnRow.trade "d" "Buy to Open" 2 11 0 (3 * day),
    TxnRow.trade "e" "Sell to Close" 1 12 0 (4 * day),
    TxnRow.trade "f" "Sell to Close" 2 12 0 (5 * day)]

/-- The price view adds up to another decimal than the closed rows, added exactly or in the same
context: the last digit differs. -/
theorem not_priceRealizedGross_eq_replay :
    let round := defaultContext.round
    let closed := closedView round "live" "contract" 5 none TxnRow.scaledIn
    let lot := lotView round "live" "contract" 5 TxnRow.scaledIn
    (∀ r ∈ TxnRow.scaledIn, r.securityId = some "contract" ∧ r.executedAt.isSome = true ∧
      r.quantity.isSome = true) ∧
    priceView round 5 TxnRow.scaledIn ≠ realizedIn closed + lot.realizedPnl ∧
    priceView round 5 TxnRow.scaledIn ≠
      (Arith.total (closed.map fun c => c.realizedPnl.getD 0)).run round := by
  decide +kernel

/-- Two contracts bought and five sold, with the open lot half bought back: nothing is rounded. -/
theorem priceRealizedGross_eq_replay_flip :
    let round := defaultContext.round
    let rows :=
      [TxnRow.trade "a" "Buy to Open" 2 5 0 0, TxnRow.trade "b" "Sell to Close" 5 7 0 day,
        TxnRow.trade "c" "Buy to Close" 1 6 0 (2 * day)]
    priceView round 100 rows = 500 ∧
    priceView round 100 rows = realizedIn (closedView round "live" "contract" 100 none rows) +
      (lotView round "live" "contract" 100 rows).realizedPnl :=
  ⟨by decide +kernel,
    (priceRealizedGross_eq_replay defaultContext "live" "contract" 100 none _ (by decide)).2
      (by decide +kernel)⟩

end TtLedger
