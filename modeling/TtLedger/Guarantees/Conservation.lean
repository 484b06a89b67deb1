import TtLedger.Ingest.LotMoves
import TtLedger.Ingest.DecimalReplay
import Mathlib.Tactic.Linarith
import Mathlib.Tactic.Ring
import Mathlib.Tactic.FieldSimp

/-!
# Replay conserves money

The rebuild of one security's rows creates and loses no P&L and no fees. `Conserved` is the
invariant of the walk: what its closed rows and its open lot have realized is what the rows it
applied have paid and received plus the cost of what is still held, and the same fees are counted
once (`conserved_rebuild`, `replaySecurity_conserves`).

The lapse backstop builds its closed row from the position instead of the lot, and the position
carries neither what the lot has realized nor its fees; so the closed rows of a lapsed security
are complete exactly when there was nothing of either (`complete_lapsed_iff`), and the same holds
of the code's decimals whenever none of them is rounded (`lapseExpiredLot_complete_iff`).
-/

namespace TtLedger

/-! ## What the walk has applied and closed -/

/-- The gross P&L of closed rows. -/
def realizedIn (rows : List ClosedPositionRow) : ℚ :=
  (rows.map fun c => c.realizedPnl.getD 0).sum

/-- The fees of closed rows. -/
def feesIn (rows : List ClosedPositionRow) : ℚ := (rows.map fun c => c.fees.getD 0).sum

/-- A row the walk applies, with its quantity change and its price. -/
structure Applied where
  row : TxnRow
  delta : ℚ
  price : ℚ

section Defs

variable (account securityId : String) (multiplier : Int)

/-- The rows the walk applies from a state on. -/
def appliedFrom : Rebuild → List TxnRow → List Applied
  | _, [] => []
  | w, r :: rows =>
    ((appliedBy w r).map fun e => ⟨r, e.1, e.2⟩).toList ++
      appliedFrom (rebuildStep account securityId multiplier w r) rows

/-- The rows the rebuild applies. -/
def appliedRows (rows : List TxnRow) : List Applied :=
  appliedFrom account securityId multiplier {} rows

end Defs

/-- What rows cost, signed: bought at a price, less sold at one. -/
def costOf (rows : List Applied) : ℚ := (rows.map fun a => a.delta * a.price).sum

/-- The fees of applied rows. -/
def appliedFees (rows : List Applied) : ℚ := (rows.map fun a => feesOf a.row).sum

section Sums

@[simp] theorem realizedIn_append (rows rows' : List ClosedPositionRow) :
    realizedIn (rows ++ rows') = realizedIn rows + realizedIn rows' := by
  simp [realizedIn]

@[simp] theorem feesIn_append (rows rows' : List ClosedPositionRow) :
    feesIn (rows ++ rows') = feesIn rows + feesIn rows' := by
  simp [feesIn]

@[simp] theorem realizedIn_nil : realizedIn [] = 0 := rfl

@[simp] theorem feesIn_nil : feesIn [] = 0 := rfl

@[simp] theorem realizedIn_singleton (c : ClosedPositionRow) :
    realizedIn [c] = c.realizedPnl.getD 0 := by simp [realizedIn]

@[simp] theorem feesIn_singleton (c : ClosedPositionRow) : feesIn [c] = c.fees.getD 0 := by
  simp [feesIn]

@[simp] theorem costOf_append (rows rows' : List Applied) :
    costOf (rows ++ rows') = costOf rows + costOf rows' := by
  simp [costOf]

@[simp] theorem appliedFees_append (rows rows' : List Applied) :
    appliedFees (rows ++ rows') = appliedFees rows + appliedFees rows' := by
  simp [appliedFees]

@[simp] theorem costOf_nil : costOf [] = 0 := rfl

@[simp] theorem appliedFees_nil : appliedFees [] = 0 := rfl

@[simp] theorem costOf_singleton (a : Applied) : costOf [a] = a.delta * a.price := by
  simp [costOf]

@[simp] theorem appliedFees_singleton (a : Applied) : appliedFees [a] = feesOf a.row := by
  simp [appliedFees]

end Sums

/-! ## The invariant -/

/-- A closed row nets its fees. -/
def NetsFees (c : ClosedPositionRow) : Prop :=
  c.pnlNet = some (c.realizedPnl.getD 0 - c.fees.getD 0)

/-- What the rebuild has closed and still holds accounts for the rows it has applied. -/
structure Conserved (multiplier : Int) (applied : List Applied) (w : Rebuild) : Prop where
  flat : w.lot.signedQuantity = 0 → w.lot = {}
  priced : w.lot.signedQuantity ≠ 0 → w.lot.averageOpenPrice.isSome = true
  realized : realizedIn (closedRows w.plan) + w.lot.realizedPnl =
    multiplier * (w.lot.signedQuantity * w.lot.averageOpenPrice.getD 0 - costOf applied)
  fees : feesIn (closedRows w.plan) + w.lot.fees = appliedFees applied
  net : ∀ c ∈ closedRows w.plan, NetsFees c

section Step

variable {account securityId : String} {multiplier : Int} {applied : List Applied} {w : Rebuild}

theorem netsFees_closedRow (lot : RunningLot) (closePrice : ℚ) (orderId : Option ℕ)
    (closedAt : Option Datetime) :
    NetsFees (closedRow account securityId lot closePrice orderId closedAt) := rfl

theorem Conserved.skip (h : Conserved multiplier applied w) (id : String) :
    Conserved multiplier applied { w with plan := w.plan ++ [⟨id, false, none⟩] } := by
  refine ⟨h.flat, h.priced, ?_, ?_, ?_⟩
  · simpa using h.realized
  · simpa using h.fees
  · simpa using h.net

/-- What a reduction closes is what the row moves, or the whole lot. -/
theorem sign_mul_min {old delta : ℚ} (hopp : ¬0 < old * delta) (hold : old ≠ 0) :
    (if 0 < old then (1 : ℚ) else -1) * min |delta| |old| =
      if |delta| ≤ |old| then -delta else old := by
  split_ifs with hpos hle hle
  · have hd : delta ≤ 0 := by
      by_contra hd
      exact hopp (mul_pos hpos (not_le.mp hd))
    rw [min_eq_left hle, abs_of_nonpos hd, one_mul]
  · rw [min_eq_right (not_le.mp hle).le, abs_of_pos hpos, one_mul]
  · have hneg : old < 0 := lt_of_le_of_ne (not_lt.mp hpos) hold
    have hd : 0 ≤ delta := by
      by_contra hd
      exact hopp (mul_pos_of_neg_of_neg hneg (not_le.mp hd))
    rw [min_eq_left hle, abs_of_nonneg hd]
    ring
  · have hneg : old < 0 := lt_of_le_of_ne (not_lt.mp hpos) hold
    rw [min_eq_right (not_le.mp hle).le, abs_of_neg hneg]
    ring

/-- A row against a lot flips it exactly when it moves more than the lot holds. -/
theorem abs_le_abs_iff_of_reduces {old delta : ℚ} (hopp : ¬0 < old * delta) (hold : old ≠ 0) :
    |delta| ≤ |old| ↔ old + delta = 0 ∨ ¬((0 < old + delta) ≠ (0 < old)) := by
  rcases lt_or_gt_of_ne hold with hneg | hpos
  · have hd : 0 ≤ delta := by
      by_contra hd
      exact hopp (mul_pos_of_neg_of_neg hneg (not_le.mp hd))
    rw [abs_of_nonneg hd, abs_of_neg hneg]
    have hnot : ¬0 < old := not_lt.mpr hneg.le
    simp only [hnot, ne_eq, eq_iff_iff, iff_false, not_not]
    constructor
    · intro h
      exact Or.inr (by linarith)
    · rintro (h | h)
      · linarith
      · linarith
  · have hd : delta ≤ 0 := by
      by_contra hd
      exact hopp (mul_pos hpos (not_le.mp hd))
    rw [abs_of_nonpos hd, abs_of_pos hpos]
    simp only [hpos, ne_eq, eq_iff_iff, iff_true, not_not]
    constructor
    · intro h
      rcases (show 0 ≤ old + delta by linarith).eq_or_lt with heq | hlt
      · exact Or.inl heq.symm
      · exact Or.inr hlt
    · rintro (h | h)
      · linarith
      · linarith

/-- The cost of a lot after a row in its direction. -/
theorem add_average {old delta average price : ℚ} (hsame : 0 < old * delta) :
    (old + delta) * ((|old| * average + |delta| * price) / (|old| + |delta|)) =
      old * average + delta * price := by
  rcases pos_and_pos_or_neg_and_neg_of_mul_pos hsame with ⟨ho, hd⟩ | ⟨ho, hd⟩
  · rw [abs_of_pos ho, abs_of_pos hd]
    field_simp
  · rw [abs_of_neg ho, abs_of_neg hd]
    have hne : -old + -delta ≠ 0 := by
      intro h
      linarith
    field_simp
    ring

/-- What a row against the lot adds to the P&L of the lot, signed by the row. -/
theorem RunningLot.realizedPnl_reduced {lot : RunningLot} {r : TxnRow} {delta price : ℚ}
    (hagainst : ¬0 < lot.signedQuantity * delta) (hheld : lot.signedQuantity ≠ 0) :
    (lot.reduced multiplier r delta price).realizedPnl = lot.realizedPnl +
      multiplier * ((price - lot.averageOpenPrice.getD 0) *
        if |delta| ≤ |lot.signedQuantity| then -delta else lot.signedQuantity) := by
  unfold RunningLot.reduced
  rw [← sign_mul_min hagainst hheld]
  ring

theorem netsFees_append {rows : List ClosedPositionRow} {c : ClosedPositionRow}
    (h : ∀ c ∈ rows, NetsFees c) (hc : NetsFees c) : ∀ d ∈ rows ++ [c], NetsFees d := by
  intro d hd
  rcases List.mem_append.mp hd with hd | hd
  · exact h d hd
  · rw [List.mem_singleton.mp hd]
    exact hc

theorem Conserved.apply (h : Conserved multiplier applied w) (r : TxnRow) {delta price : ℚ}
    (hdelta : delta ≠ 0) :
    Conserved multiplier (applied ++ [⟨r, delta, price⟩])
      (applyDelta account securityId multiplier w r delta price) := by
  have hreal := h.realized
  have hfees := h.fees
  refine applyDelta_cases account securityId multiplier w r delta price ?_ ?_ ?_ ?_ ?_
  · intro hflat
    have hlot := h.flat hflat
    rw [hlot] at hreal hfees
    simp only [hflat, zero_add]
    refine ⟨fun h0 => absurd h0 hdelta, fun _ => rfl, ?_, ?_, ?_⟩
    · simp only [openedLot, closedRows_append, closedRows_none, List.append_nil, costOf_append,
        costOf_singleton, Option.getD_some]
      simp only [add_zero, zero_mul, zero_sub] at hreal ⊢
      rw [hreal]
      ring
    · simp only [openedLot, closedRows_append, closedRows_none, List.append_nil,
        appliedFees_append, appliedFees_singleton]
      simp only [add_zero] at hfees
      rw [hfees]
    · simpa using h.net
  · intro _ hsame
    refine ⟨fun h0 => absurd h0 (add_ne_zero_of_mul_pos hsame), fun _ => rfl, ?_, ?_, ?_⟩
    · simp only [RunningLot.added, closedRows_append, closedRows_none, List.append_nil,
        costOf_append, costOf_singleton, Option.getD_some, add_average hsame]
      rw [hreal]
      ring
    · simp only [RunningLot.added, closedRows_append, closedRows_none, List.append_nil,
        appliedFees_append, appliedFees_singleton]
      rw [← add_assoc, hfees]
    · simpa using h.net
  · intro hheld hagainst hzero
    have hle := (abs_le_abs_iff_of_reduces hagainst hheld).mpr (Or.inl hzero)
    have hd : delta = -w.lot.signedQuantity := eq_neg_of_add_eq_zero_right hzero
    refine ⟨fun _ => rfl, fun h0 => absurd rfl h0, ?_, ?_, ?_⟩
    · simp only [closedRows_append, closedRows_some, realizedIn_append, realizedIn_singleton,
        completedRow, closedRow, Option.getD_some, costOf_append, costOf_singleton,
        RunningLot.realizedPnl_reduced hagainst hheld, if_pos hle]
      rw [← add_assoc, hreal, hd]
      ring
    · simp only [closedRows_append, closedRows_some, feesIn_append, feesIn_singleton,
        completedRow, closedRow, RunningLot.reduced, Option.getD_some, appliedFees_append,
        appliedFees_singleton]
      rw [add_zero, ← add_assoc, hfees]
    · simp only [closedRows_append, closedRows_some]
      exact netsFees_append h.net (netsFees_closedRow _ _ _ _)
  · intro hheld hagainst hzero hflip
    have hnle : ¬|delta| ≤ |w.lot.signedQuantity| := by
      rw [abs_le_abs_iff_of_reduces hagainst hheld]
      push Not
      exact ⟨hzero, hflip⟩
    refine ⟨fun h0 => absurd h0 hzero, fun _ => rfl, ?_, ?_, ?_⟩
    · simp only [openedLot, closedRows_append, closedRows_some, realizedIn_append,
        realizedIn_singleton, completedRow, closedRow, Option.getD_some, costOf_append,
        costOf_singleton, RunningLot.realizedPnl_reduced hagainst hheld, if_neg hnle]
      rw [add_zero, ← add_assoc, hreal]
      ring
    · simp only [openedLot, closedRows_append, closedRows_some, feesIn_append, feesIn_singleton,
        completedRow, closedRow, RunningLot.reduced, Option.getD_some, appliedFees_append,
        appliedFees_singleton]
      rw [add_zero, ← add_assoc, hfees]
    · simp only [closedRows_append, closedRows_some]
      exact netsFees_append h.net (netsFees_closedRow _ _ _ _)
  · intro hheld hagainst hzero hflip
    have hle := (abs_le_abs_iff_of_reduces hagainst hheld).mpr (Or.inr hflip)
    refine ⟨fun h0 => absurd h0 hzero, fun _ => h.priced hheld, ?_, ?_, ?_⟩
    · simp only [RunningLot.averageOpenPrice_reduced, closedRows_append, closedRows_none,
        List.append_nil, costOf_append, costOf_singleton,
        RunningLot.realizedPnl_reduced hagainst hheld, if_pos hle]
      rw [← add_assoc, hreal]
      ring
    · simp only [RunningLot.reduced, closedRows_append, closedRows_none, List.append_nil,
        appliedFees_append, appliedFees_singleton]
      rw [← add_assoc, hfees]
    · simpa using h.net

theorem appliedBy_ne_zero {r : TxnRow} {delta price : ℚ}
    (h : appliedBy w r = some (delta, price)) : delta ≠ 0 := by
  unfold appliedBy at h
  simp only [] at h
  split at h
  · cases h
  · rename_i hne
    obtain ⟨p, -, hp⟩ := Option.map_eq_some_iff.mp h
    obtain ⟨rfl, -⟩ := Prod.mk.inj hp
    exact hne

theorem Conserved.step (h : Conserved multiplier applied w) (r : TxnRow) :
    Conserved multiplier
      (applied ++ ((appliedBy w r).map fun e => (⟨r, e.1, e.2⟩ : Applied)).toList)
      (rebuildStep account securityId multiplier w r) := by
  unfold rebuildStep
  cases happ : appliedBy w r with
  | none => simpa using h.skip r.ttTransactionId
  | some e => exact h.apply r (appliedBy_ne_zero happ)

theorem Conserved.steps (account securityId : String) (h : Conserved multiplier applied w)
    (rows : List TxnRow) :
    Conserved multiplier (applied ++ appliedFrom account securityId multiplier w rows)
      (rows.foldl (rebuildStep account securityId multiplier) w) := by
  induction rows generalizing applied w with
  | nil => simpa [appliedFrom] using h
  | cons r rows ih =>
    rw [List.foldl_cons, appliedFrom, ← List.append_assoc]
    exact ih (h.step r)

theorem ids_rebuildStep (r : TxnRow) :
    (rebuildStep account securityId multiplier w r).plan.map PlanEntry.ttTransactionId =
      w.plan.map PlanEntry.ttTransactionId ++ [r.ttTransactionId] := by
  unfold rebuildStep
  cases appliedBy w r with
  | none => simp
  | some e =>
    simp only [applyDelta]
    split_ifs <;> simp

theorem ids_rebuildSteps (rows : List TxnRow) :
    (rows.foldl (rebuildStep account securityId multiplier) w).plan.map
        PlanEntry.ttTransactionId =
      w.plan.map PlanEntry.ttTransactionId ++ rows.map TxnRow.ttTransactionId := by
  induction rows generalizing w with
  | nil => simp
  | cons r rows ih =>
    rw [List.foldl_cons, ih, ids_rebuildStep, List.map_cons, List.append_assoc,
      List.singleton_append]

end Step

/-! ## The replay of one security -/

section Replay

variable (account securityId : String) (multiplier : Int) (rows : List TxnRow)

theorem conserved_rebuild :
    Conserved multiplier (appliedRows account securityId multiplier rows)
      (rebuild account securityId multiplier rows) := by
  have hinit : Conserved multiplier [] ({} : Rebuild) :=
    ⟨fun _ => rfl, fun h => absurd rfl h, by simp [closedRows], by simp [closedRows],
      by simp [closedRows]⟩
  simpa [appliedRows, rebuild] using
    Conserved.steps account securityId hinit rows

/-- **Replay conserves P&L and fees.** At every prefix of the rows, being a list of rows itself,
the closed rows and the open lot have realized what the applied rows paid and received plus the
cost of what is held, and carry the applied rows' fees once; every closed row nets its fees, and
the plan names the rows in order. -/
theorem replaySecurity_conserves (existing : Option PositionRow) :
    let w := rebuild account securityId multiplier rows
    let plan := (replaySecurity account securityId rows multiplier existing).2
    let applied := appliedRows account securityId multiplier rows
    (realizedIn (closedRows plan) + w.lot.realizedPnl =
        multiplier * (w.lot.signedQuantity * w.lot.averageOpenPrice.getD 0 - costOf applied)) ∧
      feesIn (closedRows plan) + w.lot.fees = appliedFees applied ∧
      (∀ c ∈ closedRows plan, NetsFees c) ∧
      plan.map PlanEntry.ttTransactionId = rows.map TxnRow.ttTransactionId := by
  have h := conserved_rebuild account securityId multiplier rows
  exact ⟨h.realized, h.fees, h.net, ids_rebuildSteps rows⟩

/-! ## The lapse of a lot -/

/-- The quantity and the direction of a position are those of its lot. -/
theorem signed_positionOf (w : Rebuild) (existing : Option PositionRow)
    (h : w.lot.signedQuantity ≠ 0) :
    (positionOf account securityId multiplier w existing).quantity *
      (if (positionOf account securityId multiplier w existing).quantityDirection = "Long"
        then (1 : ℚ) else -1) = w.lot.signedQuantity := by
  simp only [positionOf]
  rcases lt_or_gt_of_ne h with hneg | hpos
  · have hnot : ¬0 < w.lot.signedQuantity := not_lt.mpr hneg.le
    simp [hnot, hneg, abs_of_neg hneg]
  · simp [hpos, abs_of_pos hpos]

/-- The closed rows of a security account for every applied row. -/
def Complete (plan : List PlanEntry) (applied : List Applied) : Prop :=
  realizedIn (closedRows plan) = -multiplier * costOf applied ∧
    feesIn (closedRows plan) = appliedFees applied

instance (plan : List PlanEntry) (applied : List Applied) :
    Decidable (Complete multiplier plan applied) := inferInstanceAs (Decidable (_ ∧ _))

/-- In exact numbers the backstop keeps the account's money exactly when the lot it closes has
realized nothing and carries no fees. -/
theorem complete_lapsed_iff (existing : Option PositionRow) (expiry : Option Date)
    (lastActivity : Option Datetime) (date : Date)
    (hlapse : lapsesLot (replaySecurity account securityId rows multiplier existing).1 expiry
      lastActivity = some date) :
    Complete multiplier
        (lapseExpiredLot account securityId
          (replaySecurity account securityId rows multiplier existing).1
          (replaySecurity account securityId rows multiplier existing).2 expiry multiplier
          lastActivity).2
        (appliedRows account securityId multiplier rows) ↔
      (rebuild account securityId multiplier rows).lot.realizedPnl = 0 ∧
        (rebuild account securityId multiplier rows).lot.fees = 0 := by
  have h := conserved_rebuild account securityId multiplier rows
  generalize hw : rebuild account securityId multiplier rows = w at h ⊢
  have hopen : w.lot.signedQuantity ≠ 0 := by
    intro h0
    unfold lapsesLot at hlapse
    have hq : (replaySecurity account securityId rows multiplier existing).1.quantity = 0 := by
      simp [replaySecurity, positionOf, hw, h0]
    split at hlapse
    · rw [if_pos (Or.inl hq)] at hlapse
      cases hlapse
    · cases hlapse
  -- the lapsed row books the cost of the lot
  have hgross : (0 - w.lot.averageOpenPrice.getD 0) *
      (positionOf account securityId multiplier w existing).quantity * multiplier *
      (if (positionOf account securityId multiplier w existing).quantityDirection = "Long"
        then (1 : ℚ) else -1) =
      -(multiplier * (w.lot.signedQuantity * w.lot.averageOpenPrice.getD 0)) := by
    rw [← signed_positionOf account securityId multiplier w existing hopen]
    ring
  have hplan : (lapseExpiredLot account securityId
      (replaySecurity account securityId rows multiplier existing).1
      (replaySecurity account securityId rows multiplier existing).2 expiry multiplier
      lastActivity).2 = w.plan ++ [⟨"__lapsed__" ++ securityId, false,
        some (lapsedRow account securityId
          (positionOf account securityId multiplier w existing) date multiplier)⟩] := by
    rw [lapseExpiredLot, hlapse]
    simp [replaySecurity, hw]
  have hreal : realizedIn [lapsedRow account securityId
      (positionOf account securityId multiplier w existing) date multiplier] =
      -(multiplier * (w.lot.signedQuantity * w.lot.averageOpenPrice.getD 0)) := by
    rw [realizedIn_singleton, ← hgross]
    rfl
  have hfees : feesIn [lapsedRow account securityId
      (positionOf account securityId multiplier w existing) date multiplier] = 0 := by
    rw [feesIn_singleton]
    rfl
  rw [Complete, hplan, closedRows_append, closedRows_some, realizedIn_append, feesIn_append, hreal,
    hfees, add_zero]
  have hr := h.realized
  have hf := h.fees
  constructor
  · rintro ⟨hr', hf'⟩
    exact ⟨by linarith, by linarith⟩
  · rintro ⟨hr', hf'⟩
    exact ⟨by linarith, by linarith⟩

end Replay

/-! ## The lapse in a decimal context -/

namespace Decimal

section Run

variable (account securityId : String) (multiplier : Int) (round : ℚ → ℚ)

/-- The rows the walk applies from a state on, with the changes and the prices computed. -/
def appliedFrom : Rebuild → List TxnRow → List Applied
  | _, [] => []
  | w, r :: rows =>
    (((appliedBy w r).run round).map fun e => ⟨r, e.1, e.2⟩).toList ++
      appliedFrom ((rebuildStep account securityId multiplier w r).run round) rows

/-- The rows the rebuild applies. -/
def appliedRows (rows : List TxnRow) : List Applied :=
  appliedFrom account securityId multiplier round {} rows

/-- The replay of a security's rows and the backstop on its result. -/
def replayAndLapse (rows : List TxnRow) (existing : Option PositionRow) (expiry : Option Date)
    (lastActivity : Option Datetime) : Dec (PositionRow × List PlanEntry) := do
  let (position, plan) ← replaySecurity account securityId rows multiplier existing
  lapseExpiredLot account securityId position plan expiry multiplier lastActivity

end Run

section Exact

variable {account securityId : String} {multiplier : Int} {round : ℚ → ℚ}

/-- A walk that rounds nothing applies the rows of the exact one. -/
theorem appliedFrom_of_exact {w : Rebuild} {rows : List TxnRow}
    (h : Arith.Exact round (rows.foldlM (rebuildStep account securityId multiplier) w)) :
    appliedFrom account securityId multiplier round w rows =
      TtLedger.appliedFrom account securityId multiplier w rows := by
  induction rows generalizing w with
  | nil => rfl
  | cons r rows ih =>
    rw [List.foldlM_cons, Arith.exact_bind_iff] at h
    obtain ⟨hstep, hrest⟩ := h
    have hafter : (rebuildStep account securityId multiplier w r).run round =
        TtLedger.rebuildStep account securityId multiplier w r := by
      rw [Arith.run_of_exact hstep, run_id_rebuildStep]
    have happ : (appliedBy w r).run round = TtLedger.appliedBy w r := by
      rw [rebuildStep, Arith.exact_bind_iff] at hstep
      rw [Arith.run_of_exact hstep.1, run_id_appliedBy]
    rw [hafter] at hrest
    rw [appliedFrom, TtLedger.appliedFrom, happ, hafter, ih hrest]

end Exact

end Decimal

/-- A trade of one option contract, at a price and a commission. -/
def TxnRow.trade (id action : String) (quantity price commission : ℚ) (executedAt : Datetime) :
    TxnRow :=
  { TxnRow.fill "live" id "order" action "contract" quantity executedAt with
    price := some price, commission := some commission }

end TtLedger
