import TtLedger.Foundations.Relational
import TtLedger.Ingest.Replay
import TtLedger.Ingest.Runs
import TtLedger.Ingest.WalkLaws
import Mathlib.Data.List.Induction

/-!
# The price walk and the group's net

The P&L of a futures group is booked by a price walk over lots, its status by the walk of its net.
On the rows of one future the two take each row alike but for three kinds (`Diverges`): an opening
row that crosses the position it meets, a closing row on the side of the position, and a closing
row that meets a flat lot after something was opened. Up to the first of them the lot is the net
(`lot_eq_walkNet_iff`), and a group that closes then has booked every contract it opened
(`bookedAlong_add`).
-/

namespace TtLedger

open PositionMove (takeFrom)

/-! ## Rows of one future -/

/-- Member rows of one future, each with a price, a positive quantity and an instant of its own,
that open, close, trade without intent or settle. -/
structure FuturesRows (sid : String) (rows : List TxnRow) : Prop where
  security : ∀ r ∈ rows, r.securityId = some sid
  named : truthy (some sid) = true
  priced : ∀ r ∈ rows, r.price.isSome
  sized : ∀ r ∈ rows, ∃ quantity, r.quantity = some quantity ∧ 0 < quantity
  dated : ∀ r ∈ rows, r.executedAt.isSome
  distinct : (rows.map TxnRow.executedAt).Nodup
  traded : ∀ r ∈ rows, r.isMoneyMovement = false
  kind : ∀ r ∈ rows, (isOpeningAction r.action || isClosingAction r.action ||
    isBareAction r.action || r.isNontradeClose) = true

/-- A row on which the lot and the net part, given the net it meets and whether something was
opened before it. -/
def Diverges (net : ℚ) (opened : Bool) (r : TxnRow) : Prop :=
  r.isNontradeClose = false ∧
    (isOpeningAction r.action = true ∧ net * r.actionDelta < 0 ∧ |net| < r.absQuantity ∨
      isClosingAction r.action = true ∧ (0 < net * r.actionDelta ∨ net = 0 ∧ opened = true))

/-! ## One row -/

section Step

variable {r : TxnRow}

/-- The lot after a row of the clamped walk. -/
def lotStep (held : ℚ) (hadPosition : Bool) (r : TxnRow) : ℚ :=
  if r.isNontradeClose then takeFrom held r.absQuantity
  else if held = 0 && !hadPosition && r.endsToClose then held
  else BookMove.apply held (.offset r.actionDelta)

/-- A row's change, capped at the lot it closes. -/
def cappedDelta (held delta : ℚ) : ℚ :=
  if delta ≠ 0 ∧ held ≠ 0 ∧ held * delta < 0 then
    if 0 < delta then min |delta| |held| else -min |delta| |held|
  else delta

theorem add_cappedDelta (held delta : ℚ) :
    held + cappedDelta held delta = BookMove.apply held (.offset delta) := by
  unfold cappedDelta
  rw [BookMove.apply]
  by_cases hopp : held * delta < 0
  · have hdelta : delta ≠ 0 := by
      rintro rfl
      simp at hopp
    have hheld : held ≠ 0 := by
      rintro rfl
      simp at hopp
    rw [if_pos ⟨hdelta, hheld, hopp⟩, if_pos hopp, takeFrom]
    rcases lt_or_gt_of_ne hheld with hneg | hpos
    · have hdpos : 0 < delta := pos_of_mul_neg_right hopp hneg.le
      rw [if_pos hdpos, if_neg hneg.not_gt]
    · have hdneg : delta < 0 := neg_of_mul_neg_right hopp hpos.le
      rw [if_neg hdneg.not_gt, if_pos hpos, sub_eq_add_neg]
  · rw [if_neg (fun h => hopp h.2.2), if_neg hopp]

theorem signedDelta_eq_actionDelta {quantity : ℚ} (hq : r.quantity = some quantity)
    (hpos : 0 < quantity) : r.signedDelta = r.actionDelta := by
  have habs : |quantity| = quantity := abs_of_pos hpos
  simp [TxnRow.signedDelta, TxnRow.actionDelta, TxnRow.absQuantity, hq, habs]

/-- What a row realizes on each contract it closes of a lot. -/
def gainOn (lot : Lot) (price : ℚ) : ℚ :=
  (price - lot.averageOpenPrice.getD 0) * if 0 < lot.signedQuantity then 1 else -1

/-- The contracts that a step of the lot closes. -/
def closedBy (held after : ℚ) : ℚ :=
  if held * (after - held) < 0 then min |after - held| |held| else 0

/-- A row without an effective price is passed over. -/
theorem priceWalk_of_unpriced {multiplier : Int} {w : PriceWalk} {delta : ℚ}
    (heffective : effectiveDeltaPrice r w.lot w.hadPosition = (delta, none)) :
    priceWalk multiplier true w r = w := by
  unfold priceWalk
  split
  · rfl
  · simp only [heffective]

/-- **A row with a price** moves the lot by its capped change, and realizes its gain on the
contracts that the change closes. -/
theorem priceWalk_of_priced {multiplier : Int} {w : PriceWalk} {delta price : ℚ}
    (hq : r.quantity.isSome)
    (heffective : effectiveDeltaPrice r w.lot w.hadPosition = (delta, some price)) :
    let after := BookMove.apply w.lot.signedQuantity (.offset delta)
    (priceWalk multiplier true w r).lot.signedQuantity = after ∧
      (priceWalk multiplier true w r).hadPosition =
        (w.hadPosition || decide (after ≠ w.lot.signedQuantity)) ∧
      (priceWalk multiplier true w r).realized = w.realized +
        closedBy w.lot.signedQuantity after * gainOn w.lot price * multiplier := by
  intro after
  have hafter : w.lot.signedQuantity + cappedDelta w.lot.signedQuantity delta = after :=
    add_cappedDelta _ _
  unfold priceWalk
  rw [if_neg (by simpa using Option.isSome_iff_ne_none.mp hq)]
  simp only [heffective, Bool.true_and, Bool.and_eq_true, decide_eq_true_eq, and_assoc]
  rw [← cappedDelta]
  generalize cappedDelta w.lot.signedQuantity delta = change at hafter
  rw [← hafter]
  have hclosed : closedBy w.lot.signedQuantity (w.lot.signedQuantity + change) =
      if w.lot.signedQuantity * change < 0 then min |change| |w.lot.signedQuantity| else 0 := by
    rw [closedBy, add_sub_cancel_left]
  rw [hclosed]
  by_cases hzero : change = 0
  · simp [hzero]
  · have hmoves : (w.hadPosition || decide (w.lot.signedQuantity + change ≠ w.lot.signedQuantity)) =
        true := by simp [hzero]
    rw [if_neg hzero, hmoves]
    by_cases hflat : w.lot.signedQuantity = 0
    · simp [hflat]
    · by_cases hsame : 0 < w.lot.signedQuantity * change
      · simp [hflat, hsame, hsame.not_gt]
      · have hopp : w.lot.signedQuantity * change < 0 :=
          lt_of_le_of_ne (not_lt.mp hsame) (mul_ne_zero hflat hzero)
        have hgain : w.realized + (price - w.lot.averageOpenPrice.getD 0) *
              min |change| |w.lot.signedQuantity| * multiplier *
              (if 0 < w.lot.signedQuantity then 1 else -1) =
            w.realized + min |change| |w.lot.signedQuantity| * gainOn w.lot price * multiplier := by
          rw [gainOn]
          ring
        rw [if_neg hflat, if_neg hsame, if_pos hopp, hgain]
        by_cases hdone : w.lot.signedQuantity + change = 0
        · simp [hdone]
        · rw [if_neg hdone]
          split <;> exact ⟨rfl, rfl, rfl⟩

/-- A settlement, as the price walk writes it. -/
theorem offset_settlement {held quantity : ℚ} (hheld : held ≠ 0) (hq : 0 < quantity) :
    BookMove.apply held (.offset
      (if 0 < held then -min quantity |held| else min quantity |held|)) =
      takeFrom held quantity := by
  have hmin : 0 < min quantity |held| := lt_min hq (abs_pos.mpr hheld)
  rw [BookMove.apply]
  rcases lt_or_gt_of_ne hheld with hneg | hpos
  · rw [if_neg hneg.not_gt, if_pos (mul_neg_of_neg_of_pos hneg hmin), abs_of_pos hmin, takeFrom,
      takeFrom, min_assoc, min_self]
  · rw [if_pos hpos, if_pos (mul_neg_of_pos_of_neg hpos (neg_neg_of_pos hmin)), abs_neg,
      abs_of_pos hmin, takeFrom, takeFrom, min_assoc, min_self]

/-- **A row of the price walk** steps the lot, and notes whether it moved it. -/
theorem priceWalk_eq_lotStep {multiplier : Int} {w : PriceWalk} {quantity : ℚ}
    (hq : r.quantity = some quantity) (hpos : 0 < quantity) (hprice : r.price.isSome)
    (hmoney : r.isMoneyMovement = false) :
    (priceWalk multiplier true w r).lot.signedQuantity =
        lotStep w.lot.signedQuantity w.hadPosition r ∧
      (priceWalk multiplier true w r).hadPosition = (w.hadPosition ||
        decide (lotStep w.lot.signedQuantity w.hadPosition r ≠ w.lot.signedQuantity)) := by
  obtain ⟨price, hprice⟩ := Option.isSome_iff_exists.mp hprice
  have hsome : r.quantity.isSome := by rw [hq]; rfl
  unfold lotStep
  cases hnon : r.isNontradeClose with
  | true =>
    simp only [if_true]
    by_cases hflat : w.lot.signedQuantity = 0
    · have heffective : effectiveDeltaPrice r w.lot w.hadPosition = (0, none) := by
        simp [effectiveDeltaPrice, hmoney, hnon, hflat]
      rw [priceWalk_of_unpriced heffective, hflat, takeFrom_zero_left (absQuantity_nonneg r)]
      simp
    · have heffective : effectiveDeltaPrice r w.lot w.hadPosition =
          (if 0 < w.lot.signedQuantity then -min r.absQuantity |w.lot.signedQuantity|
            else min r.absQuantity |w.lot.signedQuantity|, some price) := by
        simp [effectiveDeltaPrice, hmoney, hnon, hflat, hprice]
      rw [← offset_settlement hflat (by rw [TxnRow.absQuantity, hq]; exact abs_pos.mpr hpos.ne')]
      exact (priceWalk_of_priced hsome heffective).imp_right And.left
  | false =>
    simp only [Bool.false_eq_true, if_false]
    split
    · rename_i hskip
      obtain ⟨hskip, hends⟩ := Bool.and_eq_true_iff.mp hskip
      obtain ⟨hflat, hhad⟩ := Bool.and_eq_true_iff.mp hskip
      have heffective : effectiveDeltaPrice r w.lot w.hadPosition = (0, none) := by
        simp [effectiveDeltaPrice, hmoney, hnon, of_decide_eq_true hflat, hends,
          (Bool.not_eq_true' _).mp hhad]
      rw [priceWalk_of_unpriced heffective]
      simp
    · rename_i hskip
      have heffective : effectiveDeltaPrice r w.lot w.hadPosition =
          (r.signedDelta, some price) := by
        unfold effectiveDeltaPrice
        rw [if_neg (by simp [hmoney]), if_neg (by simp [hnon]), if_neg hskip, hprice]
      rw [← signedDelta_eq_actionDelta hq hpos]
      exact (priceWalk_of_priced hsome heffective).imp_right And.left

/-! ## One row of each walk -/

theorem endsToClose_of_opening (h : isOpeningAction r.action) : r.endsToClose = false := by
  unfold TxnRow.endsToClose
  rcases isOpeningAction_eq_true.mp h with ha | ha <;> rw [ha] <;> decide +kernel

theorem endsToClose_of_closing (h : isClosingAction r.action) : r.endsToClose = true := by
  unfold TxnRow.endsToClose
  rcases isClosingAction_eq_true.mp h with ha | ha <;> rw [ha] <;> decide +kernel

theorem endsToClose_of_bare (h : isBareAction r.action) : r.endsToClose = false := by
  unfold TxnRow.endsToClose
  rcases isBareAction_eq_true.mp h with ha | ha <;> rw [ha] <;> decide +kernel

/-- A row of the domain, by what it does: it settles, opens, closes or trades without intent. -/
theorem row_cases (hmoney : r.isMoneyMovement = false)
    (hkind : (isOpeningAction r.action || isClosingAction r.action || isBareAction r.action ||
      r.isNontradeClose) = true) :
    r.isNontradeClose = true ∧ r.move = .take r.absQuantity ∧ r.enters = false ∨
      r.isNontradeClose = false ∧
        (isOpeningAction r.action = true ∧ isClosingAction r.action = false ∧
            r.endsToClose = false ∧ r.move = .add r.actionDelta ∧ r.enters = true ∨
          isOpeningAction r.action = false ∧ isClosingAction r.action = true ∧
            r.endsToClose = true ∧ r.move = .take r.absQuantity ∧ r.enters = false ∨
          isOpeningAction r.action = false ∧ isClosingAction r.action = false ∧
            r.endsToClose = false ∧ r.move = .offset r.actionDelta ∧ r.enters = true) := by
  cases hnon : r.isNontradeClose with
  | true => exact Or.inl ⟨rfl, by simp [TxnRow.move, hmoney, hnon], by simp [TxnRow.enters, hnon]⟩
  | false =>
    refine Or.inr ⟨rfl, ?_⟩
    by_cases hopen : isOpeningAction r.action = true
    · have hends := endsToClose_of_opening hopen
      refine Or.inl ⟨hopen, ?_⟩
      rcases isOpeningAction_eq_true.mp hopen with ha | ha <;>
        simp [TxnRow.move, TxnRow.enters, hmoney, hnon, ha, hends, isClosingAction, isBareAction,
          truthy]
    · have hopen := Bool.eq_false_iff.mpr hopen
      by_cases hclose : isClosingAction r.action = true
      · exact Or.inr (Or.inl ⟨hopen, hclose, endsToClose_of_closing hclose,
          by simp [TxnRow.move, hmoney, hnon, hclose, truthy_of_closing hclose],
          by simp [TxnRow.enters, hclose]⟩)
      · have hclose := Bool.eq_false_iff.mpr hclose
        have hbare : isBareAction r.action = true := by simpa [hopen, hclose, hnon] using hkind
        exact Or.inr (Or.inr ⟨hopen, hclose, endsToClose_of_bare hbare,
          by simp [TxnRow.move, hmoney, hnon, hclose, hbare, truthy_of_bare hbare],
          by simp [TxnRow.enters, hmoney, hnon, hclose, truthy_of_bare hbare]⟩)

/-- An opening row on the other side crosses a position exactly when it is larger. -/
theorem takeFrom_eq_add_iff {net delta : ℚ} (h : net * delta < 0) :
    takeFrom net |delta| = net + delta ↔ ¬ |net| < |delta| := by
  rcases lt_trichotomy net 0 with hn | rfl | hn
  · have hd : 0 < delta := pos_of_mul_neg_right h hn.le
    rw [BookMove.takeFrom_of_nonpos hn.le, abs_of_pos hd, abs_of_neg hn, min_eq_left_iff]
    constructor <;> intro <;> linarith
  · simp at h
  · have hd : delta < 0 := neg_of_mul_neg_right h hn.le
    rw [BookMove.takeFrom_of_pos hn, abs_of_neg hd, abs_of_pos hn, sub_neg_eq_add,
      max_eq_left_iff]
    constructor <;> intro <;> linarith

/-- A close does not add to a position. -/
theorem add_ne_takeFrom {net delta : ℚ} (h : 0 < net * delta) :
    net + delta ≠ takeFrom net |delta| := by
  intro heq
  have hsize := congrArg abs heq
  have hcross := PositionMove.abs_add_eq net delta
  rw [PositionMove.crossing, if_neg h.not_gt] at hcross
  rw [abs_takeFrom_eq_max (abs_nonneg _), hcross] at hsize
  have hnet : 0 < |net| := abs_pos.mpr (left_ne_zero_of_mul h.ne')
  have hdelta : 0 < |delta| := abs_pos.mpr (right_ne_zero_of_mul h.ne')
  rcases max_choice (|net| - |delta|) 0 with hmax | hmax <;> rw [hmax] at hsize <;> linarith

/-- The lot steps as the net does unless the row parts them. -/
theorem lotStep_eq_iff (hmoney : r.isMoneyMovement = false)
    (hkind : (isOpeningAction r.action || isClosingAction r.action || isBareAction r.action ||
      r.isNontradeClose) = true) (hsize : 0 < r.absQuantity) (net : ℚ) (opened : Bool) :
    lotStep net opened r = r.move.apply net ↔ ¬ Diverges net opened r := by
  have habs := abs_actionDelta r
  have hdelta : r.actionDelta ≠ 0 := abs_pos.mp (habs ▸ hsize)
  unfold lotStep Diverges
  rcases row_cases hmoney hkind with ⟨hnon, hmove, -⟩ | ⟨hnon, ⟨hopen, hclose, hends, hmove, -⟩ |
    ⟨hopen, hclose, hends, hmove, -⟩ | ⟨hopen, hclose, hends, hmove, -⟩⟩
  · simp [hnon, hmove, BookMove.apply]
  · -- an opening row: the lot clamps what the net crosses
    simp only [hnon, hmove, hends, hopen, hclose, BookMove.apply, Bool.and_false,
      Bool.false_eq_true, if_false, true_and, false_and, or_false]
    by_cases hopp : net * r.actionDelta < 0
    · rw [if_pos hopp, takeFrom_eq_add_iff hopp, habs]
      simp [hopp]
    · simp [hopp]
  · -- a closing row: the lot looks at the side, the net at the label
    simp only [hnon, hmove, hends, hopen, hclose, BookMove.apply, Bool.and_true,
      Bool.false_eq_true, if_false, true_and, false_and, false_or]
    by_cases hflat : net = 0
    · cases opened <;> simp [hflat, hdelta, hsize.le]
    · rw [if_neg (by simp [hflat])]
      by_cases hopp : net * r.actionDelta < 0
      · simp [hopp, hopp.not_gt, habs, hflat]
      · have hsame : 0 < net * r.actionDelta :=
          lt_of_le_of_ne (not_lt.mp hopp) (mul_ne_zero hflat hdelta).symm
        have hne := add_ne_takeFrom hsame
        rw [habs] at hne
        simp [hopp, hsame, hne]
  · simp [hnon, hmove, hends, hopen, hclose, BookMove.apply]

/-- From a flat lot that was never opened, a row moves the lot exactly when it opens something. -/
theorem lotStep_zero_ne_iff (hmoney : r.isMoneyMovement = false)
    (hkind : (isOpeningAction r.action || isClosingAction r.action || isBareAction r.action ||
      r.isNontradeClose) = true) (hsize : 0 < r.absQuantity) :
    decide (lotStep 0 false r ≠ 0) = r.enters := by
  have hdelta : r.actionDelta ≠ 0 := abs_pos.mp (abs_actionDelta r ▸ hsize)
  unfold lotStep
  rcases row_cases hmoney hkind with ⟨hnon, -, henters⟩ | ⟨hnon, ⟨-, -, hends, -, henters⟩ |
    ⟨-, -, hends, -, henters⟩ | ⟨-, -, hends, -, henters⟩⟩
  · simp [hnon, henters, hsize.le]
  · simp [hnon, henters, hends, BookMove.apply, hdelta]
  · simp [hnon, henters, hends]
  · simp [hnon, henters, hends, BookMove.apply, hdelta]

end Step

/-! ## The two walks -/

section Walks

variable {sid : String} {rows : List TxnRow} {multiplier : Int}

/-- The price walk over rows in order. -/
def walkPrice (multiplier : Int) (rows : List TxnRow) : PriceWalk :=
  rows.foldl (priceWalk multiplier true) {}

theorem walkPrice_concat (rows : List TxnRow) (r : TxnRow) :
    walkPrice multiplier (rows ++ [r]) =
      priceWalk multiplier true (walkPrice multiplier rows) r := by
  rw [walkPrice, List.foldl_append]
  rfl

/-- The lot is the net, and it was held exactly when something was opened. -/
structure Locked (multiplier : Int) (rows : List TxnRow) : Prop where
  lot : (walkPrice multiplier rows).lot.signedQuantity = walkNet 0 rows
  had : (walkPrice multiplier rows).hadPosition = rows.any TxnRow.enters

theorem FuturesRows.absQuantity_pos (h : FuturesRows sid rows) {r : TxnRow} (hr : r ∈ rows) :
    0 < r.absQuantity := by
  obtain ⟨quantity, hq, hpos⟩ := h.sized r hr
  rw [TxnRow.absQuantity, hq]
  exact abs_pos.mpr hpos.ne'

/-- **One row**: the lot follows the net over a row unless the row parts them. -/
theorem Locked.step_iff (h : FuturesRows sid rows) {pre : List TxnRow} {r : TxnRow}
    (hr : r ∈ rows) (hlocked : Locked multiplier pre) :
    (walkPrice multiplier (pre ++ [r])).lot.signedQuantity = walkNet 0 (pre ++ [r]) ↔
      ¬ Diverges (walkNet 0 pre) (pre.any TxnRow.enters) r := by
  obtain ⟨quantity, hq, hpos⟩ := h.sized r hr
  rw [walkPrice_concat, (priceWalk_eq_lotStep hq hpos (h.priced r hr) (h.traded r hr)).1,
    hlocked.lot, hlocked.had, walkNet_append, walkNet_cons, walkNet_nil]
  exact lotStep_eq_iff (h.traded r hr) (h.kind r hr) (h.absQuantity_pos hr) _ _

theorem Locked.step (h : FuturesRows sid rows) {pre : List TxnRow} {r : TxnRow}
    (hr : r ∈ rows) (hlocked : Locked multiplier pre)
    (hlot : (walkPrice multiplier (pre ++ [r])).lot.signedQuantity = walkNet 0 (pre ++ [r])) :
    Locked multiplier (pre ++ [r]) := by
  obtain ⟨quantity, hq, hpos⟩ := h.sized r hr
  refine ⟨hlot, ?_⟩
  rw [walkPrice_concat, (priceWalk_eq_lotStep hq hpos (h.priced r hr) (h.traded r hr)).2,
    hlocked.lot, hlocked.had, List.any_append, List.any_cons, List.any_nil, Bool.or_false]
  cases hopened : pre.any TxnRow.enters with
  | true => rfl
  | false =>
    have hflat : walkNet 0 pre = 0 :=
      walkNet_zero_of_not_enters fun m hm => by simpa using List.any_eq_false.mp hopened m hm
    rw [hflat, lotStep_zero_ne_iff (h.traded r hr) (h.kind r hr) (h.absQuantity_pos hr)]

/-- **Lockstep**: the lot is the net after every prefix exactly when no row parts them. -/
theorem lot_eq_walkNet_iff (h : FuturesRows sid rows) {l : List TxnRow} (hl : ∀ r ∈ l, r ∈ rows) :
    (∀ pre, pre <+: l → (walkPrice multiplier pre).lot.signedQuantity = walkNet 0 pre) ↔
      ∀ pre r, pre ++ [r] <+: l → ¬ Diverges (walkNet 0 pre) (pre.any TxnRow.enters) r := by
  have hempty : Locked multiplier [] := ⟨rfl, rfl⟩
  have hmem : ∀ {pre : List TxnRow} {r : TxnRow}, pre ++ [r] <+: l → r ∈ rows := fun hpre =>
    hl _ (hpre.subset (List.mem_append_right _ (List.mem_singleton_self _)))
  constructor
  · intro hlot pre r hpre
    have hlocked : Locked multiplier pre := by
      have hpre' : pre <+: l := (List.prefix_append pre [r]).trans hpre
      clear hpre
      induction pre using List.reverseRecOn with
      | nil => exact hempty
      | append_singleton pre m ih =>
        exact (ih ((List.prefix_append pre [m]).trans hpre')).step h (hmem hpre')
          (hlot _ hpre')
    exact (hlocked.step_iff h (hmem hpre)).mp (hlot _ hpre)
  · intro hparts pre hpre
    have hlocked : Locked multiplier pre := by
      induction pre using List.reverseRecOn with
      | nil => exact hempty
      | append_singleton pre m ih =>
        have hpre' := ih ((List.prefix_append pre [m]).trans hpre)
        exact hpre'.step h (hmem hpre) ((hpre'.step_iff h (hmem hpre)).mpr (hparts pre m hpre))
    exact hlocked.lot

/-! ## Contracts -/

/-- The contracts the price walk books. -/
def bookedAlong (multiplier : Int) : PriceWalk → List TxnRow → ℚ
  | _, [] => 0
  | w, r :: rows =>
    let w' := priceWalk multiplier true w r
    closedBy w.lot.signedQuantity w'.lot.signedQuantity + bookedAlong multiplier w' rows

/-- The contracts the net walk opens. -/
def openedAlong : ℚ → List TxnRow → ℚ
  | _, [] => 0
  | net, r :: rows =>
    let net' := (groupNetStep net r).getD net
    max (|net'| - |net|) 0 + openedAlong net' rows

theorem closedBy_of_pos {held after : ℚ} (h₀ : 0 ≤ after) (h : after ≤ held) :
    closedBy held after = |held| - |after| := by
  rw [abs_of_nonneg h₀, abs_of_nonneg (h₀.trans h), closedBy]
  rcases h.eq_or_lt with rfl | hlt
  · simp
  · have hheld : 0 < held := h₀.trans_lt hlt
    rw [if_pos (mul_neg_of_pos_of_neg hheld (sub_neg.mpr hlt)), abs_of_neg (sub_neg.mpr hlt),
      abs_of_pos hheld, neg_sub, min_eq_left (sub_le_self held h₀)]

theorem closedBy_of_neg {held after : ℚ} (h₀ : after ≤ 0) (h : held ≤ after) :
    closedBy held after = |held| - |after| := by
  rw [abs_of_nonpos h₀, abs_of_nonpos (h.trans h₀), closedBy]
  rcases h.eq_or_lt with rfl | hlt
  · simp
  · have hheld : held < 0 := hlt.trans_le h₀
    rw [if_pos (mul_neg_of_neg_of_pos hheld (sub_pos.mpr hlt)), abs_of_pos (sub_pos.mpr hlt),
      abs_of_neg hheld, min_eq_left (by linarith)]
    ring

/-- A close books what the lot loses. -/
theorem closedBy_takeFrom (held : ℚ) {quantity : ℚ} (h : 0 ≤ quantity) :
    closedBy held (takeFrom held quantity) = |held| - |takeFrom held quantity| := by
  rcases lt_or_ge 0 held with hpos | hneg
  · rw [BookMove.takeFrom_of_pos hpos]
    exact closedBy_of_pos (le_max_right _ _) (max_le (sub_le_self held h) hpos.le)
  · rw [BookMove.takeFrom_of_nonpos hneg]
    exact closedBy_of_neg (min_le_right _ _) (le_min (le_add_of_nonneg_right h) hneg)

/-- A step of the lot opens contracts or closes some, and crosses zero with neither. -/
theorem abs_lotStep (held : ℚ) (hadPosition : Bool) (r : TxnRow) :
    |lotStep held hadPosition r| + closedBy held (lotStep held hadPosition r) =
      |held| + max (|lotStep held hadPosition r| - |held|) 0 := by
  have hclose : ∀ quantity, 0 ≤ quantity →
      |takeFrom held quantity| + closedBy held (takeFrom held quantity) =
        |held| + max (|takeFrom held quantity| - |held|) 0 := by
    intro quantity hq
    have hle : |takeFrom held quantity| ≤ |held| := by
      rw [abs_takeFrom_eq_max hq]
      exact max_le (sub_le_self _ hq) (abs_nonneg held)
    rw [closedBy_takeFrom held hq, max_eq_right (sub_nonpos.mpr hle)]
    ring
  unfold lotStep
  split
  · exact hclose _ (absQuantity_nonneg r)
  · split
    · simp [closedBy]
    · rw [BookMove.apply]
      split
      · exact hclose _ (abs_nonneg _)
      · rename_i hopp
        have hgrows := PositionMove.abs_le_abs_add hopp
        rw [closedBy, add_sub_cancel_left, if_neg hopp, max_eq_left (sub_nonneg.mpr hgrows)]
        ring

/-- **Contracts in lockstep**: while the lot is the net, what the net walk opens is what the lot
ends with and what the price walk booked. -/
theorem bookedAlong_add {l : List TxnRow} (h : FuturesRows sid rows) (hl : ∀ r ∈ l, r ∈ rows)
    (w : PriceWalk)
    (hlot : ∀ pre, pre <+: l → (pre.foldl (priceWalk multiplier true) w).lot.signedQuantity =
      walkNet w.lot.signedQuantity pre) :
    bookedAlong multiplier w l + |walkNet w.lot.signedQuantity l| =
      |w.lot.signedQuantity| + openedAlong w.lot.signedQuantity l := by
  induction l generalizing w with
  | nil => simp [bookedAlong, openedAlong]
  | cons r l ih =>
    have hr := hl r List.mem_cons_self
    obtain ⟨quantity, hq, hpos⟩ := h.sized r hr
    have hstep : (priceWalk multiplier true w r).lot.signedQuantity =
        lotStep w.lot.signedQuantity w.hadPosition r :=
      (priceWalk_eq_lotStep hq hpos (h.priced r hr) (h.traded r hr)).1
    have hnet : (priceWalk multiplier true w r).lot.signedQuantity =
        r.move.apply w.lot.signedQuantity := hlot [r] ⟨l, rfl⟩
    have htail := ih (fun m hm => hl m (List.mem_cons_of_mem _ hm))
      (priceWalk multiplier true w r) fun pre hpre => by
        have := hlot (r :: pre) (List.cons_prefix_cons.mpr ⟨rfl, hpre⟩)
        rw [List.foldl_cons, walkNet_cons, ← hnet] at this
        exact this
    have hsize := abs_lotStep w.lot.signedQuantity w.hadPosition r
    rw [← hstep] at hsize
    simp only [bookedAlong, openedAlong, getD_groupNetStep, walkNet_cons, ← hnet]
    linarith

/-! ## Prefixes in time -/

theorem FuturesRows.of_sublist {rows' : List TxnRow} (h : FuturesRows sid rows)
    (hsub : rows'.Sublist rows) : FuturesRows sid rows' where
  security := fun r hr => h.security r (hsub.subset hr)
  named := h.named
  priced := fun r hr => h.priced r (hsub.subset hr)
  sized := fun r hr => h.sized r (hsub.subset hr)
  dated := fun r hr => h.dated r (hsub.subset hr)
  distinct := h.distinct.sublist (hsub.map _)
  traded := fun r hr => h.traded r (hsub.subset hr)
  kind := fun r hr => h.kind r (hsub.subset hr)

theorem FuturesRows.of_perm {rows' : List TxnRow} (h : FuturesRows sid rows)
    (hp : rows'.Perm rows) : FuturesRows sid rows' where
  security := fun r hr => h.security r (hp.subset hr)
  named := h.named
  priced := fun r hr => h.priced r (hp.subset hr)
  sized := fun r hr => h.sized r (hp.subset hr)
  dated := fun r hr => h.dated r (hp.subset hr)
  distinct := (hp.map _).nodup_iff.mpr h.distinct
  traded := fun r hr => h.traded r (hp.subset hr)
  kind := fun r hr => h.kind r (hp.subset hr)

/-- Rows with instants of their own are in one order for both walks. -/
theorem FuturesRows.sortOn_replayKey (h : FuturesRows sid rows) :
    sortOn replayKey rows = sortOn (fun r => timeKey r.executedAt) rows := by
  refine sortOn_congr fun a ha b hb => ?_
  obtain ⟨s, hs⟩ := Option.isSome_iff_exists.mp (h.dated a ha)
  obtain ⟨t, ht⟩ := Option.isSome_iff_exists.mp (h.dated b hb)
  have htime : timeKey a.executedAt ≤ timeKey b.executedAt ↔ s ≤ t := by
    rw [hs, ht]
    exact WithTop.coe_le_coe
  rw [htime, replayKey, replayKey, hs, ht, Option.getD_some, Option.getD_some,
    Prod.Lex.toLex_le_toLex]
  by_cases hst : s = t
  · obtain rfl : a = b := List.inj_on_of_nodup_map h.distinct ha hb (by rw [hs, ht, hst])
    simp [hst]
  · simp only [hst, false_and, or_false]
    exact ⟨le_of_lt, fun hle => lt_of_le_of_ne hle hst⟩

/-- The rows of the walk of the net are the rows in time order. -/
theorem FuturesRows.rowsIn_eq_sortOn (h : FuturesRows sid rows) :
    rowsIn rows sid = sortOn (fun r => timeKey r.executedAt) rows := by
  have hall : rows.filter (fun r => r.isPosition && decide (r.sid = sid)) = rows := by
    refine List.filter_eq_self.mpr fun r hr => ?_
    obtain ⟨quantity, hq, -⟩ := h.sized r hr
    simp [TxnRow.isPosition, TxnRow.sid, h.security r hr, h.named, hq]
  rw [rowsIn_eq, hall]

/-- The lot that `price_realized_gross` is left with. -/
def lotAfter (multiplier : Int) (rows : List TxnRow) : ℚ :=
  (walkPrice multiplier (sortOn replayKey rows)).lot.signedQuantity

/-- The clamped price walk tracks the group's net in a future: after every prefix in time, and when
the group is closed it ends flat, having booked the contracts the group opened and no others. -/
structure TracksNet (sid : String) (rows : List TxnRow) (multiplier : Int) : Prop where
  prefixes : ∀ pre, pre <+: sortOn (fun r => timeKey r.executedAt) rows →
    lotAfter multiplier pre = netIn pre sid
  flat : fullyClosed rows = true → lotAfter multiplier rows = 0
  covers : fullyClosed rows = true →
    bookedAlong multiplier {} (sortOn replayKey rows) = openedAlong 0 (rowsIn rows sid)

/-- **Price walk and net**: the lot tracks the net exactly when, in time order, no opening row
crosses the position it meets, no closing row is on the side of the position, and none meets a flat
lot after something was opened. -/
theorem tracksNet_iff (h : FuturesRows sid rows) (multiplier : Int) :
    TracksNet sid rows multiplier ↔
      ∀ pre r, pre ++ [r] <+: sortOn (fun r => timeKey r.executedAt) rows →
        ¬ Diverges (netIn pre sid) (pre.any TxnRow.enters) r := by
  have hperm := perm_sortOn (fun r : TxnRow => timeKey r.executedAt) rows
  have hsorted := h.of_perm hperm
  have hordered := pairwise_sortOn (fun r : TxnRow => timeKey r.executedAt) rows
  have hpre : ∀ {pre : List TxnRow}, pre <+: sortOn (fun r => timeKey r.executedAt) rows →
      sortOn replayKey pre = pre ∧ rowsIn pre sid = pre := by
    intro pre hpre
    have hdomain := hsorted.of_sublist hpre.sublist
    have hid : sortOn (fun r : TxnRow => timeKey r.executedAt) pre = pre :=
      sortOn_of_pairwise _ (hordered.sublist hpre.sublist)
    rw [hdomain.sortOn_replayKey, hdomain.rowsIn_eq_sortOn, hid]
    exact ⟨rfl, rfl⟩
  have hnet : ∀ {pre : List TxnRow}, pre <+: sortOn (fun r => timeKey r.executedAt) rows →
      netIn pre sid = walkNet 0 pre := by
    intro pre hp
    rw [netIn_eq_walkNet, (hpre hp).2]
  have hlot : (∀ pre, pre <+: sortOn (fun r => timeKey r.executedAt) rows →
      lotAfter multiplier pre = netIn pre sid) ↔
      ∀ pre r, pre ++ [r] <+: sortOn (fun r => timeKey r.executedAt) rows →
        ¬ Diverges (netIn pre sid) (pre.any TxnRow.enters) r := by
    have hlock : (∀ pre, pre <+: sortOn (fun r => timeKey r.executedAt) rows →
        (walkPrice multiplier pre).lot.signedQuantity = walkNet 0 pre) ↔ _ :=
      lot_eq_walkNet_iff h fun r hr => hperm.subset hr
    constructor
    · intro htracks pre r hp
      rw [hnet ((List.prefix_append pre [r]).trans hp)]
      refine hlock.mp (fun pre' hp' => ?_) pre r hp
      rw [← hnet hp', ← htracks pre' hp', lotAfter, (hpre hp').1]
    · intro hparts pre hp
      rw [hnet hp, lotAfter, (hpre hp).1]
      refine hlock.mpr (fun pre' r hp' => ?_) pre hp
      rw [← hnet ((List.prefix_append pre' [r]).trans hp')]
      exact hparts pre' r hp'
  refine ⟨fun htracks => hlot.mp htracks.prefixes, fun hparts => ?_⟩
  have hprefixes := hlot.mpr hparts
  -- the group is closed: its net over the whole list is zero
  have hclosed : fullyClosed rows = true →
      walkNet 0 (sortOn (fun r => timeKey r.executedAt) rows) = 0 := by
    intro hfull
    rw [← h.rowsIn_eq_sortOn, ← netIn_eq_walkNet]
    exact netIn_of_fullyClosed hfull sid
  have hwalk : ∀ pre, pre <+: sortOn (fun r => timeKey r.executedAt) rows →
      (walkPrice multiplier pre).lot.signedQuantity = walkNet 0 pre := by
    intro pre hp
    rw [← hnet hp, ← hprefixes pre hp, lotAfter, (hpre hp).1]
  refine ⟨hprefixes, fun hfull => ?_, fun hfull => ?_⟩
  · rw [lotAfter, h.sortOn_replayKey, hwalk _ (List.prefix_refl _), hclosed hfull]
  · have hcontracts := bookedAlong_add h (fun r hr => hperm.subset hr) {} hwalk
    rw [h.sortOn_replayKey, h.rowsIn_eq_sortOn]
    simpa [hclosed hfull] using hcontracts

end Walks

/-! ## A close beyond the group -/

namespace PhantomLot

/-- A group that is long one contract, closes it, and is given a sibling's close. -/
def members : List TxnRow :=
  [{ TxnRow.fill "main" "T-1" "1001" "Buy to Open" "future:F" 1 (10 * second) with
      price := some 100 },
    { TxnRow.fill "main" "T-2" "1002" "Sell to Close" "future:F" 1 (20 * second) with
      price := some 110 },
    { TxnRow.fill "main" "T-3" "1003" "Sell to Close" "future:F" 1 (30 * second) with
      price := some 120 }]

theorem futuresRows_members : FuturesRows "future:F" members where
  security := by decide
  named := by decide
  priced := by decide
  sized := by
    simp only [members, List.forall_mem_cons]
    exact ⟨⟨1, rfl, by decide⟩, ⟨1, rfl, by decide⟩, ⟨1, rfl, by decide⟩, by simp⟩
  dated := by decide
  distinct := by decide
  traded := by decide
  kind := by decide

/-- The group is closed, and its price walk ends short one contract. -/
theorem not_tracksNet : ¬ ∀ (sid : String) (rows : List TxnRow) (multiplier : Int),
    FuturesRows sid rows → TracksNet sid rows multiplier := by
  intro h
  have hflat := (h _ _ 50 futuresRows_members).flat
  revert hflat
  decide +kernel

theorem tracksNet_members_iff : TracksNet "future:F" members 50 ↔
    ∀ pre r, pre ++ [r] <+: sortOn (fun r => timeKey r.executedAt) members →
      ¬ Diverges (netIn pre "future:F") (pre.any TxnRow.enters) r :=
  tracksNet_iff futuresRows_members 50

end PhantomLot

end TtLedger
