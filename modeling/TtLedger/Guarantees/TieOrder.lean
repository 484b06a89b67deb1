import TtLedger.Ingest.WalkLaws
import Mathlib.Data.Int.ConditionallyCompleteOrder
import Mathlib.Data.List.Permutation

/-!
# Simultaneous rows

The walk over a group's rows sorts them by time alone, so rows of one time are taken in the order
they are listed. In each security it keeps a net and a peak (`exposureStep`). The accounting of the
rows ignores the order in which they are listed if no walk over them meets two simultaneous rows of
one security that it could not have taken in the other order (`TiesSwap`). Closes can be swapped,
and so can openings in one direction (`swaps_of_closing`, `swaps_of_opening`); an opening and a
close can be only where the close takes no more than was held before both, under a peak that was
reached before (`swap_opening_closing_iff`), which decides a delivery batch
(`accounting_ignores_order`).
-/

namespace TtLedger

/-! ## One security at a time -/

/-- The effect of a row on the net and the peak of its security. -/
def exposureStep (w : Option ℚ × Option ℚ) (r : TxnRow) : Option ℚ × Option ℚ :=
  match groupNetStep (w.1.getD 0) r with
  | some stepped => (some stepped, some (max (w.2.getD 0) |stepped|))
  | none => w

/-- The net and the peak of a group in a security. -/
def exposureIn (rows : List TxnRow) (sid : String) : Option ℚ × Option ℚ :=
  (rowsIn rows sid).foldl exposureStep (none, none)

theorem exposureStep_fst (w : Option ℚ × Option ℚ) (r : TxnRow) :
    (exposureStep w r).1 = stepOption w.1 r := by
  unfold exposureStep stepOption
  cases groupNetStep (w.1.getD 0) r <;> rfl

theorem get?_peakWalk (w : Dict String ℚ × Dict String ℚ) (r : TxnRow) (sid : String) :
    ((peakWalk w r).1.get? sid, (peakWalk w r).2.get? sid) =
      if r.sid = sid then exposureStep (w.1.get? sid, w.2.get? sid) r
      else (w.1.get? sid, w.2.get? sid) := by
  unfold peakWalk
  by_cases h : r.sid = sid
  · subst h
    cases hs : groupNetStep ((w.1.get? r.sid).getD 0) r with
    | none => simp [exposureStep, hs]
    | some stepped => simp [exposureStep, hs]
  · split
    · simp only [Dict.get?_set, if_neg (Ne.symm h), if_neg h]
    · rw [if_neg h]

theorem get?_foldl_peakWalk (l : List TxnRow) (w : Dict String ℚ × Dict String ℚ) (sid : String) :
    ((l.foldl peakWalk w).1.get? sid, (l.foldl peakWalk w).2.get? sid) =
      (l.filter fun r => r.sid = sid).foldl exposureStep (w.1.get? sid, w.2.get? sid) := by
  induction l generalizing w with
  | nil => rfl
  | cons r l ih =>
    rw [List.foldl_cons, ih, get?_peakWalk]
    by_cases h : r.sid = sid <;> simp [h]

/-- A peak is that of its security's rows. -/
theorem get?_peakExposures (rows : List TxnRow) (sid : String) :
    (peakExposures rows).get? sid = (exposureIn rows sid).2 := by
  have h := get?_foldl_peakWalk (orderedPositionRows rows) (Dict.empty, Dict.empty) sid
  rw [Dict.get?_empty] at h
  exact congrArg Prod.snd h

theorem get?_netQuantities_eq_exposure (rows : List TxnRow) (sid : String) :
    (netQuantities rows).get? sid = (exposureIn rows sid).1 := by
  have hfold : ∀ (l : List TxnRow) (w : Option ℚ × Option ℚ),
      (l.foldl exposureStep w).1 = l.foldl stepOption w.1 := by
    intro l
    induction l with
    | nil => exact fun _ => rfl
    | cons r l ih =>
      intro w
      rw [List.foldl_cons, ih, exposureStep_fst, List.foldl_cons]
  rw [get?_netQuantities, exposureIn, hfold]

/-! ## The order of the rows -/

/-- Two lists of rows with the same nets, the same peaks and the same answer whether the group is
fully closed. -/
structure SameAccounting (rows rows' : List TxnRow) : Prop where
  nets : ∀ sid, (netQuantities rows).get? sid = (netQuantities rows').get? sid
  peaks : ∀ sid, (peakExposures rows).get? sid = (peakExposures rows').get? sid
  closed : fullyClosed rows = fullyClosed rows'

/-- Two rows can be taken in either order from the net and the peak of their security. -/
def Swap (w : Option ℚ × Option ℚ) (a b : TxnRow) : Prop :=
  exposureStep (exposureStep w a) b = exposureStep (exposureStep w b) a

/-- The rows that move a security, as they are listed. -/
def positionsIn (rows : List TxnRow) (sid : String) : List TxnRow :=
  rows.filter fun r => r.isPosition && r.sid = sid

/-- An order in which the walk takes the rows of a security, for some listing of the rows. -/
structure Arranges (rows : List TxnRow) (sid : String) (l : List TxnRow) : Prop where
  perm : l.Perm (positionsIn rows sid)
  sorted : l.Pairwise fun a b => timeKey a.executedAt ≤ timeKey b.executedAt

/-- Wherever a walk over the rows meets two simultaneous rows of one security in turn, it could
have taken them in the other order. -/
def TiesSwap (rows : List TxnRow) : Prop :=
  ∀ sid pre a b post, Arranges rows sid (pre ++ a :: b :: post) → a.executedAt = b.executedAt →
    Swap (pre.foldl exposureStep (none, none)) a b

section Order

variable {rows rows' : List TxnRow}

theorem sameAccounting_of_exposures (hp : rows.Perm rows')
    (h : ∀ sid, exposureIn rows sid = exposureIn rows' sid) : SameAccounting rows rows' := by
  have hnets : ∀ sid, (netQuantities rows).get? sid = (netQuantities rows').get? sid := by
    intro sid
    rw [get?_netQuantities_eq_exposure, h, get?_netQuantities_eq_exposure]
  refine ⟨hnets, fun sid => ?_, ?_⟩
  · rw [get?_peakExposures, h, get?_peakExposures]
  · rw [Bool.eq_iff_iff, fullyClosed_iff, fullyClosed_iff, openedSomething_of_perm hp]
    simp only [netIn, hnets]

theorem SameAccounting.exposures (h : SameAccounting rows rows') (sid : String) :
    exposureIn rows sid = exposureIn rows' sid := by
  refine Prod.ext ?_ ?_
  · rw [← get?_netQuantities_eq_exposure, h.nets, get?_netQuantities_eq_exposure]
  · rw [← get?_peakExposures, h.peaks, get?_peakExposures]

theorem Arranges.of_perm {sid : String} {l : List TxnRow} (h : Arranges rows sid l)
    (hp : rows.Perm rows') : Arranges rows' sid l :=
  ⟨h.perm.trans (hp.filter _), h.sorted⟩

theorem Arranges.rows_mem {sid : String} {l : List TxnRow} (h : Arranges rows sid l) {r : TxnRow}
    (hr : r ∈ l) : r.isPosition = true ∧ r.sid = sid := by
  simpa using (List.mem_filter.mp (h.perm.subset hr)).2

theorem arranges_rowsIn (rows : List TxnRow) (sid : String) :
    Arranges rows sid (rowsIn rows sid) := by
  rw [rowsIn_eq]
  exact ⟨perm_sortOn _ _, pairwise_sortOn _ _⟩

theorem TiesSwap.of_perm (h : TiesSwap rows) (hp : rows.Perm rows') : TiesSwap rows' :=
  fun sid pre a b post hl htime => h sid pre a b post (hl.of_perm hp.symm) htime

/-- Where ties swap, every arrangement of a security's rows leads to its net and peak. -/
theorem TiesSwap.foldl_eq (h : TiesSwap rows) {sid : String} {l : List TxnRow}
    (hl : Arranges rows sid l) : l.foldl exposureStep (none, none) = exposureIn rows sid := by
  have hrows := arranges_rowsIn rows sid
  refine foldl_eq_of_sorted_perm_of_swap (fun r => timeKey r.executedAt) exposureStep (none, none)
    (hl.perm.trans hrows.perm.symm) hl.sorted hrows.sorted
      fun pre a b post hperm hsorted htime => ?_
  exact h sid pre a b post ⟨hperm.trans hl.perm, hsorted⟩ htime

/-- Where ties swap, nothing depends on the order of the rows. -/
theorem TiesSwap.exposureIn_eq (h : TiesSwap rows) (hp : rows.Perm rows') (sid : String) :
    exposureIn rows sid = exposureIn rows' sid :=
  (h.foldl_eq ((arranges_rowsIn rows' sid).of_perm hp.symm)).symm

/-- Rows of a security that come last are taken last. -/
theorem exposureIn_append_of_last {before tail : List TxnRow} {sid : String}
    (htail : ∀ r ∈ tail, r.isPosition = true ∧ r.sid = sid)
    (hsorted : tail.Pairwise fun a b => timeKey a.executedAt ≤ timeKey b.executedAt)
    (hlast : ∀ r ∈ positionsIn before sid, ∀ r' ∈ tail,
      timeKey r.executedAt ≤ timeKey r'.executedAt) :
    exposureIn (before ++ tail) sid = tail.foldl exposureStep (exposureIn before sid) := by
  have hkept : tail.filter (fun r => r.isPosition && r.sid = sid) = tail :=
    List.filter_eq_self.mpr fun r hr => by simp [htail r hr]
  have hrows : rowsIn (before ++ tail) sid = rowsIn before sid ++ tail := by
    rw [rowsIn_eq, rowsIn_eq, List.filter_append, hkept, ← sortOn_append_sortOn]
    refine sortOn_of_pairwise _ (List.pairwise_append.mpr ⟨pairwise_sortOn _ _, hsorted, ?_⟩)
    exact fun r hr => hlast r ((mem_sortOn _).mp hr)
  rw [exposureIn, hrows, List.foldl_append]
  rfl

end Order

/-! ## Which rows swap -/

section Kinds

variable {rows : List TxnRow} {w : Option ℚ × Option ℚ} {a b r : TxnRow}

theorem groupNetStep_of_closing (h : r.isClosing = true) (n : ℚ) :
    groupNetStep n r = if r.isMoneyMovement = true ∨ n = 0 then none
      else some (PositionMove.takeFrom n r.absQuantity) := by
  unfold groupNetStep
  cases hmoney : r.isMoneyMovement with
  | true => simp
  | false =>
    cases hnon : r.isNontradeClose with
    | true => simp [clampToward_eq_takeFrom]
    | false =>
      have hclose : isClosingAction r.action = true := by simpa [TxnRow.isClosing, hnon] using h
      simp [hclose, truthy_of_closing hclose, clampToward_eq_takeFrom, abs_actionDelta]

/-- A row that opens, and settles nothing, adds its change. -/
theorem groupNetStep_of_opening (h : r.isOpening = true) (hsettles : r.isNontradeClose = false)
    (hmoney : r.isMoneyMovement = false) (n : ℚ) :
    groupNetStep n r = some (n + r.actionDelta) := by
  unfold groupNetStep
  rcases isOpeningAction_eq_true.mp h with ha | ha <;>
    simp [hmoney, hsettles, ha, truthy, isClosingAction, isBareAction]

/-- The peak covers the net. -/
def Covered (w : Option ℚ × Option ℚ) : Prop := |w.1.getD 0| ≤ w.2.getD 0

theorem Covered.step (h : Covered w) (r : TxnRow) : Covered (exposureStep w r) := by
  unfold exposureStep
  cases groupNetStep (w.1.getD 0) r with
  | none => exact h
  | some stepped => exact le_max_right _ _

theorem covered_foldl (l : List TxnRow) {w : Option ℚ × Option ℚ} (h : Covered w) :
    Covered (l.foldl exposureStep w) := by
  induction l generalizing w with
  | nil => exact h
  | cons r l ih => exact ih (h.step r)

theorem covered_none : Covered (none, none) := by simp [Covered]

theorem covered_exposureIn (rows : List TxnRow) (sid : String) : Covered (exposureIn rows sid) :=
  covered_foldl _ covered_none

/-- A close moves a covered net toward zero, under the same peak. -/
theorem exposureStep_of_closing (h : Covered w) (hr : r.isClosing = true) :
    exposureStep w r = if r.isMoneyMovement = true ∨ w.1.getD 0 = 0 then w
      else (some (PositionMove.takeFrom (w.1.getD 0) r.absQuantity), w.2) := by
  unfold exposureStep
  rw [groupNetStep_of_closing hr]
  split_ifs with hidle
  · rfl
  · have hne : w.1.getD 0 ≠ 0 := fun h0 => hidle (Or.inr h0)
    have hle : |PositionMove.takeFrom (w.1.getD 0) r.absQuantity| ≤ w.2.getD 0 := by
      refine le_trans ?_ h
      rw [abs_takeFrom_eq_max (absQuantity_nonneg r)]
      exact max_le (sub_le_self _ (absQuantity_nonneg r)) (abs_nonneg _)
    cases hpeak : w.2 with
    | none =>
      rw [Covered, hpeak] at h
      exact absurd (abs_nonpos_iff.mp h) hne
    | some p =>
      rw [hpeak] at hle
      simp only []
      rw [max_eq_left hle, Option.getD_some]

/-- Closes are taken one after the other as one close of both quantities. -/
theorem takeFrom_takeFrom {n p q : ℚ} (hq : 0 ≤ q) :
    PositionMove.takeFrom (PositionMove.takeFrom n p) q = PositionMove.takeFrom n (p + q) := by
  rcases lt_or_ge 0 n with hn | hn
  · rw [BookMove.takeFrom_of_pos hn, BookMove.takeFrom_of_pos hn]
    rcases lt_or_ge 0 (n - p) with hleft | hleft
    · rw [max_eq_left hleft.le, BookMove.takeFrom_of_pos hleft, sub_sub]
    · rw [max_eq_right hleft, takeFrom_zero_left hq, max_eq_right (by linarith)]
  · rw [BookMove.takeFrom_of_nonpos hn, BookMove.takeFrom_of_nonpos hn]
    rcases lt_or_ge (n + p) 0 with hleft | hleft
    · rw [min_eq_left hleft.le, BookMove.takeFrom_of_nonpos hleft.le, add_assoc]
    · rw [min_eq_right hleft, takeFrom_zero_left hq, min_eq_right (by linarith)]

theorem takeFrom_of_nonneg {n q : ℚ} (hn : 0 ≤ n) (hq : 0 ≤ q) :
    PositionMove.takeFrom n q = max (n - q) 0 := by
  rcases eq_or_lt_of_le hn with rfl | hn
  · rw [takeFrom_zero_left hq, max_eq_right (by linarith)]
  · exact BookMove.takeFrom_of_pos hn q

theorem takeFrom_neg {n q : ℚ} (hn : 0 ≤ n) (hq : 0 ≤ q) :
    PositionMove.takeFrom (-n) q = -PositionMove.takeFrom n q := by
  rw [takeFrom_of_nonneg hn hq, BookMove.takeFrom_of_nonpos (neg_nonpos.mpr hn)]
  rcases le_total q n with h | h
  · rw [max_eq_left (sub_nonneg.mpr h), min_eq_left (by linarith)]
    ring
  · rw [max_eq_right (sub_nonpos.mpr h), min_eq_right (by linarith), neg_zero]

theorem takeFrom_add_comm_iff_of_nonneg {n p d q : ℚ} (h : |n| ≤ p) (hn : 0 ≤ n) (hd : 0 ≤ d)
    (hq : 0 ≤ q) :
    (PositionMove.takeFrom (n + d) q = PositionMove.takeFrom n q + d ∧
      max p |n + d| = max p |PositionMove.takeFrom n q + d|) ↔
    d = 0 ∨ q = 0 ∨ (q ≤ |n| ∧ |n + d| ≤ p) := by
  have hleft : 0 ≤ max (n - q) 0 + d := add_nonneg (le_max_right _ _) hd
  rw [takeFrom_of_nonneg (add_nonneg hn hd) hq, takeFrom_of_nonneg hn hq, abs_of_nonneg hleft,
    abs_of_nonneg (add_nonneg hn hd), abs_of_nonneg hn]
  rw [abs_of_nonneg hn] at h
  rcases le_or_gt q n with hqn | hqn
  · rw [max_eq_left (sub_nonneg.mpr hqn), max_eq_left (by linarith)]
    refine ⟨fun ⟨_, hpeak⟩ => ?_, ?_⟩
    · rcases eq_or_lt_of_le hq with hq0 | hq0
      · exact Or.inr (Or.inl hq0.symm)
      · -- the close comes out of the top, so the top was not the peak
        refine Or.inr (Or.inr ⟨hqn, le_of_not_gt fun hover => ?_⟩)
        rw [max_eq_right hover.le] at hpeak
        exact absurd hpeak (ne_of_gt (max_lt hover (by linarith)))
    · rintro (rfl | rfl | ⟨_, hunder⟩)
      · exact ⟨by ring, by rw [max_eq_left (by linarith), max_eq_left (by linarith)]⟩
      · exact ⟨by ring, by rw [sub_zero]⟩
      · exact ⟨by ring, by rw [max_eq_left hunder, max_eq_left (by linarith)]⟩
  · -- the close takes more than there was, so it sees the addition
    rw [max_eq_right (by linarith : n - q ≤ 0), zero_add]
    refine ⟨fun ⟨hnet, _⟩ => Or.inl ?_, ?_⟩
    · rcases max_choice (n + d - q) 0 with hmax | hmax
      · exact absurd (hmax.symm.trans hnet) (by linarith)
      · exact (hmax.symm.trans hnet).symm
    · rintro (rfl | rfl | ⟨hle, _⟩)
      · rw [add_zero, max_eq_right (by linarith : n - q ≤ 0), max_eq_left h,
          max_eq_left (hn.trans h)]
        exact ⟨rfl, rfl⟩
      · exact absurd hqn (not_lt_of_ge hn)
      · exact absurd hqn (not_lt_of_ge hle)

/-- When an addition to a position, and the peak after it, do not see whether a close came
first. -/
theorem takeFrom_add_comm_iff {n p d q : ℚ} (h : |n| ≤ p) (hadds : 0 ≤ n * d) (hq : 0 ≤ q) :
    (PositionMove.takeFrom (n + d) q = PositionMove.takeFrom n q + d ∧
      max p |n + d| = max p |PositionMove.takeFrom n q + d|) ↔
    d = 0 ∨ q = 0 ∨ (q ≤ |n| ∧ |n + d| ≤ p) := by
  rcases mul_nonneg_iff.mp hadds with ⟨hn, hd⟩ | ⟨hn, hd⟩
  · exact takeFrom_add_comm_iff_of_nonneg h hn hd hq
  · -- a short position is a long one seen from the other side
    have hlong := takeFrom_add_comm_iff_of_nonneg (by rwa [abs_neg]) (neg_nonneg.mpr hn)
      (neg_nonneg.mpr hd) hq (p := p)
    have hshort : PositionMove.takeFrom n q = -PositionMove.takeFrom (-n) q := by
      rw [← takeFrom_neg (neg_nonneg.mpr hn) hq, neg_neg]
    have hshort' : PositionMove.takeFrom (n + d) q = -PositionMove.takeFrom (-n + -d) q := by
      rw [← takeFrom_neg (add_nonneg (neg_nonneg.mpr hn) (neg_nonneg.mpr hd)) hq, neg_add, neg_neg,
        neg_neg]
    rw [← neg_add, abs_neg, abs_neg, neg_eq_zero] at hlong
    have hflip : -PositionMove.takeFrom (-n) q + d = -(PositionMove.takeFrom (-n) q + -d) := by ring
    rw [← hlong, hshort, hshort', ← neg_add, hflip, abs_neg, neg_inj]

/-- Two closes can be taken in either order. -/
theorem swaps_of_closing (h : Covered w) (ha : a.isClosing = true) (hb : b.isClosing = true) :
    Swap w a b := by
  have htake : ∀ {r : TxnRow} {n : ℚ} {p : Option ℚ}, r.isClosing = true →
      r.isMoneyMovement = false → Covered (some n, p) →
      exposureStep (some n, p) r = (some (PositionMove.takeFrom n r.absQuantity), p) := by
    intro r n p hr hmoney hcovered
    rw [exposureStep_of_closing hcovered hr, Option.getD_some]
    by_cases hn : n = 0
    · rw [if_pos (Or.inr hn), hn, takeFrom_zero_left (absQuantity_nonneg r)]
    · rw [if_neg (by simp [hmoney, hn])]
  have hidle : ∀ {r : TxnRow} {w : Option ℚ × Option ℚ}, r.isClosing = true →
      r.isMoneyMovement = true → Covered w → exposureStep w r = w := by
    intro r w hr hmoney hcovered
    rw [exposureStep_of_closing hcovered hr, if_pos (Or.inl hmoney)]
  rw [Swap]
  cases hma : a.isMoneyMovement with
  | true => rw [hidle ha hma h, hidle ha hma (h.step b)]
  | false =>
    cases hmb : b.isMoneyMovement with
    | true => rw [hidle hb hmb h, hidle hb hmb (h.step a)]
    | false =>
      obtain ⟨net, p⟩ := w
      cases net with
      | none =>
        -- a close against nothing stays where it is
        have hflat : ∀ {r : TxnRow}, r.isClosing = true →
            exposureStep (none, p) r = (none, p) := by
          intro r hr
          exact (exposureStep_of_closing h hr).trans (if_pos (Or.inr rfl))
        rw [hflat ha, hflat hb, hflat ha]
      | some n =>
        have hcovered := h.step a
        have hcovered' := h.step b
        rw [htake ha hma h] at hcovered ⊢
        rw [htake hb hmb h] at hcovered' ⊢
        rw [htake hb hmb hcovered, htake ha hma hcovered',
          takeFrom_takeFrom (absQuantity_nonneg b), takeFrom_takeFrom (absQuantity_nonneg a),
          add_comm]

/-- An opening adds to the net and raises the peak. -/
theorem exposureStep_of_opening (w : Option ℚ × Option ℚ) (hr : r.isOpening = true)
    (hsettles : r.isNontradeClose = false) (hmoney : r.isMoneyMovement = false) :
    exposureStep w r = (some (w.1.getD 0 + r.actionDelta),
      some (max (w.2.getD 0) |w.1.getD 0 + r.actionDelta|)) := by
  rw [exposureStep, groupNetStep_of_opening hr hsettles hmoney]

/-- A close of a position that was just written. -/
theorem exposureStep_some_of_closing {n p : ℚ} (h : Covered (some n, some p))
    (hr : r.isClosing = true) (hmoney : r.isMoneyMovement = false) :
    exposureStep (some n, some p) r =
      (some (PositionMove.takeFrom n r.absQuantity), some p) := by
  rw [exposureStep_of_closing h hr, Option.getD_some]
  by_cases hn : n = 0
  · rw [if_pos (Or.inr hn), hn, takeFrom_zero_left (absQuantity_nonneg r)]
  · rw [if_neg (by simp [hmoney, hn])]

/-- A close leaves its effect on the net to a later opening. -/
theorem exposureStep_opening_of_closing (h : Covered w) (ha : a.isOpening = true)
    (hsettles : a.isNontradeClose = false) (hmoney : a.isMoneyMovement = false)
    (hb : b.isClosing = true) (hmoney' : b.isMoneyMovement = false) :
    exposureStep (exposureStep w b) a =
      (some (PositionMove.takeFrom (w.1.getD 0) b.absQuantity + a.actionDelta),
        some (max (w.2.getD 0)
          |PositionMove.takeFrom (w.1.getD 0) b.absQuantity + a.actionDelta|)) := by
  rw [exposureStep_of_opening _ ha hsettles hmoney, exposureStep_of_closing h hb]
  by_cases hn : w.1.getD 0 = 0
  · rw [if_pos (Or.inr hn), hn, takeFrom_zero_left (absQuantity_nonneg b)]
  · rw [if_neg (by simp [hmoney', hn]), Option.getD_some]

theorem max_max_abs_add {n p d e : ℚ} (h : |n| ≤ p) (hsame : 0 ≤ d * e) :
    max (max p |n + d|) |n + d + e| = max p |n + d + e| := by
  refine le_antisymm (max_le (max_le (le_max_left _ _) ?_) (le_max_right _ _)) ?_
  · -- the first step stays between the start and the end
    rcases le_total 0 d with hd | hd
    · rcases le_total 0 (n + d) with hnd | hnd
      · rcases eq_or_lt_of_le hd with rfl | hd
        · exact le_max_of_le_left (by rwa [add_zero])
        · have he : 0 ≤ e := nonneg_of_mul_nonneg_right hsame hd
          refine le_max_of_le_right ?_
          rw [abs_of_nonneg hnd, abs_of_nonneg (add_nonneg hnd he)]
          exact le_add_of_nonneg_right he
      · refine le_max_of_le_left (le_trans ?_ h)
        rw [abs_of_nonpos hnd, abs_of_nonpos (by linarith)]
        linarith
    · rcases le_total 0 (n + d) with hnd | hnd
      · refine le_max_of_le_left (le_trans ?_ h)
        rw [abs_of_nonneg hnd, abs_of_nonneg (by linarith)]
        linarith
      · rcases eq_or_lt_of_le hd with rfl | hd
        · exact le_max_of_le_left (by rwa [add_zero])
        · have he : e ≤ 0 := nonpos_of_mul_nonneg_right hsame hd
          refine le_max_of_le_right ?_
          rw [abs_of_nonpos hnd, abs_of_nonpos (add_nonpos hnd he)]
          linarith
  · exact max_le_max_right _ (le_max_left _ _)

/-- Two openings in one direction can be taken in either order. -/
theorem swaps_of_opening (h : Covered w) (ha : a.isOpening = true) (hb : b.isOpening = true)
    (hsame : a.action = b.action) (hsettles : a.isNontradeClose = false)
    (hsettles' : b.isNontradeClose = false) : Swap w a b := by
  have hidle : ∀ {r : TxnRow} (w : Option ℚ × Option ℚ), r.isMoneyMovement = true →
      exposureStep w r = w := by
    intro r w hmoney
    simp [exposureStep, groupNetStep, hmoney]
  have hdeltas : 0 ≤ a.actionDelta * b.actionDelta := by
    have hsells : a.sells = b.sells := by rw [TxnRow.sells, TxnRow.sells, hsame]
    rw [TxnRow.actionDelta, TxnRow.actionDelta, hsells]
    split_ifs
    · exact mul_nonneg_of_nonpos_of_nonpos (neg_nonpos.mpr (absQuantity_nonneg a))
        (neg_nonpos.mpr (absQuantity_nonneg b))
    · exact mul_nonneg (absQuantity_nonneg a) (absQuantity_nonneg b)
  rw [Swap]
  cases hma : a.isMoneyMovement with
  | true => rw [hidle w hma, hidle _ hma]
  | false =>
    cases hmb : b.isMoneyMovement with
    | true => rw [hidle w hmb, hidle _ hmb]
    | false =>
      simp only [exposureStep_of_opening _ ha hsettles hma,
        exposureStep_of_opening _ hb hsettles' hmb, Option.getD_some]
      rw [max_max_abs_add h hdeltas, max_max_abs_add h (mul_comm a.actionDelta _ ▸ hdeltas),
        add_right_comm]

/-- An opening and a close of a position not against it can be taken in either order only where
the close takes no more than the position before both, and the opening does not raise the peak. -/
theorem swap_opening_closing_iff (h : Covered w) (ha : a.isOpening = true)
    (hsettles : a.isNontradeClose = false) (hmoney : a.isMoneyMovement = false)
    (hb : b.isClosing = true) (hmoney' : b.isMoneyMovement = false)
    (hadds : 0 ≤ w.1.getD 0 * a.actionDelta) :
    Swap w a b ↔ a.absQuantity = 0 ∨ b.absQuantity = 0 ∨
      (b.absQuantity ≤ |w.1.getD 0| ∧ |w.1.getD 0 + a.actionDelta| ≤ w.2.getD 0) := by
  have hab : Covered (exposureStep w a) := h.step a
  rw [exposureStep_of_opening w ha hsettles hmoney] at hab
  rw [Swap, exposureStep_opening_of_closing h ha hsettles hmoney hb hmoney',
    exposureStep_of_opening w ha hsettles hmoney, exposureStep_some_of_closing hab hb hmoney',
    Prod.mk.injEq, Option.some_inj, Option.some_inj, ← abs_actionDelta a, abs_eq_zero]
  exact takeFrom_add_comm_iff h hadds (absQuantity_nonneg b)

end Kinds

/-! ## A delivery batch -/

/-- Two simultaneous rows of one security are two closes, or openings in one direction. -/
def TiesAlike (a b : TxnRow) : Prop :=
  a.isPosition = true → b.isPosition = true → a.sid = b.sid → a.executedAt = b.executedAt →
    a.isClosing = true ∧ b.isClosing = true ∨
      a.isOpening = true ∧ b.isOpening = true ∧ a.action = b.action ∧
        a.isNontradeClose = false ∧ b.isNontradeClose = false

/-- An opening and a close at one instant, the last of their security, that add to a group in
which other ties are alike; the opening is not against the position held. -/
structure DeliveryTie (before : List TxnRow) (a b : TxnRow) : Prop where
  position : a.isPosition = true
  position' : b.isPosition = true
  sid : a.sid = b.sid
  time : a.executedAt = b.executedAt
  opening : a.isOpening = true
  settles : a.isNontradeClose = false
  money : a.isMoneyMovement = false
  closing : b.isClosing = true
  money' : b.isMoneyMovement = false
  last : ∀ r ∈ positionsIn before a.sid, timeKey r.executedAt < timeKey a.executedAt
  alike : before.Pairwise TiesAlike
  adds : 0 ≤ (exposureIn before a.sid).1.getD 0 * a.actionDelta

/-- The close of a delivery batch takes no more than was held before it, and the opening stays
under the peak that was reached before, unless one of the two moves nothing. -/
def CloseFits (before : List TxnRow) (a b : TxnRow) : Prop :=
  a.absQuantity = 0 ∨ b.absQuantity = 0 ∨
    (b.absQuantity ≤ |(exposureIn before a.sid).1.getD 0| ∧
      |(exposureIn before a.sid).1.getD 0 + a.actionDelta| ≤ (exposureIn before a.sid).2.getD 0)

section Delivery

variable {before rows : List TxnRow} {a b : TxnRow}

theorem TiesAlike.symm (h : TiesAlike a b) : TiesAlike b a := by
  intro hb ha hsid htime
  rcases h ha hb hsid.symm htime.symm with ⟨hca, hcb⟩ | ⟨hoa, hob, hact, hsa, hsb⟩
  · exact Or.inl ⟨hcb, hca⟩
  · exact Or.inr ⟨hob, hoa, hact.symm, hsb, hsa⟩

theorem TiesAlike.swap (h : TiesAlike a b) (ha : a.isPosition = true) (hb : b.isPosition = true)
    (hsid : a.sid = b.sid) (htime : a.executedAt = b.executedAt) {w : Option ℚ × Option ℚ}
    (hw : Covered w) : Swap w a b := by
  rcases h ha hb hsid htime with ⟨hca, hcb⟩ | ⟨hoa, hob, hact, hsa, hsb⟩
  · exact swaps_of_closing hw hca hcb
  · exact swaps_of_opening hw hoa hob hact hsa hsb

/-- Where simultaneous rows of one security are alike, ties swap. -/
theorem tiesSwap_of_alike (h : rows.Pairwise TiesAlike) : TiesSwap rows := by
  intro sid pre a b post hl htime
  have hpairs : (pre ++ a :: b :: post).Pairwise TiesAlike :=
    (hl.perm.pairwise_iff TiesAlike.symm).mpr (h.filter _)
  have halike : TiesAlike a b :=
    (List.pairwise_cons.mp (List.pairwise_append.mp hpairs).2.1).1 b (by simp)
  obtain ⟨ha, hsid⟩ := hl.rows_mem (r := a) (by simp)
  obtain ⟨hb, hsid'⟩ := hl.rows_mem (r := b) (by simp)
  exact halike.swap ha hb (hsid.trans hsid'.symm) htime (covered_foldl pre covered_none)

namespace DeliveryTie

theorem positionsIn_append (h : DeliveryTie before a b) :
    positionsIn (before ++ [a, b]) a.sid = positionsIn before a.sid ++ [a, b] := by
  simp [positionsIn, List.filter_append, h.position, h.position', h.sid]

theorem positionsIn_append_of_ne (h : DeliveryTie before a b) {sid : String} (hne : sid ≠ a.sid) :
    positionsIn (before ++ [a, b]) sid = positionsIn before sid := by
  simp [positionsIn, List.filter_append, ← h.sid, hne.symm]

/-- The two rows come last in their security, in the order in which they are listed. -/
theorem exposureIn_append (h : DeliveryTie before a b) {tail : List TxnRow}
    (htail : tail.Perm [a, b]) :
    exposureIn (before ++ tail) a.sid = tail.foldl exposureStep (exposureIn before a.sid) := by
  have hmem : ∀ r ∈ tail, r = a ∨ r = b := fun r hr => by simpa using htail.subset hr
  have htime : ∀ r ∈ tail, r.executedAt = a.executedAt := by
    intro r hr
    rcases hmem r hr with rfl | rfl
    · rfl
    · exact h.time.symm
  refine exposureIn_append_of_last (fun r hr => ?_)
    (List.pairwise_of_forall_mem_list fun r hr r' hr' => ?_) fun r hr r' hr' => ?_
  · rcases hmem r hr with rfl | rfl
    · exact ⟨h.position, rfl⟩
    · exact ⟨h.position', h.sid.symm⟩
  · rw [htime r hr, htime r' hr']
  · rw [htime r' hr']
    exact (h.last r hr).le

theorem swap_iff (h : DeliveryTie before a b) :
    Swap (exposureIn before a.sid) a b ↔ CloseFits before a b :=
  swap_opening_closing_iff (covered_exposureIn before a.sid) h.opening h.settles h.money h.closing
    h.money' h.adds

section Walk

variable {pre post : List TxnRow} {r r' : TxnRow}

/-- Two rows in turn before the batch are alike. -/
theorem alike_of_early (h : DeliveryTie before a b)
    (hl : Arranges (before ++ [a, b]) a.sid (pre ++ r :: r' :: post))
    (hr : timeKey r.executedAt < timeKey a.executedAt)
    (hr' : timeKey r'.executedAt < timeKey a.executedAt) : TiesAlike r r' := by
  have hlast : ∀ y ∈ [a, b], ¬timeKey y.executedAt < timeKey a.executedAt := by simp [← h.time]
  have hpairs : (positionsIn before a.sid ++ [a, b]).Pairwise fun x y =>
      timeKey x.executedAt < timeKey a.executedAt →
        timeKey y.executedAt < timeKey a.executedAt → TiesAlike x y := by
    refine List.pairwise_append.mpr ⟨(h.alike.filter _).imp fun hxy _ _ => hxy, ?_, ?_⟩
    · exact List.pairwise_of_forall_mem_list fun x hx _ _ hlt => absurd hlt (hlast x hx)
    · exact fun x _ y hy _ hlt => absurd hlt (hlast y hy)
  have hperm := hl.perm
  rw [h.positionsIn_append] at hperm
  have hpairs' := (hperm.pairwise_iff fun hxy hy hx => (hxy hx hy).symm).mpr hpairs
  exact (List.pairwise_cons.mp (List.pairwise_append.mp hpairs').2.1).1 r' (by simp) hr hr'

/-- Two rows in turn that are not before the batch are the batch, and the last. -/
theorem batch_of_late (h : DeliveryTie before a b)
    (hl : Arranges (before ++ [a, b]) a.sid (pre ++ r :: r' :: post))
    (hr : timeKey a.executedAt ≤ timeKey r.executedAt) :
    Arranges before a.sid pre ∧ [r, r'].Perm [a, b] := by
  obtain ⟨hpre, hrest, -⟩ := List.pairwise_append.mp hl.sorted
  have hperm := hl.perm
  rw [h.positionsIn_append] at hperm
  have hnone : (positionsIn before a.sid).filter
      (fun x => timeKey a.executedAt ≤ timeKey x.executedAt) = [] :=
    List.filter_eq_nil_iff.mpr fun x hx => by simpa using h.last x hx
  have hbatch : [a, b].filter
      (fun x => timeKey a.executedAt ≤ timeKey x.executedAt) = [a, b] := by simp [← h.time]
  have hkept : (r :: r' :: post).filter
      (fun x => timeKey a.executedAt ≤ timeKey x.executedAt) = r :: r' :: post := by
    refine List.filter_eq_self.mpr fun x hx => decide_eq_true ?_
    rcases List.mem_cons.mp hx with rfl | hx
    · exact hr
    · exact hr.trans ((List.pairwise_cons.mp hrest).1 x hx)
  -- the rows that are not before the batch are two in number
  have htwo := hperm.filter fun x => timeKey a.executedAt ≤ timeKey x.executedAt
  rw [List.filter_append, List.filter_append, hnone, hkept, hbatch, List.nil_append] at htwo
  have hlength := htwo.length_eq
  simp only [List.length_append, List.length_cons, List.length_nil] at hlength
  obtain rfl : post = [] := List.eq_nil_of_length_eq_zero (by omega)
  rw [List.eq_nil_of_length_eq_zero (l := pre.filter _) (by omega), List.nil_append] at htwo
  have hbefore : pre.Perm (positionsIn before a.sid) :=
    (List.perm_append_right_iff [a, b]).mp ((htwo.symm.append_left pre).trans hperm)
  exact ⟨⟨hbefore, hpre⟩, htwo⟩

/-- The ties swap once the close fits. -/
theorem tiesSwap (h : DeliveryTie before a b) (hfits : CloseFits before a b) :
    TiesSwap (before ++ [a, b]) := by
  have hbefore := tiesSwap_of_alike h.alike
  intro sid pre r r' post hl htime
  by_cases hsid : sid = a.sid
  · subst hsid
    by_cases hearly : timeKey r.executedAt < timeKey a.executedAt
    · obtain ⟨hr, hrsid⟩ := hl.rows_mem (r := r) (by simp)
      obtain ⟨hr', hrsid'⟩ := hl.rows_mem (r := r') (by simp)
      have halike := h.alike_of_early hl hearly (htime ▸ hearly)
      exact halike.swap hr hr' (hrsid.trans hrsid'.symm) htime (covered_foldl pre covered_none)
    · obtain ⟨hpre, htwo⟩ := h.batch_of_late hl (not_lt.mp hearly)
      rw [hbefore.foldl_eq hpre]
      rcases List.perm_pair.mp htwo with heq | heq
      · obtain ⟨rfl, rfl⟩ : r = a ∧ r' = b := by simpa using heq
        exact h.swap_iff.mpr hfits
      · obtain ⟨rfl, rfl⟩ : r = b ∧ r' = a := by simpa using heq
        exact (h.swap_iff.mpr hfits).symm
  · exact hbefore sid pre r r' post ⟨h.positionsIn_append_of_ne hsid ▸ hl.perm, hl.sorted⟩ htime

end Walk

end DeliveryTie

end Delivery

/-- A leg of a delivery batch, in shares. -/
def deliveredLeg (ttTransactionId action : String) (executedAt : Datetime) : TxnRow :=
  { TxnRow.fill "A" ttTransactionId "O" action "X" 100 executedAt with
    transactionType := some "Receive Deliver", transactionSubType := some action }

/-- A later close hides the order, so a list may be accounted alike in every order although its
walks meet a close that another order drops. -/
example :
    let opened := deliveredLeg "1" "Buy to Open" 0
    let sold := deliveredLeg "2" "Sell to Close" 0
    let later := deliveredLeg "3" "Sell to Close" 1
    exposureIn [opened, sold, later] "X" = exposureIn [sold, opened, later] "X" := by
  decide +kernel

end TtLedger
