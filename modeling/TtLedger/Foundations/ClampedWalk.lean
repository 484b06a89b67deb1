import Mathlib.Algebra.Order.Ring.Abs
import Mathlib.Tactic.Linarith
import Mathlib.Tactic.Ring

/-!
# Signed positions that closes cannot flip

A position moves by signed openings (`add`) and by closes of a quantity (`take`), which move it
toward zero by at most what it holds. Where no opening meets a position of the other side, a walk
ends with the size that was held and opened, less what was found (`abs_walkPosition`). Of what the
closes ask, each takes what it finds and misses the rest (`found_add_missed`); where nothing is
opened after a close that missed something, a walk that does not end flat missed nothing
(`missed_eq_zero_of_neverReopens`).

A book moves by these, and by changes that close a position on the other side and open otherwise
(`BookMove`). Two positions that a move takes to the same one were the same, or are both flat
after it (`BookMove.apply_collapse`), so two walks end at the same position only when they start
there or some move leaves both flat (`foldl_eq_foldl_iff`).
-/

namespace TtLedger

variable {α : Type*}

/-- One move of a position. -/
inductive PositionMove (α : Type*)
  | add (delta : α)
  | take (quantity : α)

namespace PositionMove

variable [CommRing α] [LinearOrder α]

/-- Move a position toward zero by at most what it holds. -/
def takeFrom (w quantity : α) : α :=
  if 0 < w then w - min quantity |w| else w + min quantity |w|

def apply (w : α) : PositionMove α → α
  | add delta => w + delta
  | take quantity => takeFrom w quantity

/-- The position after the moves. -/
def walkPosition (w : α) (moves : List (PositionMove α)) : α := moves.foldl apply w

/-- The quantity a move opens. -/
def opened : PositionMove α → α
  | add delta => |delta|
  | take _ => 0

/-- The quantity a move asks to close. -/
def closed : PositionMove α → α
  | add _ => 0
  | take quantity => quantity

/-- The quantity a close finds. -/
def takenAt (w : α) : PositionMove α → α
  | add _ => 0
  | take quantity => min quantity |w|

/-- The part of an opening that offsets the position it meets. -/
def crossing (w delta : α) : α := if w * delta < 0 then min |w| |delta| else 0

section Events

variable {β : Type*} (move : β → PositionMove α) (p : β → Bool)

/-- What the closes among some events find, over the walk. -/
def found : α → List β → α
  | _, [] => 0
  | w, b :: l => (if p b then takenAt w (move b) else 0) + found (apply w (move b)) l

/-- What each close among some events finds, for those that find anything. -/
def takings : α → List β → List α
  | _, [] => []
  | w, b :: l =>
    if p b && takenAt w (move b) ≠ 0 then takenAt w (move b) :: takings (apply w (move b)) l
    else takings (apply w (move b)) l

/-- What the closes among some events do not find, over the walk. -/
def missed : α → List β → α
  | _, [] => 0
  | w, b :: l =>
    (if p b then closed (move b) - takenAt w (move b) else 0) + missed (apply w (move b)) l

/-- An opening does not meet a position of the other side. -/
def MeetsOwn (w : α) : PositionMove α → Prop
  | add delta => 0 ≤ w * delta
  | take _ => True

/-- No opening of the walk meets a position of the other side. -/
def NeverCrosses : α → List β → Prop
  | _, [] => True
  | w, b :: l => MeetsOwn w (move b) ∧ NeverCrosses (apply w (move b)) l

/-- Nothing is opened after a close that finds less than it asks. -/
def NeverReopens : α → List β → Prop
  | _, [] => True
  | w, b :: l => (|w| < closed (move b) → ∀ c ∈ l, opened (move c) = 0) ∧
      NeverReopens (apply w (move b)) l

instance (w : α) : DecidablePred (MeetsOwn w)
  | add delta => inferInstanceAs (Decidable (0 ≤ w * delta))
  | take _ => isTrue trivial

instance decidableNeverCrosses : ∀ (w : α) (l : List β), Decidable (NeverCrosses move w l)
  | _, [] => isTrue trivial
  | w, b :: l =>
    have := decidableNeverCrosses (apply w (move b)) l
    inferInstanceAs (Decidable (MeetsOwn w (move b) ∧ NeverCrosses move (apply w (move b)) l))

end Events

variable [IsStrictOrderedRing α]

theorem abs_takeFrom {w quantity : α} (h : 0 ≤ quantity) :
    |takeFrom w quantity| = |w| - min quantity |w| := by
  have hle : min quantity |w| ≤ |w| := min_le_right _ _
  have hnonneg : 0 ≤ min quantity |w| := le_min h (abs_nonneg w)
  unfold takeFrom
  split
  · rename_i hw
    rw [abs_of_pos hw] at hle ⊢
    exact abs_of_nonneg (sub_nonneg.mpr hle)
  · rename_i hw
    rw [abs_of_nonpos (not_lt.mp hw)] at hle ⊢
    rw [abs_of_nonpos (by linarith)]
    ring

theorem abs_add_eq (w delta : α) : |w + delta| = |w| + |delta| - 2 * crossing w delta := by
  unfold crossing
  rcases lt_trichotomy w 0 with hw | rfl | hw
  · rcases le_or_gt delta 0 with hd | hd
    · rw [if_neg (not_lt.mpr (mul_nonneg_of_nonpos_of_nonpos hw.le hd)), abs_of_neg hw,
        abs_of_nonpos hd, abs_of_nonpos (by linarith)]
      ring
    · rw [if_pos (mul_neg_of_neg_of_pos hw hd), abs_of_neg hw, abs_of_pos hd]
      rcases le_total (-w) delta with h | h
      · rw [min_eq_left h, abs_of_nonneg (by linarith)]
        ring
      · rw [min_eq_right h, abs_of_nonpos (by linarith)]
        ring
  · simp
  · rcases le_or_gt 0 delta with hd | hd
    · rw [if_neg (not_lt.mpr (mul_nonneg hw.le hd)), abs_of_pos hw, abs_of_nonneg hd,
        abs_of_nonneg (by linarith)]
      ring
    · rw [if_pos (mul_neg_of_pos_of_neg hw hd), abs_of_pos hw, abs_of_neg hd]
      rcases le_total w (-delta) with h | h
      · rw [min_eq_left h, abs_of_nonpos (by linarith)]
        ring
      · rw [min_eq_right h, abs_of_nonneg (by linarith)]
        ring

/-- A change on the side of a position, or from a flat one, does not reduce it. -/
theorem abs_le_abs_add {w delta : α} (h : ¬ w * delta < 0) : |w| ≤ |w + delta| := by
  have hsize := abs_add_eq w delta
  rw [crossing, if_neg h] at hsize
  have := abs_nonneg delta
  linarith

theorem abs_apply {w : α} {move : PositionMove α} (h : 0 ≤ closed move) (hown : MeetsOwn w move) :
    |apply w move| = |w| + opened move - takenAt w move := by
  cases move with
  | add delta =>
    have hsize := abs_add_eq w delta
    rw [crossing, if_neg (not_lt.mpr hown)] at hsize
    simp only [apply, opened, takenAt]
    linarith
  | take quantity =>
    have hquantity : 0 ≤ quantity := h
    rw [apply, abs_takeFrom hquantity]
    simp only [opened, takenAt]
    ring

section Events

variable {β : Type*} {move : β → PositionMove α} {p : β → Bool}

/-- Closes find part of what they ask and miss the rest. -/
theorem found_add_missed (w : α) (l : List β) :
    found move p w l + missed move p w l = ((l.filter p).map fun b => closed (move b)).sum := by
  induction l generalizing w with
  | nil => simp [found, missed]
  | cons b l ih =>
    have htail := ih (apply w (move b))
    by_cases hb : p b = true
    · simp only [found, missed, hb, if_true, List.filter_cons_of_pos, List.map_cons, List.sum_cons]
      linarith
    · simp only [found, missed, hb, if_false, Bool.false_eq_true, List.filter_cons_of_neg,
        not_false_eq_true]
      linarith

theorem missed_nonneg {w : α} {l : List β} : 0 ≤ missed move p w l := by
  induction l generalizing w with
  | nil => exact le_rfl
  | cons b l ih =>
    refine add_nonneg ?_ ih
    split
    · cases hb : move b with
      | add delta => simp [closed, takenAt]
      | take quantity => exact sub_nonneg.mpr (min_le_left _ _)
    · exact le_rfl

omit [IsStrictOrderedRing α] in
theorem sum_takings (w : α) (l : List β) : (takings move p w l).sum = found move p w l := by
  induction l generalizing w with
  | nil => rfl
  | cons b l ih =>
    unfold takings found
    by_cases hb : p b = true
    · by_cases htaken : takenAt w (move b) = 0 <;> simp [hb, htaken, ih]
    · simp [hb, ih]

/-- A taking is positive, and no more than its event names. -/
theorem of_mem_takings {w : α} {l : List β} (h : ∀ b ∈ l, 0 ≤ closed (move b)) {q : α}
    (hq : q ∈ takings move p w l) : 0 < q ∧ ∃ b ∈ l, p b = true ∧ q ≤ closed (move b) := by
  induction l generalizing w with
  | nil => cases hq
  | cons b l ih =>
    have hrest : q ∈ takings move p (apply w (move b)) l →
        0 < q ∧ ∃ b' ∈ b :: l, p b' = true ∧ q ≤ closed (move b') := fun hmem => by
      obtain ⟨hpos, c, hc, hcq⟩ := ih (fun c hc => h c (by simp [hc])) hmem
      exact ⟨hpos, c, List.mem_cons_of_mem _ hc, hcq⟩
    unfold takings at hq
    split at hq
    · rename_i htakes
      obtain ⟨hb, hne⟩ := Bool.and_eq_true_iff.mp htakes
      rcases List.mem_cons.mp hq with rfl | hmem
      · have hclosed := h b (by simp)
        have hne := of_decide_eq_true hne
        cases hmove : move b with
        | add delta => simp [hmove, takenAt] at hne
        | take quantity =>
          rw [hmove] at hclosed hne
          have hnonneg : 0 ≤ min quantity |w| := le_min hclosed (abs_nonneg w)
          exact ⟨lt_of_le_of_ne hnonneg hne.symm, b, List.mem_cons_self, hb, by
            rw [hmove]
            exact min_le_left _ _⟩
      · exact hrest hmem
    · exact hrest hq

theorem found_add_found_not (w : α) (l : List β) :
    found move p w l + found move (fun b => !p b) w l = found move (fun _ => true) w l := by
  induction l generalizing w with
  | nil => simp [found]
  | cons b l ih =>
    have htail := ih (apply w (move b))
    cases hb : p b <;> simp only [found, hb] <;> simp <;> linarith

/-- **The size a walk ends at** where no opening meets the other side. -/
theorem abs_walkPosition {w : α} {l : List β} (h : ∀ b ∈ l, 0 ≤ closed (move b))
    (hcross : NeverCrosses move w l) :
    |walkPosition w (l.map move)| =
      |w| + (l.map fun b => opened (move b)).sum - found move (fun _ => true) w l := by
  induction l generalizing w with
  | nil => simp [walkPosition, found]
  | cons b l ih =>
    obtain ⟨hown, hcross⟩ := hcross
    have hhead := abs_apply (h b (by simp)) hown
    have htail := ih (fun c hc => h c (by simp [hc])) hcross
    simp only [walkPosition, List.map_cons, List.foldl_cons, List.sum_cons, found, if_true] at *
    linarith

/-- Without openings a flat position stays flat. -/
theorem walkPosition_zero {l : List β} (h : ∀ b ∈ l, 0 ≤ closed (move b))
    (hopens : ∀ b ∈ l, opened (move b) = 0) : walkPosition 0 (l.map move) = 0 := by
  induction l with
  | nil => rfl
  | cons b l ih =>
    have hstay : apply 0 (move b) = 0 := by
      have hclosed := h b (by simp)
      have hopened := hopens b (by simp)
      cases hb : move b with
      | add delta =>
        rw [hb] at hopened
        rw [apply, zero_add]
        exact abs_eq_zero.mp hopened
      | take quantity =>
        rw [hb] at hclosed
        have hquantity : 0 ≤ quantity := hclosed
        rw [apply, ← abs_eq_zero, abs_takeFrom hquantity, abs_zero, min_eq_right hquantity,
          sub_zero]
    rw [walkPosition, List.map_cons, List.foldl_cons, hstay]
    exact ih (fun c hc => h c (by simp [hc])) fun c hc => hopens c (by simp [hc])

/-- A walk that does not end flat, and opens nothing after a close that missed something, missed
nothing. -/
theorem missed_eq_zero_of_neverReopens {w : α} {l : List β} (h : ∀ b ∈ l, 0 ≤ closed (move b))
    (hreopens : NeverReopens move w l) (hend : walkPosition w (l.map move) ≠ 0) :
    missed move p w l = 0 := by
  induction l generalizing w with
  | nil => rfl
  | cons b l ih =>
    obtain ⟨hcut, hreopens⟩ := hreopens
    have hl : ∀ c ∈ l, 0 ≤ closed (move c) := fun c hc => h c (by simp [hc])
    rw [walkPosition, List.map_cons, List.foldl_cons] at hend
    have htail := ih hl hreopens hend
    have hhead : closed (move b) - takenAt w (move b) = 0 := by
      cases hb : move b with
      | add delta => simp [closed, takenAt]
      | take quantity =>
        by_cases hfinds : quantity ≤ |w|
        · simp [closed, takenAt, min_eq_left hfinds]
        · -- cut to zero, the walk stays there
          have hquantity : 0 ≤ quantity := by simpa [hb, closed] using h b (by simp)
          have hlt : |w| < quantity := not_le.mp hfinds
          have hflat : apply w (move b) = 0 := by
            rw [hb, apply, ← abs_eq_zero, abs_takeFrom hquantity, min_eq_right hlt.le, sub_self]
          rw [hflat] at hend
          exact absurd (walkPosition_zero hl (hcut (by rwa [hb]))) hend
    rw [missed, htail, hhead]
    simp

end Events

end PositionMove

/-! ## Walks that meet -/

/-- Two walks of steps that collapse only to `sink` meet when they start together, or when a step
takes both there. -/
theorem foldl_eq_foldl_iff {β : Type*} {step : β → α → β} {sink : β}
    (hcollapse : ∀ a b x, step a x = step b x → a = b ∨ step a x = sink) (a b : β)
    (l : List α) :
    l.foldl step a = l.foldl step b ↔
      a = b ∨ ∃ before x after, l = before ++ x :: after ∧
        (before ++ [x]).foldl step a = sink ∧ (before ++ [x]).foldl step b = sink := by
  constructor
  · induction l generalizing a b with
    | nil => exact Or.inl
    | cons x l ih =>
      intro h
      rcases ih (step a x) (step b x) h with heq | ⟨before, y, after, rfl, ha, hb⟩
      · refine (hcollapse a b x heq).imp id fun hsink => ⟨[], x, l, rfl, ?_, ?_⟩
        · exact hsink
        · exact heq.symm.trans hsink
      · exact Or.inr ⟨x :: before, y, after, rfl, ha, hb⟩
  · rintro (rfl | ⟨before, x, after, rfl, ha, hb⟩)
    · rfl
    · have hsplit : ∀ c, (before ++ x :: after).foldl step c =
          after.foldl step ((before ++ [x]).foldl step c) := fun c => by simp
      rw [hsplit, hsplit, ha, hb]

/-- One move of a book: none, a close of a quantity, a signed change, or a signed change that
closes a position on the other side. -/
inductive BookMove (α : Type*)
  | idle
  | take (quantity : α)
  | add (delta : α)
  | offset (delta : α)

namespace BookMove

open PositionMove (takeFrom)

variable [CommRing α] [LinearOrder α]

def apply (w : α) : BookMove α → α
  | idle => w
  | take quantity => takeFrom w quantity
  | add delta => w + delta
  | offset delta => if w * delta < 0 then takeFrom w |delta| else w + delta

variable [IsStrictOrderedRing α]

theorem takeFrom_of_pos {w : α} (hw : 0 < w) (quantity : α) :
    takeFrom w quantity = max (w - quantity) 0 := by
  rw [takeFrom, if_pos hw, abs_of_pos hw]
  rcases le_total quantity w with h | h
  · rw [min_eq_left h, max_eq_left (sub_nonneg.mpr h)]
  · rw [min_eq_right h, sub_self, max_eq_right (sub_nonpos.mpr h)]

theorem takeFrom_of_nonpos {w : α} (hw : w ≤ 0) (quantity : α) :
    takeFrom w quantity = min (w + quantity) 0 := by
  rw [takeFrom, if_neg (not_lt.mpr hw), abs_of_nonpos hw]
  rcases le_total quantity (-w) with h | h
  · rw [min_eq_left h, min_eq_left (by linarith)]
  · rw [min_eq_right h, add_neg_cancel, min_eq_right (by linarith)]

theorem takeFrom_collapse {a b quantity : α}
    (h : takeFrom a quantity = takeFrom b quantity) : a = b ∨ takeFrom a quantity = 0 := by
  rcases lt_or_ge 0 a with ha | ha <;> rcases lt_or_ge 0 b with hb | hb
  · rw [takeFrom_of_pos ha, takeFrom_of_pos hb] at h
    rw [takeFrom_of_pos ha]
    grind
  · rw [takeFrom_of_pos ha, takeFrom_of_nonpos hb] at h
    rw [takeFrom_of_pos ha]
    grind
  · rw [takeFrom_of_nonpos ha, takeFrom_of_pos hb] at h
    rw [takeFrom_of_nonpos ha]
    grind
  · rw [takeFrom_of_nonpos ha, takeFrom_of_nonpos hb] at h
    rw [takeFrom_of_nonpos ha]
    grind

/-- A close by a change on the other side does not leave the side it found. -/
theorem not_offset_eq_add {a b delta : α} (ha : a * delta < 0) (hb : ¬ b * delta < 0) :
    takeFrom a |delta| ≠ b + delta := by
  intro h
  rcases lt_trichotomy delta 0 with hd | rfl | hd
  · have hapos : 0 < a := pos_of_mul_neg_left ha hd.le
    have hbneg : b ≤ 0 := by
      by_contra hpos
      exact hb (mul_neg_of_pos_of_neg (not_le.mp hpos) hd)
    rw [takeFrom_of_pos hapos] at h
    have := le_max_right (a - |delta|) 0
    linarith
  · simp at ha
  · have haneg : a < 0 := neg_of_mul_neg_left ha hd.le
    have hbpos : 0 ≤ b := by
      by_contra hneg
      exact hb (mul_neg_of_neg_of_pos (not_le.mp hneg) hd)
    rw [takeFrom_of_nonpos haneg.le] at h
    have := min_le_right (a + |delta|) 0
    linarith

/-- A move collapses positions only to the flat one. -/
theorem apply_collapse (a b : α) (move : BookMove α) (h : apply a move = apply b move) :
    a = b ∨ apply a move = 0 := by
  cases move with
  | idle => exact Or.inl h
  | take quantity => exact takeFrom_collapse h
  | add delta => exact Or.inl (add_right_cancel h)
  | offset delta =>
    simp only [apply] at h ⊢
    by_cases ha : a * delta < 0 <;> by_cases hb : b * delta < 0
    · rw [if_pos ha, if_pos hb] at h
      rw [if_pos ha]
      exact takeFrom_collapse h
    · rw [if_pos ha, if_neg hb] at h
      exact absurd h (not_offset_eq_add ha hb)
    · rw [if_neg ha, if_pos hb] at h
      exact absurd h.symm (not_offset_eq_add hb ha)
    · rw [if_neg ha, if_neg hb] at h
      exact Or.inl (add_right_cancel h)

end BookMove

end TtLedger
