import TtLedger.Guarantees.TieOrder
import Mathlib.Order.Bounds.Basic

/-!
# Laws of the group walk

A row that the walk takes against the running net of its security (a close, a settlement, or a
bare trade opposite to it) takes no more than the net holds: the net does not grow and does not
change its sign. Such rows alone open nothing, so a group without other rows nets to the empty
dictionary. A peak is the greatest size of the net along the walk, and the net never exceeds what
was opened (`groupWalkLaws`).
-/

namespace TtLedger

/-- The net in a security once the given rows have been walked, in this order. -/
def netAfter (walked : List TxnRow) (sid : String) : ℚ :=
  ((walked.foldl netWalk Dict.empty).get? sid).getD 0

/-- A close, a settlement, or a bare trade opposite to the net. -/
def takesFromNet (current : ℚ) (r : TxnRow) : Bool :=
  r.isClosing || (isBareAction r.action && current * r.actionDelta < 0)

/-- The quantity a row opens at a net of its security. -/
def openedAt (current : ℚ) (r : TxnRow) : ℚ :=
  if r.isMoneyMovement || !truthy r.action || takesFromNet current r then 0 else r.absQuantity

/-- The quantity opened by rows of one security, from a net. -/
def openedOver : ℚ → List TxnRow → ℚ
  | _, [] => 0
  | w, r :: rows => openedAt w r + openedOver ((groupNetStep w r).getD w) rows

/-- The quantity a group opened in a security. -/
def openedIn (rows : List TxnRow) (sid : String) : ℚ := openedOver 0 (rowsIn rows sid)

/-- The laws of the walk over a group's rows. -/
structure GroupWalkLaws (rows : List TxnRow) : Prop where
  towardZero : ∀ before r after, orderedPositionRows rows = before ++ r :: after →
    takesFromNet (netAfter before r.sid) r = true →
      |netAfter (before ++ [r]) r.sid| ≤ |netAfter before r.sid| ∧
        (0 ≤ netAfter before r.sid → 0 ≤ netAfter (before ++ [r]) r.sid) ∧
        (netAfter before r.sid ≤ 0 → netAfter (before ++ [r]) r.sid ≤ 0)
  closesOnly : (∀ r ∈ rows, r.isClosing = true) → (netQuantities rows).entries = []
  sameKeys : (peakExposures rows).keys = (netQuantities rows).keys
  peak : ∀ sid p, (peakExposures rows).get? sid = some p →
    IsGreatest {q | ∃ walked, walked <+: orderedPositionRows rows ∧ q = |netAfter walked sid|} p
  opened : ∀ sid p, (peakExposures rows).get? sid = some p → p ≤ openedIn rows sid

/-! ## One row -/

section Step

variable {r : TxnRow} {w : ℚ}

/-- A row taken against the net takes some quantity from it. -/
theorem apply_of_takesFromNet (h : takesFromNet w r = true) :
    ∃ quantity, 0 ≤ quantity ∧ r.move.apply w = PositionMove.takeFrom w quantity := by
  have hidle : PositionMove.takeFrom w 0 = w := by simp [PositionMove.takeFrom]
  by_cases hclosing : r.isClosing = true
  · rw [move_of_closing hclosing]
    split
    · exact ⟨0, le_rfl, hidle.symm⟩
    · exact ⟨r.absQuantity, absQuantity_nonneg r, rfl⟩
  · have hclosing := Bool.eq_false_iff.mpr hclosing
    rw [takesFromNet, hclosing, Bool.false_or, Bool.and_eq_true, decide_eq_true_eq] at h
    by_cases hmoney : r.isMoneyMovement = true
    · exact ⟨0, le_rfl, by simp [TxnRow.move, hmoney, BookMove.apply, hidle]⟩
    · rw [move_of_bare (Bool.eq_false_iff.mpr hmoney) hclosing h.1, BookMove.apply, if_pos h.2]
      exact ⟨_, abs_nonneg _, rfl⟩

/-- What is taken from a net leaves it on its side, and no larger. -/
theorem takeFrom_towardZero {quantity : ℚ} (h : 0 ≤ quantity) :
    |PositionMove.takeFrom w quantity| ≤ |w| ∧
      (0 ≤ w → 0 ≤ PositionMove.takeFrom w quantity) ∧
      (w ≤ 0 → PositionMove.takeFrom w quantity ≤ 0) := by
  refine ⟨?_, fun hw => ?_, fun hw => ?_⟩
  · rw [PositionMove.abs_takeFrom h]
    exact sub_le_self _ (le_min h (abs_nonneg w))
  · rw [takeFrom_of_nonneg hw h]
    exact le_max_right _ _
  · rw [BookMove.takeFrom_of_nonpos hw]
    exact min_le_right _ _

theorem openedAt_nonneg (w : ℚ) (r : TxnRow) : 0 ≤ openedAt w r := by
  unfold openedAt
  split
  · exact le_rfl
  · exact absQuantity_nonneg r

/-- A row adds at most what it opens. -/
theorem abs_apply_le (w : ℚ) (r : TxnRow) : |r.move.apply w| ≤ |w| + openedAt w r := by
  by_cases htakes : takesFromNet w r = true
  · obtain ⟨quantity, hq, happly⟩ := apply_of_takesFromNet htakes
    rw [happly]
    exact (takeFrom_towardZero hq).1.trans (le_add_of_nonneg_right (openedAt_nonneg w r))
  · have hnot := htakes
    simp only [takesFromNet, Bool.or_eq_true, not_or, Bool.and_eq_true, decide_eq_true_eq,
      not_and] at hnot
    obtain ⟨hclosing, hbare⟩ := hnot
    have hsettles : r.isNontradeClose = false ∧ isClosingAction r.action = false := by
      simpa [TxnRow.isClosing, and_comm] using hclosing
    have hadd : |w + r.actionDelta| ≤ |w| + r.absQuantity := by
      rw [← abs_actionDelta]
      exact abs_add_le _ _
    unfold TxnRow.move openedAt
    cases hmoney : r.isMoneyMovement with
    | true => simp [BookMove.apply]
    | false =>
      cases htruthy : truthy r.action with
      | false => simp [hsettles, BookMove.apply]
      | true =>
        cases hb : isBareAction r.action with
        | false => simpa [hsettles, htakes, BookMove.apply] using hadd
        | true => simpa [hsettles, htakes, BookMove.apply, hbare hb] using hadd

end Step

/-! ## The walk -/

/-- A net is the walk of the rows of its security. -/
theorem netAfter_eq (walked : List TxnRow) (sid : String) :
    netAfter walked sid = walkNet 0 (walked.filter fun r => r.sid = sid) := by
  rw [netAfter, get?_foldl_netWalk, getD_foldl_stepOption, Dict.get?_empty, Option.getD_none]

theorem netAfter_concat (walked : List TxnRow) (r : TxnRow) (sid : String) :
    netAfter (walked ++ [r]) sid =
      if r.sid = sid then r.move.apply (netAfter walked sid) else netAfter walked sid := by
  rw [netAfter_eq, netAfter_eq, List.filter_append]
  by_cases h : r.sid = sid <;> simp [h]

theorem openedOver_nonneg (w : ℚ) (rows : List TxnRow) : 0 ≤ openedOver w rows := by
  induction rows generalizing w with
  | nil => exact le_rfl
  | cons r rows ih => exact add_nonneg (openedAt_nonneg w r) (ih _)

theorem openedOver_append (w : ℚ) (rows rows' : List TxnRow) :
    openedOver w (rows ++ rows') = openedOver w rows + openedOver (walkNet w rows) rows' := by
  induction rows generalizing w with
  | nil => rw [List.nil_append, openedOver, zero_add, walkNet_nil]
  | cons r rows ih =>
    rw [List.cons_append, openedOver, openedOver, ih, walkNet_cons, getD_groupNetStep, add_assoc]

/-- A net holds at most what was held and opened. -/
theorem abs_walkNet_le (w : ℚ) (rows : List TxnRow) :
    |walkNet w rows| ≤ |w| + openedOver w rows := by
  induction rows generalizing w with
  | nil => rw [walkNet_nil, openedOver, add_zero]
  | cons r rows ih =>
    rw [walkNet_cons, openedOver, getD_groupNetStep]
    calc |walkNet (r.move.apply w) rows|
        ≤ |r.move.apply w| + openedOver (r.move.apply w) rows := ih _
      _ ≤ |w| + openedAt w r + openedOver (r.move.apply w) rows :=
          add_le_add_left (abs_apply_le w r) _
      _ = |w| + (openedAt w r + openedOver (r.move.apply w) rows) := add_assoc _ _ _

/-! ## The peaks -/

section Peaks

variable {walked : List TxnRow} {rows : List TxnRow} {sid : String}

theorem foldl_peakWalk_fst (l : List TxnRow) (w : Dict String ℚ × Dict String ℚ) :
    (l.foldl peakWalk w).1 = l.foldl netWalk w.1 := by
  induction l generalizing w with
  | nil => rfl
  | cons r l ih =>
    have hstep : (peakWalk w r).1 = netWalk w.1 r := by
      unfold peakWalk netWalk
      split <;> rfl
    rw [List.foldl_cons, ih, hstep, List.foldl_cons]

/-- The walk sets a peak wherever it sets a net. -/
theorem keys_foldl_peakWalk (l : List TxnRow) (w : Dict String ℚ × Dict String ℚ)
    (h : w.2.keys = w.1.keys) : (l.foldl peakWalk w).2.keys = (l.foldl peakWalk w).1.keys := by
  induction l generalizing w with
  | nil => exact h
  | cons r l ih =>
    refine ih _ ?_
    unfold peakWalk
    split
    · rw [Dict.keys_set, Dict.keys_set, h]
    · exact h

/-- A walked prefix of one more row. -/
theorem prefixNets_concat (l : List TxnRow) (r : TxnRow) (sid : String) :
    {q | ∃ walked, walked <+: l ++ [r] ∧ q = |netAfter walked sid|} =
      insert |netAfter (l ++ [r]) sid|
        {q | ∃ walked, walked <+: l ∧ q = |netAfter walked sid|} := by
  ext q
  simp only [List.prefix_concat_iff, Set.mem_ofPred_eq, Set.mem_insert_iff]
  constructor
  · rintro ⟨walked, rfl | hpre, rfl⟩
    · exact Or.inl rfl
    · exact Or.inr ⟨walked, hpre, rfl⟩
  · rintro (rfl | ⟨walked, hpre, rfl⟩)
    · exact ⟨_, Or.inl rfl, rfl⟩
    · exact ⟨walked, Or.inr hpre, rfl⟩

/-- **A peak is the greatest size of the net along the walk.** -/
theorem isGreatest_foldl_peakWalk (l : List TxnRow) (sid : String) :
    IsGreatest {q | ∃ walked, walked <+: l ∧ q = |netAfter walked sid|}
      (((l.foldl peakWalk (Dict.empty, Dict.empty)).2.get? sid).getD 0) := by
  induction l using List.reverseRecOn with
  | nil =>
    have hzero : |netAfter [] sid| = 0 := by simp [netAfter]
    refine ⟨⟨[], List.prefix_rfl, hzero.symm⟩, ?_⟩
    rintro q ⟨walked, hpre, rfl⟩
    rw [List.prefix_nil.mp hpre, hzero]
    exact le_rfl
  | append_singleton l r ih =>
    have hnet := netAfter_concat l r sid
    have hle : |netAfter l sid| ≤ ((l.foldl peakWalk (Dict.empty, Dict.empty)).2.get? sid).getD 0 :=
      ih.2 ⟨l, List.prefix_rfl, rfl⟩
    rw [prefixNets_concat]
    have hpeak : (((l ++ [r]).foldl peakWalk (Dict.empty, Dict.empty)).2.get? sid).getD 0 =
        max |netAfter (l ++ [r]) sid|
          (((l.foldl peakWalk (Dict.empty, Dict.empty)).2.get? sid).getD 0) := by
      have hget := congrArg Prod.snd
        (get?_peakWalk (l.foldl peakWalk (Dict.empty, Dict.empty)) r sid)
      simp only [] at hget
      have hfst : (((l.foldl peakWalk (Dict.empty, Dict.empty)).1.get? sid).getD 0) =
          netAfter l sid := by rw [foldl_peakWalk_fst, netAfter]
      rw [List.foldl_append, List.foldl_cons, List.foldl_nil, hget, hnet]
      split_ifs with hsid
      · unfold exposureStep
        rw [← getD_groupNetStep, hfst]
        cases groupNetStep (netAfter l sid) r with
        | none => exact (max_eq_right hle).symm
        | some stepped => exact max_comm _ _
      · exact (max_eq_right hle).symm
    rw [hpeak]
    exact ih.insert _

end Peaks

/-- **The group walk obeys its laws.** -/
theorem groupWalkLaws (rows : List TxnRow) : GroupWalkLaws rows where
  towardZero before r after _ htakes := by
    obtain ⟨quantity, hq, happly⟩ := apply_of_takesFromNet htakes
    rw [netAfter_concat, if_pos rfl, happly]
    exact takeFrom_towardZero hq
  closesOnly h := by
    refine Dict.entries_eq_nil_iff.mpr fun sid => ?_
    by_contra hne
    obtain ⟨r, hr, -, -, henters⟩ := (get?_netQuantities_ne_none_iff rows sid).mp hne
    rw [enters_of_closing (h r hr)] at henters
    cases henters
  sameKeys := by
    rw [peakExposures, keys_foldl_peakWalk _ _ rfl, foldl_peakWalk_fst]
    rfl
  peak sid p h := by
    have hgreatest := isGreatest_foldl_peakWalk (orderedPositionRows rows) sid
    rw [peakExposures] at h
    rwa [h, Option.getD_some] at hgreatest
  opened sid p h := by
    have hgreatest := isGreatest_foldl_peakWalk (orderedPositionRows rows) sid
    rw [peakExposures] at h
    rw [h, Option.getD_some] at hgreatest
    obtain ⟨walked, ⟨rest, hrest⟩, rfl⟩ := hgreatest.1
    have hle := abs_walkNet_le 0 (walked.filter fun r => r.sid = sid)
    rw [abs_zero, zero_add, ← netAfter_eq] at hle
    refine hle.trans ?_
    rw [openedIn, rowsIn, ← hrest, List.filter_append, openedOver_append]
    exact le_add_of_nonneg_right (openedOver_nonneg _ _)

end TtLedger
