import TtLedger.Foundations.ClampedWalk
import TtLedger.Ingest.NetLaws

/-!
# The net walk as moves of a book

Each row moves its group's net in its security in one of four ways, whatever the net is
(`TxnRow.move`): not at all, as a close of its quantity, as a signed change, or as a signed change
that closes a position on the other side. A net is the walk of these moves in time order
(`netIn_eq_walkNet`). A row attached later falls into the walk where its time puts it
(`rowsIn_concat`), and leaves the walks of the other securities (`rowsIn_concat_of_ne`).
-/

namespace TtLedger

/-! ## What a row does to a net -/

theorem isOpeningAction_eq_true {action : Option String} :
    isOpeningAction action = true ↔ action = some "Buy to Open" ∨ action = some "Sell to Open" := by
  simp [isOpeningAction]

theorem isClosingAction_eq_true {action : Option String} :
    isClosingAction action = true ↔
      action = some "Sell to Close" ∨ action = some "Buy to Close" := by
  simp [isClosingAction]

theorem isBareAction_eq_true {action : Option String} :
    isBareAction action = true ↔ action = some "Buy" ∨ action = some "Sell" := by
  simp [isBareAction]

theorem abs_actionDelta (r : TxnRow) : |r.actionDelta| = r.absQuantity := by
  unfold TxnRow.actionDelta TxnRow.absQuantity
  split <;> simp

theorem absQuantity_nonneg (r : TxnRow) : 0 ≤ r.absQuantity := abs_nonneg _

/-- What a row does to its group's net in its security. -/
def TxnRow.move (r : TxnRow) : BookMove ℚ :=
  if r.isMoneyMovement then .idle
  else if r.isNontradeClose then .take r.absQuantity
  else if !truthy r.action then .idle
  else if isClosingAction r.action then .take r.absQuantity
  else if isBareAction r.action then .offset r.actionDelta
  else .add r.actionDelta

theorem clampToward_eq_takeFrom (w quantity : ℚ) :
    clampToward w quantity = PositionMove.takeFrom w quantity := rfl

@[simp] theorem takeFrom_zero_left {quantity : ℚ} (h : 0 ≤ quantity) :
    PositionMove.takeFrom 0 quantity = 0 := by
  simp [PositionMove.takeFrom, h]

/-- A step of the walk is the row's move. -/
theorem getD_groupNetStep (w : ℚ) (r : TxnRow) :
    (groupNetStep w r).getD w = r.move.apply w := by
  have hflat : PositionMove.takeFrom 0 r.absQuantity = 0 :=
    takeFrom_zero_left (absQuantity_nonneg r)
  unfold groupNetStep TxnRow.move
  cases r.isMoneyMovement with
  | true => rfl
  | false =>
    cases r.isNontradeClose with
    | true =>
      by_cases hw : w = 0
      · simp [hw, BookMove.apply, hflat]
      · simp [hw, BookMove.apply, clampToward_eq_takeFrom]
    | false =>
      cases truthy r.action with
      | false => rfl
      | true =>
        cases hclose : isClosingAction r.action with
        | true =>
          by_cases hw : w = 0
          · simp [hw, BookMove.apply, hflat]
          · simp [hw, BookMove.apply, clampToward_eq_takeFrom, abs_actionDelta]
        | false =>
          cases hbare : isBareAction r.action with
          | false => simp [BookMove.apply]
          | true =>
            by_cases hopp : w * r.actionDelta < 0
            · have hw : w ≠ 0 := by
                rintro rfl
                simp at hopp
              simp [hw, hopp, BookMove.apply, clampToward_eq_takeFrom]
            · simp [hopp, BookMove.apply]

section Kinds

variable {r : TxnRow}

theorem truthy_of_closing {action : Option String} (h : isClosingAction action) :
    truthy action = true := by
  rcases isClosingAction_eq_true.mp h with ha | ha <;> rw [ha] <;> decide

theorem truthy_of_bare {action : Option String} (h : isBareAction action) :
    truthy action = true := by
  rcases isBareAction_eq_true.mp h with ha | ha <;> rw [ha] <;> decide

/-- A closing row takes its quantity, unless it moves money only. -/
theorem move_of_closing (h : r.isClosing) :
    r.move = if r.isMoneyMovement then .idle else .take r.absQuantity := by
  unfold TxnRow.move
  cases hmoney : r.isMoneyMovement with
  | true => rfl
  | false =>
    cases hnon : r.isNontradeClose with
    | true => rfl
    | false =>
      have hclose : isClosingAction r.action = true := by simpa [TxnRow.isClosing, hnon] using h
      simp [hclose, truthy_of_closing hclose]

/-- A closing row never starts the walk of its security. -/
theorem enters_of_closing (h : r.isClosing) : r.enters = false := by
  unfold TxnRow.enters
  rcases Bool.or_eq_true_iff.mp h with h | h <;> simp [h]

/-- A bare trade offsets, unless it moves money only. -/
theorem move_of_bare (hmoney : r.isMoneyMovement = false) (hclosing : r.isClosing = false)
    (hbare : isBareAction r.action) : r.move = .offset r.actionDelta := by
  obtain ⟨hclose, hnon⟩ := Bool.or_eq_false_iff.mp hclosing
  simp [TxnRow.move, hmoney, hnon, hclose, hbare, truthy_of_bare hbare]

end Kinds

/-- The net after rows of one security. -/
def walkNet (w : ℚ) (rows : List TxnRow) : ℚ := rows.foldl (fun w r => r.move.apply w) w

@[simp] theorem walkNet_nil (w : ℚ) : walkNet w [] = w := rfl

@[simp] theorem walkNet_cons (w : ℚ) (r : TxnRow) (rows : List TxnRow) :
    walkNet w (r :: rows) = walkNet (r.move.apply w) rows := rfl

@[simp] theorem walkNet_append (w : ℚ) (rows rows' : List TxnRow) :
    walkNet w (rows ++ rows') = walkNet (walkNet w rows) rows' := List.foldl_append

theorem getD_foldl_stepOption (rows : List TxnRow) (net : Option ℚ) :
    (rows.foldl stepOption net).getD 0 = walkNet (net.getD 0) rows := by
  induction rows generalizing net with
  | nil => rfl
  | cons r rows ih =>
    have hstep : (stepOption net r).getD 0 = r.move.apply (net.getD 0) := by
      rw [← getD_groupNetStep, stepOption]
      cases groupNetStep (net.getD 0) r <;> simp
    rw [List.foldl_cons, ih, hstep, walkNet_cons]

/-- **A net is the walk of its security's rows.** -/
theorem netIn_eq_walkNet (rows : List TxnRow) (sid : String) :
    netIn rows sid = walkNet 0 (rowsIn rows sid) := by
  rw [netIn_eq, getD_foldl_stepOption, Option.getD_none]

/-! ## Rows that only close -/

section Closing

variable {rows : List TxnRow}

theorem move_of_not_enters {r : TxnRow} (h : r.enters = false) :
    r.move = .idle ∨ r.move = .take r.absQuantity := by
  unfold TxnRow.enters at h
  unfold TxnRow.move
  cases hmoney : r.isMoneyMovement <;> cases hnon : r.isNontradeClose <;>
    cases htruthy : truthy r.action <;> cases hclose : isClosingAction r.action <;>
    simp [hmoney, hnon, htruthy, hclose] at h ⊢

theorem abs_takeFrom_eq_max {w quantity : ℚ} (h : 0 ≤ quantity) :
    |PositionMove.takeFrom w quantity| = max (|w| - quantity) 0 := by
  rw [PositionMove.abs_takeFrom h]
  rcases le_total quantity |w| with hle | hle
  · rw [min_eq_left hle, max_eq_left (sub_nonneg.mpr hle)]
  · rw [min_eq_right hle, sub_self, max_eq_right (sub_nonpos.mpr hle)]

/-- Closing twice is closing the sum. -/
theorem max_sub_sub {w a b : ℚ} (hb : 0 ≤ b) :
    max (max (w - a) 0 - b) 0 = max (w - (a + b)) 0 := by
  rcases le_total (w - a) 0 with h | h
  · rw [max_eq_right h, max_eq_right (by linarith), max_eq_right (by linarith)]
  · rw [max_eq_left h, sub_sub]

/-- Rows that open nothing take a fixed quantity of any net, as far as it goes. -/
theorem abs_walkNet_of_not_enters (h : ∀ m ∈ rows, m.enters = false) :
    ∃ taken, 0 ≤ taken ∧ ∀ w, |walkNet w rows| = max (|w| - taken) 0 := by
  induction rows with
  | nil => exact ⟨0, le_rfl, fun w => by rw [walkNet_nil, sub_zero, max_eq_left (abs_nonneg w)]⟩
  | cons m rows ih =>
    obtain ⟨taken, htaken, hwalk⟩ := ih fun m' hm' => h m' (List.mem_cons_of_mem _ hm')
    rcases move_of_not_enters (h m List.mem_cons_self) with hmove | hmove
    · refine ⟨taken, htaken, fun w => ?_⟩
      rw [walkNet_cons, hmove, BookMove.apply, hwalk]
    · refine ⟨m.absQuantity + taken, add_nonneg (absQuantity_nonneg m) htaken, fun w => ?_⟩
      rw [walkNet_cons, hmove, BookMove.apply, hwalk, abs_takeFrom_eq_max (absQuantity_nonneg m),
        max_sub_sub htaken]

/-- Rows that open nothing leave a flat net flat. -/
theorem walkNet_zero_of_not_enters (h : ∀ m ∈ rows, m.enters = false) : walkNet 0 rows = 0 := by
  obtain ⟨taken, htaken, hwalk⟩ := abs_walkNet_of_not_enters h
  have habs := hwalk 0
  rwa [abs_zero, zero_sub, max_eq_right (neg_nonpos.mpr htaken), abs_eq_zero] at habs

end Closing

/-! ## Two walks -/

/-- Two walks of the same rows meet when they start together, or when a row leaves both flat. -/
theorem walkNet_eq_iff (a b : ℚ) (rows : List TxnRow) :
    walkNet a rows = walkNet b rows ↔
      a = b ∨ ∃ before r after, rows = before ++ r :: after ∧
        walkNet a (before ++ [r]) = 0 ∧ walkNet b (before ++ [r]) = 0 :=
  foldl_eq_foldl_iff (fun a b r => BookMove.apply_collapse a b r.move) a b rows

/-! ## A row attached later -/

/-- The rows that do not come after `r`. -/
def notAfter (rows : List TxnRow) (r : TxnRow) : List TxnRow :=
  upTo (fun m => timeKey m.executedAt) rows (timeKey r.executedAt)

/-- The rows that come after `r`. -/
def rowsAfter (rows : List TxnRow) (r : TxnRow) : List TxnRow :=
  beyond (fun m => timeKey m.executedAt) rows (timeKey r.executedAt)

theorem rowsAfter_append (rows rows' : List TxnRow) (r : TxnRow) :
    rowsAfter (rows ++ rows') r = rowsAfter rows r ++ rowsAfter rows' r := List.filter_append _ _

theorem rowsIn_split (rows : List TxnRow) (r : TxnRow) (sid : String) :
    rowsIn rows sid = rowsIn (notAfter rows r) sid ++ rowsIn (rowsAfter rows r) sid := by
  rw [rowsIn_eq, rowsIn_eq, rowsIn_eq, notAfter, rowsAfter, filter_upTo, filter_beyond]
  exact sortOn_split _ _ _

theorem rowsIn_concat (rows : List TxnRow) {r : TxnRow} (h : r.isPosition) :
    rowsIn (rows ++ [r]) r.sid =
      rowsIn (notAfter rows r) r.sid ++ r :: rowsIn (rowsAfter rows r) r.sid := by
  have hlast : (rows ++ [r]).filter (fun m => m.isPosition && decide (m.sid = r.sid)) =
      rows.filter (fun m => m.isPosition && decide (m.sid = r.sid)) ++ [r] := by
    simp [List.filter_append, h]
  rw [rowsIn_eq, hlast, sortOn_concat, rowsIn_eq, rowsIn_eq, notAfter, rowsAfter, filter_upTo,
    filter_beyond]

theorem rowsIn_concat_of_ne (rows : List TxnRow) {r : TxnRow} {sid : String}
    (h : r.isPosition = false ∨ r.sid ≠ sid) : rowsIn (rows ++ [r]) sid = rowsIn rows sid := by
  have hnone : (r.isPosition && decide (r.sid = sid)) = false := by
    rcases h with h | h <;> simp [h]
  rw [rowsIn_eq, rowsIn_eq, List.filter_append]
  simp [hnone]

end TtLedger
