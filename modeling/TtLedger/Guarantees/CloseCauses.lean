import TtLedger.Ingest.WalkLaws

/-!
# The causes of a closed group

The status of a fully closed group is read off its rows' labels (`closeCauses`). The walk knows
which rows closed something: those that reduced the net they found (`RealCause`). Every real cause
is a label. A label is real where its row finds a position to close, or another row of its security
with that cause does (`Supported`): the labels then name the real causes, and where each cause is
named in one security only it is the only way in which they can (`namesRealCauses_of_supported`).
A bare trade that opened a position which then expired is labelled a close
(`BoughtAndExpired.not_realCause_closed`).
-/

namespace TtLedger

/-! ## Rows that close -/

/-- The cause of a row that closes: the status of a settlement, else a trade. -/
def TxnRow.cause (r : TxnRow) : Option TradeGroupStatus :=
  if r.isNontradeClose then (rdEventBySubtype r.transactionSubType).bind statusByEvent
  else if isClosingAction r.action || isBareAction r.action then some .closed
  else none

/-- A row at its place in the walk of its security, with the net it finds there. -/
def FoundBy (rows : List TxnRow) (r : TxnRow) (w : ℚ) : Prop :=
  ∃ before after, rowsIn rows r.sid = before ++ r :: after ∧ walkNet 0 before = w

/-- A row steps the net it finds to a smaller one. -/
def Reduces (w : ℚ) (r : TxnRow) : Prop :=
  ∃ stepped, groupNetStep w r = some stepped ∧ |stepped| < |w|

/-- A cause of some row that reduced the net it found. -/
def RealCause (rows : List TxnRow) (c : TradeGroupStatus) : Prop :=
  ∃ r w, FoundBy rows r w ∧ r.cause = some c ∧ Reduces w r

/-- A closing row, or a bare trade, finds a position to close: any position, or one on the other
side. -/
def TxnRow.finds (w : ℚ) (r : TxnRow) : Prop :=
  r.isMoneyMovement = false ∧ r.absQuantity ≠ 0 ∧
    (if r.isClosing then w ≠ 0 else w * r.actionDelta < 0)

section Rows

variable {rows : List TxnRow} {r : TxnRow} {c : TradeGroupStatus} {w : ℚ}

theorem FoundBy.mem_rowsIn (h : FoundBy rows r w) : r ∈ rowsIn rows r.sid := by
  obtain ⟨before, after, hplace, -⟩ := h
  rw [hplace]
  exact List.mem_append_right _ List.mem_cons_self

theorem reduces_iff : Reduces w r ↔ |r.move.apply w| < |w| := by
  rw [← getD_groupNetStep, Reduces]
  cases groupNetStep w r with
  | none => simp
  | some stepped => simp

/-- A close reduces a position when both are there. -/
theorem abs_takeFrom_lt_iff {quantity : ℚ} (h : 0 ≤ quantity) :
    |PositionMove.takeFrom w quantity| < |w| ↔ quantity ≠ 0 ∧ w ≠ 0 := by
  rw [PositionMove.abs_takeFrom h, sub_lt_self_iff, lt_min_iff, abs_pos, h.lt_iff_ne']

/-- A row with a cause reduces the net it finds exactly when it finds a position to close. -/
theorem reduces_iff_finds (hcause : r.cause = some c) : Reduces w r ↔ r.finds w := by
  rw [reduces_iff, TxnRow.finds]
  cases hclosing : r.isClosing with
  | true =>
    rw [move_of_closing hclosing]
    cases hmoney : r.isMoneyMovement with
    | true => simp [BookMove.apply]
    | false => simp [BookMove.apply, abs_takeFrom_lt_iff (absQuantity_nonneg r)]
  | false =>
    obtain ⟨hclose, hnon⟩ := Bool.or_eq_false_iff.mp hclosing
    have hbare : isBareAction r.action = true := by
      by_contra hnot
      simp [TxnRow.cause, hnon, hclose, hnot] at hcause
    cases hmoney : r.isMoneyMovement with
    | true => simp [TxnRow.move, hmoney, BookMove.apply]
    | false =>
      rw [move_of_bare hmoney hclosing hbare, BookMove.apply, ← abs_actionDelta]
      by_cases hopp : w * r.actionDelta < 0
      · have hw : w ≠ 0 := by
          rintro rfl
          simp at hopp
        have hdelta : r.actionDelta ≠ 0 := by
          intro hzero
          simp [hzero] at hopp
        rw [if_pos hopp, abs_takeFrom_lt_iff (abs_nonneg _)]
        simp [hopp, hw, hdelta]
      · rw [if_neg hopp]
        simp [hopp, PositionMove.abs_le_abs_add hopp]

/-! ## Labels -/

/-- A security that some row with a quantity opened, in intent or as a bare trade. -/
def Traded (rows : List TxnRow) (sid : String) : Prop :=
  ∃ m ∈ rows, m.isPosition = true ∧ m.sid = sid ∧ m.enters = true

/-- A row names its cause, a bare trade only in a security that was traded. -/
def CausedBy (rows : List TxnRow) (r : TxnRow) (c : TradeGroupStatus) : Prop :=
  r.cause = some c ∧ (r.isClosing = true ∨ truthy r.securityId = true ∧ Traded rows r.sid)

theorem mem_closeCauses (h : fullyClosed rows) :
    c ∈ closeCauses rows ↔ ∃ r ∈ rows, CausedBy rows r c := by
  rw [closeCauses, List.mem_eraseDups, List.mem_filterMap]
  refine exists_congr fun r => and_congr_right fun _ => ?_
  unfold closeCause CausedBy TxnRow.cause TxnRow.isClosing Traded
  rw [← get?_netQuantities_eq_zero_iff h]
  cases r.isNontradeClose <;> cases isClosingAction r.action <;> cases isBareAction r.action <;>
    simp [and_comm]

/-- A row that finds a position to close names its cause. -/
theorem FoundBy.causedBy (h : FoundBy rows r w) (hcause : r.cause = some c) (hfinds : r.finds w) :
    CausedBy rows r c := by
  obtain ⟨hmem, hpos, -⟩ := TtLedger.mem_rowsIn.mp h.mem_rowsIn
  refine ⟨hcause, ?_⟩
  cases hclosing : r.isClosing with
  | true => exact Or.inl rfl
  | false =>
    refine Or.inr ⟨(Bool.and_eq_true_iff.mp hpos).1, r, hmem, hpos, rfl, ?_⟩
    obtain ⟨hclose, hnon⟩ := Bool.or_eq_false_iff.mp hclosing
    have hbare : isBareAction r.action = true := by
      by_contra hnot
      simp [TxnRow.cause, hnon, hclose, hnot] at hcause
    simp [TxnRow.enters, hfinds.1, hnon, truthy_of_bare hbare, hclose]

/-- Every real cause is named. -/
theorem mem_closeCauses_of_real (h : fullyClosed rows) (hreal : RealCause rows c) :
    c ∈ closeCauses rows := by
  obtain ⟨r, w, hfound, hcause, hreduces⟩ := hreal
  have hnamed := hfound.causedBy hcause ((reduces_iff_finds hcause).mp hreduces)
  exact (mem_closeCauses h).mpr ⟨r, (mem_rowsIn.mp hfound.mem_rowsIn).1, hnamed⟩

/-! ## The status -/

theorem cause_ne_mixed (h : r.cause = some c) : c ≠ .mixed := by
  rintro rfl
  unfold TxnRow.cause at h
  split at h
  · unfold rdEventBySubtype at h
    split at h <;> simp [statusByEvent] at h
  · split at h <;> simp at h

theorem closeCauses_eq_singleton_iff :
    closeCauses rows = [c] ↔ ∀ c', c' ∈ closeCauses rows ↔ c' = c := by
  have hnodup : (closeCauses rows).Nodup := nodup_eraseDups _
  rw [← List.perm_singleton, List.perm_ext_iff_of_nodup hnodup (List.nodup_singleton c)]
  simp

theorem closedStatus_of_singleton (h : closeCauses rows = [c]) : closedStatus rows = c := by
  rw [closedStatus, h]

/-- The status is mixed unless there is exactly one cause. -/
theorem closedStatus_eq_mixed_iff (h : fullyClosed rows) :
    closedStatus rows = .mixed ↔ ∀ c, closeCauses rows ≠ [c] := by
  constructor
  · intro hmixed c hone
    obtain ⟨r, -, hcause, -⟩ := (mem_closeCauses h).mp (hone ▸ List.mem_singleton_self c)
    exact cause_ne_mixed hcause ((closedStatus_of_singleton hone).symm.trans hmixed)
  · intro hnone
    unfold closedStatus
    split
    · rename_i c hone
      exact absurd hone (hnone c)
    · rfl

/-- The labels of a group's rows are the causes that closed it, and the status says so. -/
structure NamesRealCauses (rows : List TxnRow) : Prop where
  causes : ∀ c, c ∈ closeCauses rows ↔ RealCause rows c
  unique : ∀ c, RealCause rows c → (∀ c', RealCause rows c' → c' = c) → closedStatus rows = c
  mixed : closedStatus rows = .mixed ↔ ∃ c c', c ≠ c' ∧ RealCause rows c ∧ RealCause rows c'

/-- A row closes something in a security, for a cause: it finds a position there where it falls. -/
def ClosesIn (rows : List TxnRow) (sid : String) (c : TradeGroupStatus) : Prop :=
  ∃ m w, FoundBy rows m w ∧ m.sid = sid ∧ m.cause = some c ∧ m.finds w

/-- A row that names a cause finds a position to close, or another row of its security with that
cause does; and something is closed at all. -/
structure Supported (rows : List TxnRow) : Prop where
  labels : ∀ r ∈ rows, ∀ c, CausedBy rows r c → ClosesIn rows r.sid c
  some_close : ∃ sid c, ClosesIn rows sid c

/-- Each cause is named in one security only. -/
def NamedOnce (rows : List TxnRow) : Prop :=
  ∀ r ∈ rows, ∀ r' ∈ rows, ∀ c, CausedBy rows r c → CausedBy rows r' c → r.sid = r'.sid

/-- The labels name the real causes exactly when each is the cause of some row that closes
something, in whichever security, and there is such a row. -/
theorem namesRealCauses_iff (h : fullyClosed rows) :
    NamesRealCauses rows ↔
      (∀ r ∈ rows, ∀ c, CausedBy rows r c → ∃ sid, ClosesIn rows sid c) ∧
        ∃ sid c, ClosesIn rows sid c := by
  have hreal : ∀ c, RealCause rows c ↔ ∃ sid, ClosesIn rows sid c := by
    intro c
    constructor
    · rintro ⟨m, w, hfound, hcause, hreduces⟩
      exact ⟨m.sid, m, w, hfound, rfl, hcause, (reduces_iff_finds hcause).mp hreduces⟩
    · rintro ⟨sid, m, w, hfound, -, hcause, hfinds⟩
      exact ⟨m, w, hfound, hcause, (reduces_iff_finds hcause).mpr hfinds⟩
  constructor
  · intro hnames
    refine ⟨fun r hr c hc => (hreal c).mp ((hnames.causes c).mp ?_), ?_⟩
    · exact (mem_closeCauses h).mpr ⟨r, hr, hc⟩
    · by_contra hnone
      have hno : ∀ c, ¬ RealCause rows c := by
        intro c hc
        obtain ⟨sid, hcloses⟩ := (hreal c).mp hc
        exact hnone ⟨sid, c, hcloses⟩
      have hmixed : closedStatus rows = .mixed :=
        (closedStatus_eq_mixed_iff h).mpr fun c hone =>
          hno c ((hnames.causes c).mp (hone ▸ List.mem_singleton_self c))
      obtain ⟨c, -, -, hc, -⟩ := hnames.mixed.mp hmixed
      exact hno c hc
  · rintro ⟨hlabels, sid, c₀, hcloses⟩
    have hcauses : ∀ c, c ∈ closeCauses rows ↔ RealCause rows c := by
      refine fun c => ⟨fun hc => ?_, mem_closeCauses_of_real h⟩
      obtain ⟨r, hr, hnamed⟩ := (mem_closeCauses h).mp hc
      exact (hreal c).mpr (hlabels r hr c hnamed)
    have hsome : RealCause rows c₀ := (hreal c₀).mpr ⟨sid, hcloses⟩
    refine ⟨hcauses, fun c hc honly => ?_, ?_⟩
    · refine closedStatus_of_singleton (closeCauses_eq_singleton_iff.mpr fun c' => ?_)
      rw [hcauses]
      exact ⟨honly c', fun heq => heq ▸ hc⟩
    · rw [closedStatus_eq_mixed_iff h]
      simp only [ne_eq, closeCauses_eq_singleton_iff, hcauses]
      constructor
      · intro hnot
        obtain ⟨c', hc'⟩ := not_forall.mp (hnot c₀)
        by_cases heq : c' = c₀
        · exact absurd (iff_of_true (heq ▸ hsome) heq) hc'
        · exact ⟨c', c₀, heq, by_contra fun hno => hc' (iff_of_false hno heq), hsome⟩
      · rintro ⟨c, c', hne, hc, hc'⟩ d hd
        exact hne (((hd c).mp hc).trans ((hd c').mp hc').symm)

end Rows

/-! ## A purchase that expired -/

namespace BoughtAndExpired

/-- A future bought without intent. -/
def bought : TxnRow := .fill "main" "T-1" "1001" "Buy" "future:F" 1 (10 * second)

/-- Its expiration. -/
def expiration : TxnRow where
  ttTransactionId := "T-2"
  account := "main"
  transactionType := some "Receive Deliver"
  transactionSubType := some "Expiration"
  securityId := some "future:F"
  quantity := some 1
  executedAt := some (20 * second)

theorem fullyClosed_rows : fullyClosed [bought, expiration] := by decide +kernel

theorem rowsIn_rows : rowsIn [bought, expiration] "future:F" = [bought, expiration] := by
  decide +kernel

/-- The purchase found nothing to close, and it is named as a close. -/
theorem not_realCause_closed : ¬ RealCause [bought, expiration] .closed := by
  rintro ⟨r, w, hplaced, hcause, hreduces⟩
  obtain ⟨hmem, -, -⟩ := mem_rowsIn.mp hplaced.mem_rowsIn
  obtain ⟨before, after, hplace, hfound⟩ := hplaced
  rcases List.mem_pair.mp hmem with rfl | rfl
  · have hfirst : before = [] := by
      have hsplit : [bought, expiration] = before ++ bought :: after :=
        rowsIn_rows.symm.trans hplace
      rcases before with _ | ⟨a, before⟩
      · rfl
      · obtain ⟨-, htail⟩ := List.cons.inj hsplit
        rcases before with _ | ⟨b, before⟩
        · exact absurd (List.cons.inj htail).1 (by decide +kernel)
        · exact absurd (List.cons.inj htail).2 (by simp)
    rw [hfirst, walkNet_nil] at hfound
    rw [reduces_iff, ← hfound, abs_zero] at hreduces
    exact absurd hreduces (abs_nonneg _).not_gt
  · exact absurd hcause (by decide +kernel)

/-- The future sold instead. -/
def sold : TxnRow := .fill "main" "T-3" "1002" "Sell" "future:F" 1 (20 * second)

end BoughtAndExpired

end TtLedger
