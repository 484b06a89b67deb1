import TtLedger.Ingest.DrawLaws
import TtLedger.Ingest.WalkLaws

/-!
# Attaching by membership

A closing row that no open group can offset is attached to the first group that has traded its
security. The group's walk closes by the action's label, whichever side the group holds, so the
row is harmless only when it finds nothing to close where it falls in time, or when a later row
leaves the net flat with it and without it (`LeavesNet`, `unmoved_concat_iff`). A `Buy to Close`
attached to a group that is long closes it (`LongGroup.fallsBack`).
-/

namespace TtLedger

open PositionMove (takeFrom)

/-! ## What a closing row leaves -/

/-- The nets and the closure of a group's rows are those of `rows`. -/
def Unmoved (rows rows' : List TxnRow) : Prop :=
  (∀ sid, (netQuantities rows').get? sid = (netQuantities rows).get? sid) ∧
    fullyClosed rows' = fullyClosed rows

/-- The net in a row's security where the row falls in time. -/
def netBefore (rows : List TxnRow) (r : TxnRow) : ℚ := netIn (notAfter rows r) r.sid

/-- A closing row carries no position, or finds none, or a later row leaves the net flat with it
and without it. -/
def LeavesNet (rows : List TxnRow) (r : TxnRow) : Prop :=
  r.isPosition = false ∨ r.isMoneyMovement = true ∨ r.absQuantity = 0 ∨ netBefore rows r = 0 ∨
    ∃ before m after, rowsIn (rowsAfter rows r) r.sid = before ++ m :: after ∧
      walkNet (takeFrom (netBefore rows r) r.absQuantity) (before ++ [m]) = 0 ∧
      walkNet (netBefore rows r) (before ++ [m]) = 0

/-- A settlement that carries an opening action, the first one among rows whose nets are flat. -/
def OpensFlat (rows : List TxnRow) (r : TxnRow) : Prop :=
  (r.isOpening || isBareAction r.action) = true ∧ openedSomething rows = false ∧
    (∃ sid, (netQuantities rows).get? sid ≠ none) ∧ ∀ sid, netIn rows sid = 0

section Closing

variable {rows : List TxnRow} {r : TxnRow}

/-- A close takes nothing exactly when there is nothing to take or to be taken. -/
theorem takeFrom_eq_self_iff {w quantity : ℚ} (h : 0 ≤ quantity) :
    takeFrom w quantity = w ↔ quantity = 0 ∨ w = 0 := by
  constructor
  · intro heq
    have habs := PositionMove.abs_takeFrom (w := w) h
    rw [heq] at habs
    have hmin : min quantity |w| = 0 := by linarith
    rcases min_choice quantity |w| with hq | hw
    · exact Or.inl (hq.symm.trans hmin)
    · exact Or.inr (abs_eq_zero.mp (hw.symm.trans hmin))
  · rintro (rfl | rfl)
    · simp [takeFrom]
    · exact takeFrom_zero_left h

/-- The walk with a closing row reaches the net of the walk without it. -/
theorem netIn_concat_iff (h : r.isClosing) (hpos : r.isPosition) :
    netIn (rows ++ [r]) r.sid = netIn rows r.sid ↔ LeavesNet rows r := by
  have hwith : netIn (rows ++ [r]) r.sid =
      walkNet (r.move.apply (netBefore rows r)) (rowsIn (rowsAfter rows r) r.sid) := by
    rw [netIn_eq_walkNet, rowsIn_concat rows hpos, walkNet_append, walkNet_cons, netBefore,
      netIn_eq_walkNet]
  have hwithout : netIn rows r.sid =
      walkNet (netBefore rows r) (rowsIn (rowsAfter rows r) r.sid) := by
    rw [netIn_eq_walkNet, rowsIn_split rows r, walkNet_append, netBefore, netIn_eq_walkNet]
  rw [hwith, hwithout, walkNet_eq_iff, move_of_closing h, LeavesNet]
  cases hmoney : r.isMoneyMovement with
  | true => simp [BookMove.apply]
  | false =>
    have hself := takeFrom_eq_self_iff (w := netBefore rows r) (absQuantity_nonneg r)
    simp only [Bool.false_eq_true, if_false, BookMove.apply, hself, hpos, false_or, or_assoc]
    simp

theorem isSome_netQuantities_concat (h : r.isClosing) (sid : String) :
    ((netQuantities (rows ++ [r])).get? sid).isSome = ((netQuantities rows).get? sid).isSome := by
  rw [Bool.eq_iff_iff, Option.isSome_iff_ne_none, Option.isSome_iff_ne_none,
    get?_netQuantities_ne_none_iff, get?_netQuantities_ne_none_iff]
  constructor
  · rintro ⟨m, hm, hpos, hsid, henters⟩
    rcases List.mem_append.mp hm with hm | hm
    · exact ⟨m, hm, hpos, hsid, henters⟩
    · rw [List.mem_singleton.mp hm, enters_of_closing h] at henters
      cases henters
  · rintro ⟨m, hm, hrest⟩
    exact ⟨m, List.mem_append_left _ hm, hrest⟩

/-- A closing row leaves the nets exactly when it leaves its own. -/
theorem netQuantities_concat_iff (h : r.isClosing) :
    (∀ sid, (netQuantities (rows ++ [r])).get? sid = (netQuantities rows).get? sid) ↔
      LeavesNet rows r := by
  constructor
  · intro hall
    cases hpos : r.isPosition with
    | false => exact Or.inl hpos
    | true =>
      refine (netIn_concat_iff h hpos).mp ?_
      rw [netIn, hall, netIn]
  · intro hleaves sid
    by_cases hother : r.isPosition = false ∨ r.sid ≠ sid
    · rw [get?_netQuantities, get?_netQuantities, rowsIn_concat_of_ne rows hother]
    · obtain ⟨hpos, hsid⟩ := not_or.mp hother
      obtain rfl := not_not.mp hsid
      have hnet := (netIn_concat_iff h (by simpa using hpos)).mpr hleaves
      have hsome : ((netQuantities (rows ++ [r])).get? r.sid).isSome =
          ((netQuantities rows).get? r.sid).isSome := isSome_netQuantities_concat h r.sid
      rw [netIn, netIn] at hnet
      cases hwith : (netQuantities (rows ++ [r])).get? r.sid with
      | none =>
        rw [hwith] at hsome
        exact (Option.isSome_eq_false_iff.mp hsome.symm |> Option.isNone_iff_eq_none.mp).symm
      | some q =>
        obtain ⟨q', hwithout⟩ := Option.isSome_iff_exists.mp (by rw [← hsome, hwith]; rfl)
        rw [hwith, hwithout, Option.getD_some, Option.getD_some] at hnet
        rw [hwithout, hnet]

/-- **Attaching a closing row** changes neither the nets nor the closure exactly when it leaves
its own net and is not the first opening of a flat group. -/
theorem unmoved_concat_iff (h : r.isClosing) :
    Unmoved rows (rows ++ [r]) ↔ LeavesNet rows r ∧ ¬ OpensFlat rows r := by
  rw [Unmoved, netQuantities_concat_iff h]
  refine and_congr_right fun hleaves => ?_
  have hnets := (netQuantities_concat_iff h).mpr hleaves
  have hopened : openedSomething (rows ++ [r]) =
      (openedSomething rows || (r.isOpening || isBareAction r.action)) := by
    simp [openedSomething]
  rw [Bool.eq_iff_iff, fullyClosed_iff, fullyClosed_iff, hopened, OpensFlat]
  simp only [netIn, hnets]
  cases openedSomething rows <;> cases r.isOpening || isBareAction r.action <;> simp

end Closing

/-! ## The fallback -/

/-- A row of a cluster, after those in `done`, placed by membership: it closes, no open group holds
a net it offsets, and it lands on the group. -/
structure FallsBack (openGroups : List OpenGroup) (cluster : List ActivityRow)
    (done : List Routed) (t : Routed) (g : OpenGroup) : Prop where
  place : done ++ [t] <+: clusterTrace openGroups cluster
  closing : t.row.isClosing
  noOffset : ∀ e ∈ t.before, offsets (netLeft t.row.sid e) t.row.closingDelta = false
  landing : t.landing = some g

/-- The rows of a trace that a group was given. -/
def givenTo (done : List Routed) (g : OpenGroup) : List TxnRow :=
  (done.filter fun t => t.landing.any fun g' => g'.pk = g.pk).map fun t => t.row.toTxnRow

/-- The members of a group with the rows it was given so far. -/
def membersAt (done : List Routed) (g : OpenGroup) : List TxnRow :=
  (g.extendUnique (givenTo done g)).rows

/-- **The membership fallback**: a row placed by it is harmless exactly when the group holds it
already, or when it leaves the net where it falls in time and opens no flat group. -/
theorem unmoved_fallback_iff {openGroups : List OpenGroup} {cluster : List ActivityRow}
    {done : List Routed} {t : Routed} {g : OpenGroup}
    (hfalls : FallsBack openGroups cluster done t g) :
    Unmoved (membersAt done g) (membersAt (done ++ [t]) g) ↔
      t.row.ttTransactionId ∈ g.rows.map TxnRow.ttTransactionId ∨
        LeavesNet (membersAt done g) t.row.toTxnRow ∧
          ¬ OpensFlat (membersAt done g) t.row.toTxnRow := by
  have hgiven : givenTo (done ++ [t]) g = givenTo done g ++ [t.row.toTxnRow] := by
    simp [givenTo, hfalls.landing]
  have hsplit : membersAt (done ++ [t]) g =
      membersAt done g ++ g.newRows [t.row.toTxnRow] := by
    simp only [membersAt, hgiven, OpenGroup.extendUnique, OpenGroup.newRows, List.filter_append,
      List.append_assoc]
  by_cases hheld : t.row.ttTransactionId ∈ g.rows.map TxnRow.ttTransactionId
  · have hnone : g.newRows [t.row.toTxnRow] = [] :=
      List.filter_cons_of_neg (by rw [decide_eq_true_eq]; exact not_not_intro hheld)
    rw [hsplit, hnone, List.append_nil]
    exact iff_of_true ⟨fun _ => rfl, rfl⟩ (Or.inl hheld)
  · have hnew : g.newRows [t.row.toTxnRow] = [t.row.toTxnRow] :=
      List.filter_cons_of_pos (decide_eq_true hheld)
    rw [hsplit, hnew, unmoved_concat_iff hfalls.closing, or_iff_right hheld]

/-! ## A close of the other side -/

namespace LongGroup

/-- A group that is long one contract. -/
def bought : OpenGroup :=
  ⟨1, [.fill "main" "T-1" "1001" "Buy to Open" "option:X" 1 (10 * second)]⟩

/-- A buy to close, of a short position that the history does not reach. -/
def boughtBack : ActivityRow :=
  { TxnRow.fill "main" "T-2" "1002" "Buy to Close" "option:X" 1 (20 * second) with }

theorem fallsBack :
    FallsBack [bought] [boughtBack] [] (routed [bought] (openNets [bought]) boughtBack) bought where
  place := ⟨[], rfl⟩
  closing := by decide
  noOffset := by decide +kernel
  landing := by decide +kernel

/-- The buy to close flattens the group that is long. -/
theorem not_unmoved : ¬ ∀ (openGroups : List OpenGroup) (cluster : List ActivityRow)
    (done : List Routed) (t : Routed) (g : OpenGroup), FallsBack openGroups cluster done t g →
    Unmoved (membersAt done g) (membersAt (done ++ [t]) g) := by
  intro h
  have hnet := (h _ _ _ _ _ fallsBack).1 "option:X"
  revert hnet
  decide +kernel

theorem unmoved_iff :
    Unmoved (membersAt [] bought)
        (membersAt ([] ++ [routed [bought] (openNets [bought]) boughtBack]) bought) ↔
      boughtBack.ttTransactionId ∈ bought.rows.map TxnRow.ttTransactionId ∨
        LeavesNet (membersAt [] bought) boughtBack.toTxnRow ∧
          ¬ OpensFlat (membersAt [] bought) boughtBack.toTxnRow :=
  unmoved_fallback_iff fallsBack

end LongGroup

end TtLedger
