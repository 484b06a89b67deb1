import TtLedger.Foundations.Flows
import TtLedger.Guarantees.ExitAccounting
import TtLedger.Ingest.WalkLaws
import Mathlib.Algebra.Order.BigOperators.Group.List
import Mathlib.Algebra.Order.Group.MinMax

/-!
# Cash-settled pairs retire their contracts once

A cash-settled settlement is two rows for the same contracts, the removal and its money. The
settlement events count the removal rows (`sum_settlementEvents`), so a pair retires once exactly
when each net loses what its removal rows settle (`retiresOnce_iff`).

The net takes every row where its time puts it, and stops at zero. Where nothing opens after the
settlements (`LastIn`), it loses what is settled exactly when the removal rows settle no more than
is held and the money rows find nothing left (`retired_eq_iff_covers`). In general it does when
the settlements are in place at every row of the walk (`SettlesInPlace.retired_eq`): a removal row
finds its contracts, a money row finds nothing, and a later row of the group moves the net as it
did before. A pair that settles one of three contracts retires two
(`PartlySettled.not_retiresOnce`).
-/

namespace TtLedger

open Prog
open PositionMove (takeFrom)

/-! ## Settlements in the walk -/

section Walk

variable {rows : List TxnRow}

theorem enters_of_nontradeClose {s : TxnRow} (h : s.isNontradeClose) : s.enters = false :=
  enters_of_closing (by rw [TxnRow.isClosing, h, Bool.or_true])

theorem move_of_nontradeClose {s : TxnRow} (h : s.isNontradeClose) :
    s.move = .take s.absQuantity := by
  have hmoney : s.isMoneyMovement = false := by
    have htype := of_decide_eq_true (Bool.and_eq_true_iff.mp h).1
    simp [TxnRow.isMoneyMovement, htype]
  simp [TxnRow.move, hmoney, h]

/-- A row of a security that is no position row has no size. -/
theorem absQuantity_of_not_isPosition {s : TxnRow} (hsid : truthy s.securityId)
    (h : s.isPosition = false) : s.absQuantity = 0 := by
  have hnone : s.quantity = none := by simpa [TxnRow.isPosition, hsid] using h
  simp [TxnRow.absQuantity, hnone]

/-- A settlement after which nothing opens takes its quantity off the net of its security. -/
theorem abs_netIn_concat {s : TxnRow} (hsettles : s.isNontradeClose)
    (hsid : truthy s.securityId) {sid : String}
    (hlast : s.sid = sid → ∀ m ∈ rowsAfter rows s, m.sid = sid → m.enters = false) :
    |netIn (rows ++ [s]) sid| =
      max (|netIn rows sid| - if s.sid = sid then s.absQuantity else 0) 0 := by
  by_cases hother : s.isPosition = false ∨ s.sid ≠ sid
  · have hzero : (if s.sid = sid then s.absQuantity else 0) = 0 := by
      split
      · rename_i heq
        exact absQuantity_of_not_isPosition hsid (hother.resolve_right (not_not_intro heq))
      · rfl
    rw [hzero, sub_zero, max_eq_left (abs_nonneg _), netIn_eq_walkNet, netIn_eq_walkNet,
      rowsIn_concat_of_ne rows hother]
  · obtain ⟨hpos, heq⟩ := not_or.mp hother
    obtain rfl := not_not.mp heq
    have hlater : ∀ m ∈ rowsIn (rowsAfter rows s) s.sid, m.enters = false := by
      intro m hm
      obtain ⟨hmem, -, hsame⟩ := mem_rowsIn.mp hm
      exact hlast rfl m hmem hsame
    obtain ⟨taken, htaken, hwalk⟩ := abs_walkNet_of_not_enters hlater
    rw [netIn_eq_walkNet, rowsIn_concat rows (by simpa using hpos), walkNet_append, walkNet_cons,
      move_of_nontradeClose hsettles, BookMove.apply, hwalk,
      abs_takeFrom_eq_max (absQuantity_nonneg s),
      netIn_eq_walkNet rows, rowsIn_split rows s, walkNet_append, hwalk, if_pos rfl,
      max_sub_sub htaken, max_sub_sub (absQuantity_nonneg s), add_comm]

theorem sum_absQuantity_nonneg (l : List TxnRow) : 0 ≤ (l.map TxnRow.absQuantity).sum := by
  refine List.sum_nonneg fun q hq => ?_
  obtain ⟨r, -, rfl⟩ := List.mem_map.mp hq
  exact absQuantity_nonneg r

/-- The quantity of rows in a security. -/
def quantityIn (rows : List TxnRow) (sid : String) : ℚ :=
  ((rows.filter fun r => r.sid = sid).map TxnRow.absQuantity).sum

/-- No row opens a security after a new one has settled it. -/
def LastIn (rows new : List TxnRow) (sid : String) : Prop :=
  ∀ s ∈ new, s.sid = sid → ∀ m ∈ rowsAfter rows s, m.sid = sid → m.enters = false

/-- **Settlements take their quantities off a net** that nothing opens after them, and stop at
zero. -/
theorem abs_netIn_append {new : List TxnRow} (hsettles : ∀ s ∈ new, s.isNontradeClose)
    (hsid : ∀ s ∈ new, truthy s.securityId) {sid : String} (hlast : LastIn rows new sid) :
    |netIn (rows ++ new) sid| = max (|netIn rows sid| - quantityIn new sid) 0 := by
  induction new generalizing rows with
  | nil => simp [quantityIn]
  | cons s new ih =>
    have hhead := abs_netIn_concat (hsettles s List.mem_cons_self) (hsid s List.mem_cons_self)
      (hlast s List.mem_cons_self)
    have htail : |netIn (rows ++ [s] ++ new) sid| =
        max (|netIn (rows ++ [s]) sid| - quantityIn new sid) 0 :=
      ih (fun s' hs' => hsettles s' (List.mem_cons_of_mem _ hs'))
        (fun s' hs' => hsid s' (List.mem_cons_of_mem _ hs')) fun s' hs' hs'sid m hm hsame => by
          rw [rowsAfter_append] at hm
          rcases List.mem_append.mp hm with hm | hm
          · exact hlast s' (List.mem_cons_of_mem _ hs') hs'sid m hm hsame
          · obtain rfl : m = s := by simpa using List.mem_of_mem_filter hm
            exact enters_of_nontradeClose (hsettles m List.mem_cons_self)
    have hnonneg : 0 ≤ quantityIn new sid := sum_absQuantity_nonneg _
    have hsum : quantityIn (s :: new) sid =
        (if s.sid = sid then s.absQuantity else 0) + quantityIn new sid := by
      by_cases h : s.sid = sid <;> simp [quantityIn, h]
    rw [List.append_cons, htail, hhead, max_sub_sub hnonneg, hsum]

end Walk

/-! ## What the settlement events count -/

/-- Whether a row is the removal of its contracts, not their money. -/
def TxnRow.removes (r : TxnRow) : Bool := !isCashSettled r.transactionSubType

/-- What a removal row and its money row have in common. -/
def TxnRow.pair (r : TxnRow) :
    Option TradeGroupEventType × Option String × ℚ × Option Datetime :=
  (rdEventBySubtype r.transactionSubType, r.securityId, r.absQuantity, r.executedAt)

section Events

variable {rows : List TxnRow}

/-- A sum of sizes is zero when each is. -/
theorem sum_absQuantity_eq_zero_iff {l : List TxnRow} :
    (l.map TxnRow.absQuantity).sum = 0 ↔ ∀ r ∈ l, r.absQuantity = 0 := by
  induction l with
  | nil => simp
  | cons r l ih =>
    rw [List.map_cons, List.sum_cons, List.forall_mem_cons, ← ih]
    exact add_eq_zero_iff_of_nonneg (absQuantity_nonneg r) (sum_absQuantity_nonneg l)

/-- Where each money row has a removal row, an event counts the removal rows of each security. -/
theorem settledIn_eq (hpaired : ∀ m ∈ rows, m.removes = false →
    ∃ r ∈ rows, r.removes = true ∧ r.securityId = m.securityId ∧ r.absQuantity = m.absQuantity)
    (sid : Option String) :
    (if ((rows.filter fun r => r.quantity.isSome && r.securityId = sid &&
        isCashSettled r.transactionSubType = false).map TxnRow.absQuantity).sum = 0 then
      ((rows.filter fun r => r.quantity.isSome && r.securityId = sid &&
        isCashSettled r.transactionSubType = true).map TxnRow.absQuantity).sum
    else ((rows.filter fun r => r.quantity.isSome && r.securityId = sid &&
        isCashSettled r.transactionSubType = false).map TxnRow.absQuantity).sum) =
    ((((rows.filter fun r => r.quantity.isSome).filter TxnRow.removes).filter fun r =>
      some r.securityId = some sid).map TxnRow.absQuantity).sum := by
  have hremoved : rows.filter (fun r => r.quantity.isSome && r.securityId = sid &&
      isCashSettled r.transactionSubType = false) =
      ((rows.filter fun r => r.quantity.isSome).filter TxnRow.removes).filter fun r =>
        some r.securityId = some sid := by
    rw [List.filter_filter, List.filter_filter]
    refine List.filter_congr fun r _ => ?_
    simp only [TxnRow.removes, Option.some.injEq]
    cases r.quantity.isSome <;> cases isCashSettled r.transactionSubType <;> simp
  split
  · rename_i hzero
    rw [← hremoved, hzero, sum_absQuantity_eq_zero_iff]
    rw [sum_absQuantity_eq_zero_iff] at hzero
    intro m hm
    simp only [List.mem_filter, Bool.and_eq_true, decide_eq_true_eq] at hm hzero
    obtain ⟨r, hr, hremoves, hsid, hquantity⟩ := hpaired m hm.1 (by simp [TxnRow.removes, hm.2.2])
    rw [← hquantity]
    cases hnone : r.quantity with
    | none => simp [TxnRow.absQuantity, hnone]
    | some q =>
      exact hzero r ⟨hr, ⟨by simp [hnone], hsid.trans hm.2.1.2⟩,
        by simpa [TxnRow.removes] using hremoves⟩
  · rw [hremoved]

/-- Where each money row has a removal row, an event counts the removal rows. -/
theorem settledQuantity_eq (hpaired : ∀ m ∈ rows, m.removes = false →
    ∃ r ∈ rows, r.removes = true ∧ r.securityId = m.securityId ∧ r.absQuantity = m.absQuantity) :
    settledQuantity rows = ((rows.filter TxnRow.removes).map TxnRow.absQuantity).sum := by
  let counted := rows.filter fun r => r.quantity.isSome
  have hkeys : (counted.map TxnRow.securityId).eraseDups.Nodup := by
    rw [lawful_beq_subsingleton Option.instBEq instBEqOfDecidableEq]
    exact nodup_eraseDups _
  have hnone : (((rows.filter TxnRow.removes).filter fun r => !r.quantity.isSome).map
      TxnRow.absQuantity).sum = 0 := by
    refine sum_absQuantity_eq_zero_iff.mpr fun r hr => ?_
    have hnot : r.quantity = none := by simpa using (List.mem_filter.mp hr).2
    simp [TxnRow.absQuantity, hnot]
  have hsplit := sum_filter_add_sum_filter_not TxnRow.absQuantity
    (fun r : TxnRow => r.quantity.isSome) (rows.filter TxnRow.removes)
  have hcomm : counted.filter TxnRow.removes =
      (rows.filter TxnRow.removes).filter fun r => r.quantity.isSome := by
    rw [List.filter_filter, List.filter_filter]
    simp only [Bool.and_comm]
  have hsum := sum_filter_keys TxnRow.absQuantity (fun r : TxnRow => some r.securityId) hkeys
    (counted.filter TxnRow.removes)
  rw [hnone, add_zero] at hsplit
  unfold settledQuantity
  simp only [settledIn_eq hpaired]
  refine hsum.trans (Eq.trans ?_ hsplit)
  refine congrArg (fun l => (l.map TxnRow.absQuantity).sum)
    ((List.filter_eq_self.mpr ?_).trans hcomm)
  intro r hr
  have hmem : r.securityId ∈ (counted.map TxnRow.securityId).eraseDups :=
    List.mem_eraseDups.mpr (List.mem_map_of_mem (List.mem_of_mem_filter hr))
  rw [Option.any_some]
  simpa using hmem

/-- Every money row comes with a removal row for the same contracts. -/
def Paired (rows : List TxnRow) : Prop :=
  ((rows.filter fun r => !r.removes).map TxnRow.pair).Subperm
    ((rows.filter TxnRow.removes).map TxnRow.pair)

theorem Paired.exists_removal (h : Paired rows) {m : TxnRow} (hm : m ∈ rows)
    (hmoney : m.removes = false) : ∃ r ∈ rows, r.removes = true ∧ r.pair = m.pair := by
  have hmem : m.pair ∈ (rows.filter TxnRow.removes).map TxnRow.pair :=
    h.subset (List.mem_map_of_mem (List.mem_filter.mpr ⟨hm, by simp [hmoney]⟩))
  obtain ⟨r, hr, hpair⟩ := List.mem_map.mp hmem
  exact ⟨r, (List.mem_filter.mp hr).1, (List.mem_filter.mp hr).2, hpair⟩

/-- **The settlement events count the removal rows.** -/
theorem sum_settledQuantity (hsettles : ∀ r ∈ rows, r.isNontradeClose) (hpaired : Paired rows) :
    ((rdRowsByEvent rows).map fun e => settledQuantity e.2).sum =
      ((rows.filter TxnRow.removes).map TxnRow.absQuantity).sum := by
  have hevent : ∀ e ∈ rdRowsByEvent rows,
      settledQuantity e.2 = ((e.2.filter TxnRow.removes).map TxnRow.absQuantity).sum := by
    intro e he
    have hrows := (mem_groupBy_iff.mp he).2
    refine settledQuantity_eq fun m hm hmoney => ?_
    rw [hrows, List.mem_filter] at hm
    rw [if_pos (hsettles m hm.1)] at hm
    obtain ⟨r, hr, hremoves, hpair⟩ := hpaired.exists_removal hm.1 hmoney
    obtain ⟨hkind, hsid, hquantity, -⟩ : rdEventBySubtype r.transactionSubType =
        rdEventBySubtype m.transactionSubType ∧ r.securityId = m.securityId ∧
        r.absQuantity = m.absQuantity ∧ r.executedAt = m.executedAt := by
      simpa [TxnRow.pair] using hpair
    refine ⟨r, ?_, hremoves, hsid, hquantity⟩
    rw [hrows, List.mem_filter, if_pos (hsettles r hr), hkind]
    exact ⟨hr, hm.2⟩
  have hflat : ∀ es : List (TradeGroupEventType × List TxnRow),
      (es.map fun e => ((e.2.filter TxnRow.removes).map TxnRow.absQuantity).sum).sum =
        (((es.flatMap Prod.snd).filter TxnRow.removes).map TxnRow.absQuantity).sum := by
    intro es
    induction es with
    | nil => rfl
    | cons e es ih =>
      rw [List.map_cons, List.sum_cons, ih, List.flatMap_cons, List.filter_append, List.map_append,
        List.sum_append]
  have hall : rows.filter (fun r =>
      (if r.isNontradeClose then rdEventBySubtype r.transactionSubType else none).isSome) =
      rows := by
    refine List.filter_eq_self.mpr fun r hr => ?_
    rw [if_pos (hsettles r hr)]
    exact (Bool.and_eq_true_iff.mp (hsettles r hr)).2
  have hperm := flatMap_groupBy_perm (f := fun r : TxnRow =>
    if r.isNontradeClose then rdEventBySubtype r.transactionSubType else none) (l := rows)
  rw [hall] at hperm
  rw [List.map_congr_left hevent, hflat]
  exact ((hperm.filter TxnRow.removes).map TxnRow.absQuantity).sum_eq

/-- Whether an event records a settlement. -/
def EventRow.settles (e : EventRow) : Bool :=
  e.eventType = .expiration || e.eventType = .assignment || e.eventType = .exercise

/-- The settlement events of an exit made of settlements retire the removal rows. -/
theorem sum_settlementEvents (hsettles : ∀ r ∈ rows, r.isNontradeClose) (hpaired : Paired rows)
    (pk : ℕ) (closed : Bool) (rolledToPk deliveryPk : Option ℕ) :
    (((exitEvents pk rows closed rolledToPk deliveryPk).filter EventRow.settles).map
      EventRow.quantityChange).sum =
      -((rows.filter TxnRow.removes).map TxnRow.absQuantity).sum := by
  have htrade : tradeRows rows = [] :=
    List.filter_eq_nil_iff.mpr fun r hr => by simp [hsettles r hr]
  have hkept : ((rdRowsByEvent rows).map (settlementEvent pk rows deliveryPk)).filter
      EventRow.settles = (rdRowsByEvent rows).map (settlementEvent pk rows deliveryPk) := by
    refine List.filter_eq_self.mpr fun ev hev => ?_
    obtain ⟨e, he, rfl⟩ := List.mem_map.mp hev
    obtain ⟨⟨r, hr, hkey⟩, -⟩ := mem_groupBy_iff.mp he
    rw [if_pos (hsettles r hr)] at hkey
    show (decide (e.1 = .expiration) || decide (e.1 = .assignment) ||
      decide (e.1 = .exercise)) = true
    unfold rdEventBySubtype at hkey
    split at hkey <;> simp only [Option.some.injEq, reduceCtorEq] at hkey <;> simp [← hkey]
  have hevents : (exitEvents pk rows closed rolledToPk deliveryPk).filter EventRow.settles =
      (rdRowsByEvent rows).map (settlementEvent pk rows deliveryPk) := by
    unfold exitEvents
    rw [htrade, List.filter_append, List.filter_append, hkept]
    cases rolledToPk <;> simp [EventRow.settles]
  have hneg := List.sum_neg ((rdRowsByEvent rows).map fun e => settledQuantity e.2)
  rw [List.map_map] at hneg
  rw [hevents, List.map_map, ← sum_settledQuantity hsettles hpaired, hneg]
  rfl

end Events

/-! ## Events and nets -/

/-- The contracts that rows settle in a security: each removal row once, its money row not. -/
def settledIn (rows : List TxnRow) (sid : String) : ℚ := quantityIn (rows.filter TxnRow.removes) sid

/-- The quantity of the money rows in a security. -/
def moneyIn (rows : List TxnRow) (sid : String) : ℚ :=
  quantityIn (rows.filter fun r => !r.removes) sid

/-- Settlement rows applied to a group: the new ones settle securities the group holds, and each
money row has its removal row. -/
structure SettlesHeld (group : OpenGroup) (rows : List TxnRow) : Prop where
  settles : ∀ r ∈ rows, r.isNontradeClose
  held : ∀ r ∈ group.newRows rows, truthy r.securityId ∧ netIn group.rows r.sid ≠ 0
  paired : Paired (group.newRows rows)

/-- What a group retires in a security between two lists of its rows. -/
def retired (rows rows' : List TxnRow) (sid : String) : ℚ := |netIn rows sid| - |netIn rows' sid|

/-- The nets lose the settled contracts, as far as they go, and the events say what they lost. -/
structure RetiresOnce (rows new rows' : List TxnRow) (events : List EventRow) : Prop where
  nets : ∀ sid, netIn rows sid ≠ 0 →
    retired rows rows' sid = min |netIn rows sid| (settledIn new sid)
  events : ((events.filter EventRow.settles).map EventRow.quantityChange).sum =
    -(((new.map TxnRow.sid).eraseDups).map (retired rows rows')).sum

section Retired

variable {rows new : List TxnRow}

theorem quantityIn_nonneg (sid : String) : 0 ≤ quantityIn rows sid := sum_absQuantity_nonneg _

theorem settledIn_add_moneyIn (sid : String) :
    settledIn new sid + moneyIn new sid = quantityIn new sid := by
  have hsplit := sum_filter_add_sum_filter_not TxnRow.absQuantity TxnRow.removes
    (new.filter fun r => r.sid = sid)
  rw [quantityIn, ← hsplit]
  unfold settledIn moneyIn quantityIn
  simp only [List.filter_filter, Bool.and_comm]

/-- The removal rows are those of the securities, one security after the other. -/
theorem sum_settledIn :
    ((new.map TxnRow.sid).eraseDups.map (settledIn new)).sum =
      ((new.filter TxnRow.removes).map TxnRow.absQuantity).sum := by
  have hkeys : (new.map TxnRow.sid).eraseDups.Nodup := nodup_eraseDups _
  have hsum := sum_filter_keys TxnRow.absQuantity (fun r : TxnRow => some r.sid) hkeys
    (new.filter TxnRow.removes)
  have hall : (new.filter TxnRow.removes).filter (fun r =>
      (some r.sid).any ((new.map TxnRow.sid).eraseDups.contains ·)) =
      new.filter TxnRow.removes := by
    refine List.filter_eq_self.mpr fun r hr => ?_
    have hmem : r.sid ∈ (new.map TxnRow.sid).eraseDups :=
      List.mem_eraseDups.mpr (List.mem_map_of_mem (List.mem_of_mem_filter hr))
    rw [Option.any_some]
    simpa using hmem
  rw [hall] at hsum
  rw [← hsum]
  refine congrArg List.sum (List.map_congr_left fun sid _ => ?_)
  simp [settledIn, quantityIn]

/-- A security with settled contracts is one of the rows'. -/
theorem mem_sids_of_settledIn {sid : String} (h : settledIn new sid ≠ 0) :
    sid ∈ (new.map TxnRow.sid).eraseDups := by
  by_contra hnot
  refine h (sum_absQuantity_eq_zero_iff.mpr fun r hr => ?_)
  obtain ⟨hr, hsid⟩ := List.mem_filter.mp hr
  refine absurd (List.mem_eraseDups.mpr ?_) hnot
  exact List.mem_map.mpr ⟨r, List.mem_of_mem_filter hr, of_decide_eq_true hsid⟩

/-- **Pairs retire once** exactly when each net loses what its removal rows settle. -/
theorem retiresOnce_iff {rows' : List TxnRow} {events : List EventRow}
    (hheld : ∀ r ∈ new, netIn rows r.sid ≠ 0)
    (hevents : ((events.filter EventRow.settles).map EventRow.quantityChange).sum =
      -((new.filter TxnRow.removes).map TxnRow.absQuantity).sum) :
    RetiresOnce rows new rows' events ↔
      ∀ sid, netIn rows sid ≠ 0 → retired rows rows' sid = settledIn new sid := by
  have hsids : ∀ sid ∈ (new.map TxnRow.sid).eraseDups, netIn rows sid ≠ 0 := by
    intro sid hsid
    obtain ⟨r, hr, rfl⟩ := List.mem_map.mp (List.mem_eraseDups.mp hsid)
    exact hheld r hr
  rw [← sum_settledIn] at hevents
  constructor
  · intro h sid hne
    by_contra hdiffers
    -- a net that loses less than was settled leaves the events' sum short
    have hless : retired rows rows' sid < settledIn new sid := by
      refine lt_of_le_of_ne ?_ hdiffers
      rw [h.nets sid hne]
      exact min_le_right _ _
    have hsettled : settledIn new sid ≠ 0 := by
      intro hzero
      rw [h.nets sid hne, hzero, min_eq_right (abs_nonneg _)] at hless
      exact hless.false
    have hlt := List.sum_lt_sum (l := (new.map TxnRow.sid).eraseDups) (retired rows rows')
      (settledIn new) (fun sid' hsid' => by
        rw [h.nets sid' (hsids sid' hsid')]
        exact min_le_right _ _) ⟨sid, mem_sids_of_settledIn hsettled, hless⟩
    have heq := hevents.symm.trans h.events
    exact hlt.ne (neg_injective heq).symm
  · intro h
    refine ⟨fun sid hne => ?_, ?_⟩
    · rw [h sid hne, min_eq_right]
      rw [← h sid hne, retired]
      exact sub_le_self _ (abs_nonneg _)
    · rw [hevents, List.map_congr_left fun sid hsid => h sid (hsids sid hsid)]

end Retired

/-! ## When a net loses what is settled -/

section Loses

variable {rows new : List TxnRow} {sid : String}

/-- The removal rows settle no more than is held, and the money rows find nothing left. -/
def RemovalsCover (rows new : List TxnRow) (sid : String) : Prop :=
  settledIn new sid ≤ |netIn rows sid| ∧
    (moneyIn new sid = 0 ∨ |netIn rows sid| ≤ settledIn new sid)

/-- Where nothing opens after the settlements, a net loses what is settled exactly when the
removal rows cover. -/
theorem retired_eq_iff_covers (hsettles : ∀ s ∈ new, s.isNontradeClose)
    (hsid : ∀ s ∈ new, truthy s.securityId) (hlast : LastIn rows new sid) :
    retired rows (rows ++ new) sid = settledIn new sid ↔ RemovalsCover rows new sid := by
  have hretired : retired rows (rows ++ new) sid =
      min |netIn rows sid| (settledIn new sid + moneyIn new sid) := by
    rw [retired, abs_netIn_append hsettles hsid hlast, settledIn_add_moneyIn]
    rcases le_total |netIn rows sid| (quantityIn new sid) with h | h
    · rw [max_eq_right (sub_nonpos.mpr h), sub_zero, min_eq_left h]
    · rw [max_eq_left (sub_nonneg.mpr h), sub_sub_cancel, min_eq_right h]
  have hmoney : 0 ≤ moneyIn new sid := quantityIn_nonneg sid
  rw [hretired, RemovalsCover]
  constructor
  · intro h
    have hle : settledIn new sid ≤ |netIn rows sid| := h ▸ min_le_left _ _
    refine ⟨hle, ?_⟩
    rcases min_choice |netIn rows sid| (settledIn new sid + moneyIn new sid) with hmin | hmin
    · exact Or.inr (hmin.symm.trans h).le
    · exact Or.inl (add_eq_left.mp (hmin.symm.trans h))
  · rintro ⟨hle, hzero | hflat⟩
    · rw [hzero, add_zero, min_eq_right hle]
    · rw [min_eq_left (by linarith)]
      exact le_antisymm hflat hle

/-- A removal row finds its contracts, a money row finds nothing left, and a row of the group
moves its net as it did without the settlements. -/
def InPlace (new : List TxnRow) (n w : ℚ) (r : TxnRow) : Prop :=
  if r ∈ new then (if r.removes then r.absQuantity ≤ |w| else w = 0 ∨ r.absQuantity = 0)
  else |r.move.apply n| - |n| = |r.move.apply w| - |w|

instance (new : List TxnRow) (n w : ℚ) (r : TxnRow) : Decidable (InPlace new n w r) := by
  unfold InPlace
  infer_instance

/-- A step of the walk without the settlements. -/
def ownStep (new : List TxnRow) (n : ℚ) (r : TxnRow) : ℚ :=
  if r ∈ new then n else r.move.apply n

/-- The settlements of a security are in place at every row of its walk. -/
def SettlesInPlace (rows new : List TxnRow) (sid : String) : Prop :=
  Alongside (InPlace new) (ownStep new) (fun w r => r.move.apply w) 0 0 (rowsIn (rows ++ new) sid)

/-- What a row settles. -/
def settledBy (new : List TxnRow) (r : TxnRow) : ℚ :=
  if r ∈ new && r.removes then r.absQuantity else 0

/-- Passing over the settlements leaves the walk of the group's own rows. -/
theorem foldl_ownStep (hown : ∀ r ∈ rows, r ∉ new) :
    (rowsIn (rows ++ new) sid).foldl (ownStep new) 0 = netIn rows sid := by
  have hrows : rowsIn rows sid = (rowsIn (rows ++ new) sid).filter fun r => r ∉ new := by
    rw [rowsIn_eq, rowsIn_eq, filter_sortOn, List.filter_filter, List.filter_append]
    have hleft : rows.filter (fun r => decide (r ∉ new) && (r.isPosition && decide (r.sid = sid))) =
        rows.filter fun r => r.isPosition && decide (r.sid = sid) :=
      List.filter_congr fun r hr => by simp [hown r hr]
    have hright : new.filter (fun r => decide (r ∉ new) && (r.isPosition && decide (r.sid = sid))) =
        [] :=
      List.filter_eq_nil_iff.mpr fun r hr => by simp [hr]
    rw [hleft, hright, List.append_nil]
  rw [netIn_eq_walkNet, hrows, walkNet, List.foldl_filter]
  congr 1
  funext n r
  by_cases h : r ∈ new <;> simp [ownStep, h]

/-- The rows of a walk settle what the removal rows of its security do. -/
theorem sum_settledBy (hown : ∀ r ∈ rows, r ∉ new) (hsid : ∀ s ∈ new, truthy s.securityId) :
    ((rowsIn (rows ++ new) sid).map (settledBy new)).sum = settledIn new sid := by
  let inWalk := fun r : TxnRow => r.isPosition && decide (r.sid = sid)
  have hperm : (rowsIn (rows ++ new) sid).Perm ((rows ++ new).filter inWalk) := by
    rw [rowsIn_eq]
    exact perm_sortOn (fun r : TxnRow => timeKey r.executedAt) _
  rw [(hperm.map _).sum_eq, List.filter_append, List.map_append, List.sum_append]
  have hleft : ((rows.filter inWalk).map (settledBy new)).sum = 0 := by
    refine List.sum_eq_zero fun q hq => ?_
    obtain ⟨r, hr, rfl⟩ := List.mem_map.mp hq
    simp [settledBy, hown r (List.mem_of_mem_filter hr)]
  have hright : ∀ l : List TxnRow, (∀ r ∈ l, r ∈ new) →
      ((l.filter inWalk).map (settledBy new)).sum = settledIn l sid := by
    intro l hl
    induction l with
    | nil => rfl
    | cons r l ih =>
      have htail := ih fun r' hr' => hl r' (List.mem_cons_of_mem _ hr')
      have hmem : r ∈ new := hl r List.mem_cons_self
      have hnone := absQuantity_of_not_isPosition (hsid r hmem)
      unfold settledIn quantityIn at htail ⊢
      by_cases hpos : r.isPosition <;> by_cases hsame : r.sid = sid <;>
        by_cases hremoves : r.removes <;>
        simp_all [inWalk, settledBy]
  rw [hleft, zero_add, hright new fun r hr => hr]

/-- A row in place moves the two walks apart by what it settles. -/
theorem apart_of_inPlace (hsettles : ∀ s ∈ new, s.isNontradeClose) {n w : ℚ} {r : TxnRow}
    (h : InPlace new n w r) :
    StepsApart (ownStep new) (fun w r => r.move.apply w) abs abs (settledBy new) n w r := by
  unfold InPlace at h
  unfold StepsApart ownStep settledBy
  by_cases hr : r ∈ new
  · rw [if_pos hr] at h
    rw [if_pos hr]
    show |n| - |r.move.apply w| = _
    rw [move_of_nontradeClose (hsettles r hr), BookMove.apply,
      PositionMove.abs_takeFrom (absQuantity_nonneg r)]
    cases hremoves : r.removes with
    | true =>
      rw [if_pos hremoves] at h
      simp only [hr, decide_true, Bool.and_true, if_true, min_eq_left h]
      ring
    | false =>
      rw [if_neg (by simp [hremoves])] at h
      rcases h with rfl | hnone
      · simp [absQuantity_nonneg r]
      · simp [hnone]
  · rw [if_neg hr] at h
    simp only [hr, if_false, decide_false, Bool.false_and, Bool.false_eq_true, add_zero]
    linarith

/-- A step that moves the two walks apart by what its row settles is in place, unless a money row
took something. -/
theorem inPlace_of_apart (hsettles : ∀ s ∈ new, s.isNontradeClose) {n w : ℚ} {r : TxnRow}
    (h : StepsApart (ownStep new) (fun w r => r.move.apply w) abs abs (settledBy new) n w r)
    (hmoney : r ∈ new → r.removes = false → w = 0 ∨ r.absQuantity = 0) : InPlace new n w r := by
  unfold StepsApart ownStep settledBy at h
  unfold InPlace
  by_cases hr : r ∈ new
  · rw [if_pos hr]
    cases hremoves : r.removes with
    | true =>
      replace h : |n| - |r.move.apply w| = |n| - |w| + r.absQuantity := by
        simpa [hr, hremoves] using h
      rw [move_of_nontradeClose (hsettles r hr), BookMove.apply,
        PositionMove.abs_takeFrom (absQuantity_nonneg r)] at h
      have hfull : min r.absQuantity |w| = r.absQuantity := by linarith
      exact min_eq_left_iff.mp hfull
    | false => exact hmoney hr hremoves
  · replace h : |r.move.apply n| - |r.move.apply w| = |n| - |w| := by simpa [hr] using h
    rw [if_neg hr]
    linarith

/-- Settlements in place are what a net loses. -/
theorem SettlesInPlace.retired_eq (hown : ∀ r ∈ rows, r ∉ new)
    (hsettles : ∀ s ∈ new, s.isNontradeClose) (hsid : ∀ s ∈ new, truthy s.securityId)
    (h : SettlesInPlace rows new sid) : retired rows (rows ++ new) sid = settledIn new sid := by
  have hends := measure_sub_of_alongside
    (Alongside.mono h fun n w r _ hin => apart_of_inPlace hsettles hin)
  rw [foldl_ownStep hown, ← walkNet, ← netIn_eq_walkNet, sum_settledBy hown hsid] at hends
  simpa [retired] using hends

/-! ### Groups of one side -/

/-- Whether every row of the group opens its security on one side only. -/
def OneSided (rows : List TxnRow) (sid : String) : Prop :=
  ∃ side : ℚ, |side| = 1 ∧ ∀ r ∈ rowsIn rows sid, r.enters → 0 ≤ side * r.actionDelta

/-- No money row of a security finds a net to take from. -/
def MoneyIdle (rows new : List TxnRow) (sid : String) : Prop :=
  Alongside (fun _ w r => r ∈ new → r.removes = false → w = 0 ∨ r.absQuantity = 0)
    (ownStep new) (fun w r => r.move.apply w) 0 0 (rowsIn (rows ++ new) sid)

/-- A row takes, or moves its net toward the side it opens. -/
theorem move_cases (r : TxnRow) :
    r.move = .idle ∨ r.move = .take r.absQuantity ∨
      r.enters ∧ (r.move = .add r.actionDelta ∨ r.move = .offset r.actionDelta) := by
  cases henters : r.enters with
  | false => exact (move_of_not_enters henters).imp id Or.inl
  | true =>
    refine Or.inr (Or.inr ⟨rfl, ?_⟩)
    unfold TxnRow.enters at henters
    unfold TxnRow.move
    cases hbare : isBareAction r.action <;> simp_all

/-- The second net is on the side of the first, and no larger. -/
def WithinSide (side n w : ℚ) : Prop := 0 ≤ side * w ∧ side * w ≤ side * n

section WithinSide

variable {side n w q : ℚ} {r : TxnRow}

theorem abs_eq_mul (hside : |side| = 1) (h : 0 ≤ side * w) : |w| = side * w := by
  rw [← abs_of_nonneg h, abs_mul, hside, one_mul]

theorem mul_takeFrom (hside : |side| = 1) (hw : 0 ≤ side * w) (hq : 0 ≤ q) :
    side * PositionMove.takeFrom w q = max (side * w - q) 0 := by
  rcases eq_or_eq_neg_of_abs_eq hside with rfl | rfl
  · rw [one_mul] at hw
    rw [one_mul, one_mul]
    rcases hw.eq_or_lt with rfl | hpos
    · rw [takeFrom_zero_left hq, zero_sub, max_eq_right (neg_nonpos.mpr hq)]
    · exact BookMove.takeFrom_of_pos hpos q
  · rw [neg_one_mul] at hw
    rw [neg_one_mul, neg_one_mul, BookMove.takeFrom_of_nonpos (neg_nonneg.mp hw), ← max_neg_neg,
      neg_zero, neg_add, ← sub_eq_add_neg]

/-- A change toward the side of a net is added to it. -/
theorem apply_offset (hside : |side| = 1) (hw : 0 ≤ side * w) {delta : ℚ}
    (hdelta : 0 ≤ side * delta) : (BookMove.offset delta).apply w = w + delta := by
  have hprod : 0 ≤ w * delta := by
    have hmul := mul_nonneg hw hdelta
    have hsquare : side * side = 1 := by
      rw [← abs_mul_abs_self, hside, one_mul]
    calc 0 ≤ side * w * (side * delta) := hmul
      _ = side * side * (w * delta) := by ring
      _ = w * delta := by rw [hsquare, one_mul]
  rw [BookMove.apply, if_neg (not_lt.mpr hprod)]

/-- A row of a group of one side keeps a net within another and moves them no further apart. -/
theorem WithinSide.own_step (hside : |side| = 1) (h : WithinSide side n w)
    (hopens : r.enters → 0 ≤ side * r.actionDelta) :
    WithinSide side (r.move.apply n) (r.move.apply w) ∧
      |r.move.apply n| - |r.move.apply w| ≤ |n| - |w| := by
  obtain ⟨hw, hle⟩ := h
  have hn : 0 ≤ side * n := hw.trans hle
  have hsize : WithinSide side (r.move.apply n) (r.move.apply w) →
      side * r.move.apply n - side * r.move.apply w ≤ side * n - side * w →
      |r.move.apply n| - |r.move.apply w| ≤ |n| - |w| := by
    intro hin hdiff
    rwa [abs_eq_mul hside hn, abs_eq_mul hside hw, abs_eq_mul hside (hin.1.trans hin.2),
      abs_eq_mul hside hin.1]
  suffices hboth : WithinSide side (r.move.apply n) (r.move.apply w) ∧
      side * r.move.apply n - side * r.move.apply w ≤ side * n - side * w from
    ⟨hboth.1, hsize hboth.1 hboth.2⟩
  have hadds : 0 ≤ side * r.actionDelta →
      WithinSide side (n + r.actionDelta) (w + r.actionDelta) ∧
        side * (n + r.actionDelta) - side * (w + r.actionDelta) ≤ side * n - side * w := by
    intro hdelta
    refine ⟨⟨?_, ?_⟩, ?_⟩ <;> linarith
  rcases move_cases r with hmove | hmove | ⟨henters, hmove | hmove⟩
  · rw [hmove]
    exact ⟨⟨hw, hle⟩, le_rfl⟩
  · have hq := absQuantity_nonneg r
    simp only [hmove, BookMove.apply, WithinSide, mul_takeFrom hside hw hq,
      mul_takeFrom hside hn hq]
    refine ⟨⟨le_max_right _ _, max_le_max_right 0 (by linarith)⟩, ?_⟩
    rcases le_total (side * w) r.absQuantity with hflat | hleft
    · rw [max_eq_right (sub_nonpos.mpr hflat), sub_zero]
      exact max_le (by linarith) (by linarith)
    · rw [max_eq_left (sub_nonneg.mpr hleft), max_eq_left (by linarith)]
      linarith
  · rw [hmove]
    exact hadds (hopens henters)
  · have hdelta := hopens henters
    rw [hmove, apply_offset hside hw hdelta, apply_offset hside hn hdelta]
    exact hadds hdelta

/-- A settlement keeps a net within one that it passes over, and moves them apart by at most what
it takes. -/
theorem WithinSide.settle (hside : |side| = 1) (h : WithinSide side n w) (hq : 0 ≤ q) :
    WithinSide side n (PositionMove.takeFrom w q) ∧
      |n| - |PositionMove.takeFrom w q| ≤ |n| - |w| + q := by
  rw [PositionMove.abs_takeFrom hq]
  refine ⟨?_, by linarith [min_le_left q |w|]⟩
  rw [WithinSide, mul_takeFrom hside h.1 hq]
  exact ⟨le_max_right _ _, max_le (by linarith [h.2]) (h.1.trans h.2)⟩

end WithinSide

/-- In a group of one side whose money rows find nothing, a net loses what is settled exactly when
the settlements are in place. -/
theorem retired_eq_iff_settlesInPlace (hown : ∀ r ∈ rows, r ∉ new)
    (hsettles : ∀ s ∈ new, s.isNontradeClose) (hsid : ∀ s ∈ new, truthy s.securityId)
    (hside : OneSided rows sid) (hidle : MoneyIdle rows new sid) :
    retired rows (rows ++ new) sid = settledIn new sid ↔ SettlesInPlace rows new sid := by
  refine ⟨fun h => ?_, fun h => h.retired_eq hown hsettles hsid⟩
  obtain ⟨side, hunit, hopens⟩ := hside
  have hopens' : ∀ r ∈ rowsIn (rows ++ new) sid, r ∉ new → r.enters →
      0 ≤ side * r.actionDelta := by
    intro r hr hnot henters
    obtain ⟨hmem, hpos, hsame⟩ := mem_rowsIn.mp hr
    have hmine : r ∈ rows := (List.mem_append.mp hmem).resolve_right hnot
    exact hopens r (mem_rowsIn.mpr ⟨hmine, hpos, hsame⟩) henters
  have hstep : ∀ n w, ∀ r ∈ rowsIn (rows ++ new) sid, WithinSide side n w →
      (r ∈ new → r.removes = false → w = 0 ∨ r.absQuantity = 0) →
      WithinSide side (ownStep new n r) (r.move.apply w) ∧
        |ownStep new n r| - |r.move.apply w| ≤ |n| - |w| + settledBy new r := by
    intro n w r hr hin hmoney
    unfold ownStep settledBy
    by_cases hnew : r ∈ new
    · have hq := absQuantity_nonneg r
      rw [if_pos hnew, move_of_nontradeClose (hsettles r hnew), BookMove.apply]
      cases hremoves : r.removes with
      | true =>
        have htakes := hin.settle hunit hq
        simpa [hnew] using htakes
      | false =>
        have hkeeps : PositionMove.takeFrom w r.absQuantity = w := by
          rcases hmoney hnew hremoves with rfl | hnone
          · exact takeFrom_zero_left hq
          · rw [hnone]
            simp [PositionMove.takeFrom]
        rw [hkeeps]
        simpa using hin
    · have hkept := hin.own_step hunit (hopens' r hr hnew)
      simpa [hnew] using hkept
  have hstart : WithinSide side 0 0 := by simp [WithinSide]
  have hwithin := alongside_of_invariant hstart hidle
    fun n w r hr hin hmoney => (hstep n w r hr hin hmoney).1
  have hle := hwithin.mono fun n w r hr hboth => (hstep n w r hr hboth.1 hboth.2).2
  have hends : |(rowsIn (rows ++ new) sid).foldl (ownStep new) 0| -
      |(rowsIn (rows ++ new) sid).foldl (fun w r => r.move.apply w) 0| =
      |0| - |0| + ((rowsIn (rows ++ new) sid).map (settledBy new)).sum := by
    rw [foldl_ownStep hown, ← walkNet, ← netIn_eq_walkNet, sum_settledBy hown hsid, ← h]
    simp [retired]
  have hexact := (alongside_iff_of_le hle).mpr hends
  refine (hexact.and hidle).mono fun n w r _ hboth => ?_
  obtain ⟨hapart, hmoney⟩ := hboth
  exact inPlace_of_apart hsettles hapart hmoney

/-! ### The condition -/

/-- The settlements of a security retire their contracts once: in place, or, where nothing opens
after them, because the removal rows cover. -/
def Retires (rows new : List TxnRow) (sid : String) : Prop :=
  SettlesInPlace rows new sid ∨ LastIn rows new sid ∧ RemovalsCover rows new sid

/-- Nothing opens after the settlements of a security, or its rows open one side only and its money
rows find nothing. -/
def LastOrOneSided (rows new : List TxnRow) (sid : String) : Prop :=
  LastIn rows new sid ∨ OneSided rows sid ∧ MoneyIdle rows new sid

end Loses

namespace InMemoryStore

/-- The members of a group after an exit. -/
theorem rows_exitResult (s : InMemoryStore) (group : OpenGroup) (rows : List TxnRow)
    (rolledToPk : Option ℕ) :
    (exitResult s group rows rolledToPk).group.rows = group.rows ++ group.newRows rows := by
  unfold exitResult
  split
  · rename_i hempty
    rw [List.isEmpty_iff.mp hempty, List.append_nil]
  · rfl

/-- The settlement events an exit made of settlements adds. -/
theorem sum_newEvents {s : InMemoryStore} {group : OpenGroup} {rows : List TxnRow}
    (h : SettlesHeld group rows) (rolledToPk deliveryPk : Option ℕ) :
    (((newEvents s (exitState s group rows rolledToPk deliveryPk)).filter EventRow.settles).map
      EventRow.quantityChange).sum =
      -(((group.newRows rows).filter TxnRow.removes).map TxnRow.absQuantity).sum := by
  have hsettles : ∀ r ∈ group.newRows rows, r.isNontradeClose := fun r hr =>
    h.settles r (List.mem_of_mem_filter hr)
  rw [newEvents, values_exitState, List.drop_left]
  split
  · rename_i hempty
    rw [List.isEmpty_iff.mp hempty]
    rfl
  · rw [List.filter_map, List.map_map]
    exact sum_settlementEvents hsettles h.paired _ _ _ _

/-- The rows new to a group are not its own. -/
theorem not_mem_newRows {group : OpenGroup} {rows : List TxnRow} {r : TxnRow}
    (hr : r ∈ group.rows) : r ∉ group.newRows rows := by
  intro hnew
  have hfresh := of_decide_eq_true (List.mem_filter.mp hnew).2
  exact hfresh (List.mem_map_of_mem hr)

namespace PartlySettled

/-- A group that holds three contracts. -/
def bought : OpenGroup :=
  ⟨1, [.fill "main" "T-1" "1001" "Buy to Open" "option:X" 3 (10 * second)]⟩

/-- The removal row of an assignment of one contract. -/
def removal : TxnRow where
  ttTransactionId := "T-2"
  account := "main"
  transactionType := some "Receive Deliver"
  transactionSubType := some "Assignment"
  securityId := some "option:X"
  quantity := some 1
  executedAt := some (20 * second)

/-- Its money. -/
def money : TxnRow :=
  { removal with
    ttTransactionId := "T-3"
    transactionSubType := some "Cash Settled Assignment" }

/-- The ledger that holds them. -/
def partlySettled : InMemoryStore := seeded [] [] (bought.rows ++ [removal, money])

/-- The money row matches its removal row. -/
theorem paired : Paired [removal, money] := by
  have hsame : ([removal, money].filter fun r => !r.removes).map TxnRow.pair =
      ([removal, money].filter TxnRow.removes).map TxnRow.pair := by
    decide +kernel
  rw [Paired, hsame]

theorem settlesHeld : SettlesHeld bought [removal, money] where
  settles := by decide
  held := by decide +kernel
  paired := paired

/-- A group of one contract that buys another after its settlement. -/
def boughtAgain : OpenGroup :=
  ⟨1, [.fill "main" "T-1" "1001" "Buy to Open" "option:X" 1 (10 * second),
    .fill "main" "T-4" "1002" "Buy to Open" "option:X" 1 (30 * second)]⟩

/-- The ledger that holds them. -/
def settledBetween : InMemoryStore := seeded [] [] (boughtAgain.rows ++ [removal, money])

theorem settlesHeld_boughtAgain : SettlesHeld boughtAgain [removal, money] where
  settles := by decide
  held := by decide +kernel
  paired := paired

end PartlySettled

end InMemoryStore

end TtLedger
