import TtLedger.Foundations.Extremes
import TtLedger.Ingest.WalkLaws
import TtLedger.Store.OpenLegLaws

/-!
# The per-group leg reads against the reconciler's net

A host asks `netOpenByGroup`, or the fold of a group's legs, what a group still holds; the
reconciler decides by `netQuantities` whether a group is closed. The reads subtract the closing
quantity and the largest settlement from the opening quantity, in any order of the rows; the net
is a walk in time order that closes cannot flip. For rows of one account with whole quantities that
open, close or settle (`LegMember`), where no opening meets a position of the other side, a read
exceeds the size of the net by what the settlements took from it, less the largest of them and what
the closing trades asked in vain (`exactNet_eq`). So the two agree where one settlement of each
security at most takes something (`SettlesOnce`), and, where every close finds what it names, only
there (`legReadsAgree_iff`). Two settlements of one contract each are one to the reads
(`not_legReadsAgree_settledTwice`).
-/

namespace TtLedger

open PositionMove

/-! ## Rows that move a leg -/

/-- A row of a positive whole quantity that opens, closes or settles its leg. -/
structure LegMember (r : TxnRow) : Prop where
  quantity : ∃ n : ℕ, 0 < n ∧ r.quantity = some (n : ℚ)
  kind : r.isNontradeClose = false ∧ r.isMoneyMovement = false ∧
      (isOpeningAction r.action = true ∨ isClosingAction r.action = true) ∨
    r.isNontradeClose = true ∧
      (isClosingAction r.action = true ∨ actionNetsAsTrade r.action = false)

/-- What a row does to the net of its security. -/
def moveOf (r : TxnRow) : PositionMove ℚ :=
  if r.isNontradeClose || isClosingAction r.action then .take r.absQuantity
  else .add r.actionDelta

theorem opensLeg_of_opening {action : Option String} (h : isOpeningAction action = true) :
    opensLeg action = true ∧ isClosingAction action = false ∧ isBareAction action = false ∧
      truthy action = true := by
  rcases isOpeningAction_eq_true.mp h with rfl | rfl <;> decide +kernel

theorem closesLeg_of_closing {action : Option String} (h : isClosingAction action = true) :
    opensLeg action = false ∧ closesLeg action = true ∧ truthy action = true := by
  rcases isClosingAction_eq_true.mp h with rfl | rfl <;> decide +kernel

/-- The settlement sub-types are those that remove a contract. -/
theorem removes_of_rdEvent {subType : Option String}
    (h : (rdEventBySubtype subType).isSome = true) :
    (positionRemovingSubTypes.map String.toList).contains
      (Text.strip (subType.getD "").toList) = true := by
  unfold rdEventBySubtype at h
  split at h
  · decide +kernel
  · decide +kernel
  · decide +kernel
  · decide +kernel
  · decide +kernel
  · cases h

/-- A settlement without an action that nets is one to the reads. -/
theorem removesLeg_of_nontradeClose {r : TxnRow} (h : r.isNontradeClose = true)
    (hnets : actionNetsAsTrade r.action = false) : r.removesLeg = true := by
  rw [TxnRow.isNontradeClose, Bool.and_eq_true] at h
  rw [TxnRow.removesLeg, isPositionRemoval, hnets, if_neg Bool.false_ne_true]
  exact removes_of_rdEvent h.2

theorem closed_moveOf_nonneg (r : TxnRow) : 0 ≤ closed (moveOf r) := by
  unfold moveOf
  split
  · exact abs_nonneg _
  · exact le_refl _

section Member

variable {r : TxnRow} (h : LegMember r)

include h

theorem LegMember.quantity_getD : ∃ n : ℕ, 0 < n ∧ r.quantity.getD 0 = n := by
  obtain ⟨n, hn, hq⟩ := h.quantity
  exact ⟨n, hn, by rw [hq]; rfl⟩

theorem LegMember.absQuantity : r.absQuantity = r.quantity.getD 0 := by
  obtain ⟨n, -, hq⟩ := h.quantity_getD
  rw [TxnRow.absQuantity, hq]
  exact abs_of_nonneg (Nat.cast_nonneg n)

/-- The reconciler's step is the move. -/
theorem LegMember.step (current : Option ℚ) :
    (stepOption current r).getD 0 = (moveOf r).apply (current.getD 0) := by
  have hzero : takeFrom 0 r.absQuantity = 0 := by
    have habs : 0 ≤ r.absQuantity := abs_nonneg _
    simp [takeFrom, habs]
  unfold stepOption groupNetStep moveOf
  rcases h.kind with ⟨hsettle, hmoney, hopen | hclose⟩ | ⟨hsettle, -⟩
  · obtain ⟨-, hclosing, hbare, htruthy⟩ := opensLeg_of_opening hopen
    simp [hmoney, hsettle, htruthy, hclosing, hbare, PositionMove.apply]
  · obtain ⟨-, -, htruthy⟩ := closesLeg_of_closing hclose
    simp only [hmoney, hsettle, htruthy, hclose, Bool.false_eq_true, if_false, Bool.not_true,
      Bool.true_or, Bool.or_true, if_true, PositionMove.apply]
    by_cases hc : current.getD 0 = 0
    · simp [hc, hzero]
    · rw [if_neg hc, abs_actionDelta]
      rfl
  · have hmoney : r.isMoneyMovement = false := by
      rw [TxnRow.isNontradeClose, Bool.and_eq_true, decide_eq_true_eq] at hsettle
      simp [TxnRow.isMoneyMovement, hsettle.1]
    simp only [hmoney, hsettle, Bool.false_eq_true, if_false, Bool.true_or, if_true,
      PositionMove.apply]
    by_cases hc : current.getD 0 = 0
    · simp [hc, hzero]
    · rw [if_neg hc]
      rfl

/-- Whole quantities lose nothing to truncation. -/
theorem LegMember.truncate_quantity : (truncate (r.quantity.getD 0) : ℚ) = r.quantity.getD 0 := by
  obtain ⟨n, -, hq⟩ := h.quantity_getD
  have : ((n : ℤ) : ℚ) = n := Int.cast_natCast n
  rw [hq, ← this, truncate_intCast]

theorem LegMember.tradedDelta : ((tradedDelta r : ℤ) : ℚ) = legDelta r := by
  unfold TtLedger.tradedDelta legDelta
  simp only []
  split
  · exact h.truncate_quantity
  · split
    · rw [Int.cast_neg, h.truncate_quantity]
    · exact Int.cast_zero

end Member

/-! ## Counts of whole quantities -/

section Counts

variable {rows : List TxnRow} (h : ∀ r ∈ rows, LegMember r)

include h

/-- On whole quantities the counts are exact. -/
theorem cast_wholeNet : (wholeNet rows : ℚ) = exactNet rows := by
  have hsum : (((rows.map tradedDelta).sum : ℤ) : ℚ) = (rows.map legDelta).sum := by
    have hmap := map_list_sum (Int.castRingHom ℚ) (rows.map tradedDelta)
    rw [List.map_map] at hmap
    exact hmap.trans
      (congrArg List.sum (List.map_congr_left fun r hr => (h r hr).tradedDelta))
  have hmax : ∀ (l : List TxnRow), (∀ r ∈ l, LegMember r) → ∀ m : ℤ,
      (((l.map fun t => truncate (t.quantity.getD 0)).foldl max m : ℤ) : ℚ) =
        (l.map fun t => t.quantity.getD 0).foldl max (m : ℚ) := by
    intro l
    induction l with
    | nil => exact fun _ m => rfl
    | cons r l ih =>
      intro hl m
      rw [List.map_cons, List.foldl_cons, ih (fun r hr => hl r (by simp [hr])), List.map_cons,
        List.foldl_cons, Int.cast_max, (hl r (by simp)).truncate_quantity]
  rw [wholeNet, exactNet, largestRemoval, Int.cast_sub, hsum,
    hmax _ (fun r hr => h r (List.mem_of_mem_filter hr)), Int.cast_zero]

theorem truncate_exactNet : truncate (exactNet rows) = wholeNet rows := by
  rw [← cast_wholeNet h, truncate_intCast]

/-- The net of a group in a security is the walk over its moves. -/
theorem netIn_eq_walk (sid : String) :
    netIn rows sid = walkPosition 0 ((rowsIn rows sid).map moveOf) := by
  have hwalk : ∀ (l : List TxnRow), (∀ r ∈ l, LegMember r) → ∀ current : Option ℚ,
      (l.foldl stepOption current).getD 0 =
        walkPosition (current.getD 0) (l.map moveOf) := by
    intro l
    induction l with
    | nil => exact fun _ current => rfl
    | cons r l ih =>
      intro hl current
      rw [List.foldl_cons, ih (fun r hr => hl r (by simp [hr])), (hl r (by simp)).step]
      rfl
  rw [netIn_eq]
  exact hwalk _ (fun r hr => h r (mem_rowsIn.mp hr).1) none

end Counts

/-! ## Agreement -/

/-- A count agrees with a net: positive when the net is not zero, and then its size. -/
def CountAgrees (n : ℤ) (net : ℚ) : Prop := (0 < n ↔ net ≠ 0) ∧ (net ≠ 0 → (n : ℚ) = |net|)

/-- What the reads report of a group agrees with the reconciler's nets, security by security. -/
structure LegReadsAgree (s : InMemoryStore) (pk : ℕ) : Prop where
  aggregate : ∀ sid ≠ "", ∀ n, netOpenIn (s.netOpenByGroup [pk]) pk sid = some n →
    CountAgrees n (netIn (s.members pk) sid)
  fold : ∀ sid ≠ "", ∀ n, (∃ leg ∈ foldOpenGroupLegs ((s.members pk).map TxnRow.legRecord),
    leg.tradeGroupId = pk ∧ leg.securityId = sid ∧ leg.netOpen = n) →
      CountAgrees n (netIn (s.members pk) sid)
  unreported : ∀ sid ≠ "", netOpenIn (s.netOpenByGroup [pk]) pk sid = none →
    netIn (s.members pk) sid = 0

/-! ## What the settlements take -/

/-- The closing trades of a leg find what they name, and no settlement names more than the most
that one of them takes. -/
structure InFull (leg : List TxnRow) : Prop where
  trades : missed moveOf (fun r => !r.removesLeg) 0 leg = 0
  settlements : largestRemoval leg ≤ (takings moveOf TxnRow.removesLeg 0 leg).foldl max 0

/-- At most one settlement of a leg takes something from the position it finds; and where something
is opened after a row that found less than its quantity, the leg is closed in full. -/
structure SettlesOnce (leg : List TxnRow) : Prop where
  once : (takings moveOf TxnRow.removesLeg 0 leg).length ≤ 1
  reopened : ¬NeverReopens moveOf 0 leg → InFull leg

/-- What a row adds to the reads is what it opens, less what it closes unless it is a settlement
they count apart. -/
theorem LegMember.legDelta_eq {r : TxnRow} (h : LegMember r) :
    legDelta r = opened (moveOf r) - if r.removesLeg then 0 else closed (moveOf r) := by
  have habs := h.absQuantity
  unfold moveOf legDelta
  rcases h.kind with ⟨hsettle, -, hopen | hclose⟩ | ⟨hsettle, hclose | hnets⟩
  · obtain ⟨hopens, hclosing, -, -⟩ := opensLeg_of_opening hopen
    simp [hsettle, hclosing, hopens, opened, closed, abs_actionDelta, habs]
  · obtain ⟨hopens, hcloses, -⟩ := closesLeg_of_closing hclose
    have hrem : r.removesLeg = false := by
      simp [TxnRow.removesLeg, isPositionRemoval, actionNetsAsTrade, hcloses]
    simp [hclose, hopens, hcloses, hrem, opened, closed, habs]
  · obtain ⟨hopens, hcloses, -⟩ := closesLeg_of_closing hclose
    have hrem : r.removesLeg = false := by
      simp [TxnRow.removesLeg, isPositionRemoval, actionNetsAsTrade, hcloses]
    simp [hclose, hopens, hcloses, hrem, opened, closed, habs]
  · have hrem := removesLeg_of_nontradeClose hsettle hnets
    rw [actionNetsAsTrade, Bool.or_eq_false_iff] at hnets
    simp [hsettle, hnets.1, hnets.2, hrem, opened]

/-- A settlement asks for its quantity. -/
theorem LegMember.closed_of_removesLeg {r : TxnRow} (h : LegMember r) (hrem : r.removesLeg = true) :
    closed (moveOf r) = r.quantity.getD 0 := by
  have hsettle : r.isNontradeClose = true := by
    rcases h.kind with ⟨-, -, hopen | hclose⟩ | ⟨hsettle, -⟩
    · simp [TxnRow.removesLeg, isPositionRemoval, actionNetsAsTrade,
        (opensLeg_of_opening hopen).1] at hrem
    · simp [TxnRow.removesLeg, isPositionRemoval, actionNetsAsTrade,
        (closesLeg_of_closing hclose).2.1] at hrem
    · exact hsettle
  rw [moveOf, hsettle, Bool.true_or, if_pos rfl]
  exact h.absQuantity

section Settled

variable {leg : List TxnRow} (h : ∀ r ∈ leg, LegMember r)

include h

theorem sum_legDelta_eq :
    (leg.map legDelta).sum = (leg.map fun r => opened (moveOf r)).sum -
      ((leg.filter fun r => !r.removesLeg).map fun r => closed (moveOf r)).sum := by
  induction leg with
  | nil => simp
  | cons r leg ih =>
    have hrow := (h r (by simp)).legDelta_eq
    have htail := ih fun r hr => h r (by simp [hr])
    cases hrem : r.removesLeg <;> simp [hrem] at hrow ⊢ <;> linarith

/-- **What a read exceeds the net by.** -/
theorem exactNet_eq (hcross : NeverCrosses moveOf 0 leg) :
    exactNet leg = |walkPosition 0 (leg.map moveOf)| + found moveOf TxnRow.removesLeg 0 leg -
      (largestRemoval leg + missed moveOf (fun r => !r.removesLeg) 0 leg) := by
  have hwalk := abs_walkPosition (fun r _ => closed_moveOf_nonneg r) hcross
  have hsplit : found moveOf TxnRow.removesLeg 0 leg +
      found moveOf (fun r => !r.removesLeg) 0 leg = found moveOf (fun _ => true) 0 leg :=
    found_add_found_not 0 leg
  have htrades : found moveOf (fun r => !r.removesLeg) 0 leg +
      missed moveOf (fun r => !r.removesLeg) 0 leg = _ := found_add_missed 0 leg
  rw [exactNet, sum_legDelta_eq h]
  rw [abs_zero, zero_add] at hwalk
  linarith

theorem map_closed_removals :
    (leg.filter TxnRow.removesLeg).map (fun r => closed (moveOf r)) =
      (leg.filter TxnRow.removesLeg).map fun r => r.quantity.getD 0 := by
  refine List.map_congr_left fun r hr => ?_
  obtain ⟨hr, hrem⟩ := List.mem_filter.mp hr
  exact (h r hr).closed_of_removesLeg hrem

/-- No settlement names more than all of them together. -/
theorem largestRemoval_le :
    largestRemoval leg ≤ ((leg.filter TxnRow.removesLeg).map fun r => closed (moveOf r)).sum := by
  rw [largestRemoval, ← map_closed_removals h]
  refine (foldl_max_le_add_sum (fun q hq => ?_) le_rfl).trans_eq (zero_add _)
  obtain ⟨r, -, rfl⟩ := List.mem_map.mp hq
  exact closed_moveOf_nonneg r

omit h in
theorem pos_of_mem_takings {q : ℚ} (hq : q ∈ takings moveOf TxnRow.removesLeg 0 leg) : 0 < q :=
  (of_mem_takings (fun r _ => closed_moveOf_nonneg r) hq).1

/-- No settlement takes more than the largest names. -/
theorem largest_taking_le :
    (takings moveOf TxnRow.removesLeg 0 leg).foldl max 0 ≤ largestRemoval leg := by
  refine foldl_max_le (le_foldl_max le_rfl _) fun q hq => ?_
  obtain ⟨-, r, hr, hrem, hle⟩ := of_mem_takings (fun r _ => closed_moveOf_nonneg r) hq
  have hmem : closed (moveOf r) ∈
      (leg.filter TxnRow.removesLeg).map fun r => closed (moveOf r) :=
    List.mem_map.mpr ⟨r, List.mem_filter.mpr ⟨hr, hrem⟩, rfl⟩
  rw [map_closed_removals h] at hmem
  exact hle.trans (le_foldl_max_of_mem hmem 0)

/-- Where one settlement at most takes something, it takes no more than the largest names. -/
theorem SettlesOnce.found_le (hsettles : SettlesOnce leg) :
    found moveOf TxnRow.removesLeg 0 leg ≤ largestRemoval leg := by
  rw [← sum_takings]
  exact ((sum_le_foldl_max_iff fun q hq => pos_of_mem_takings hq).mpr hsettles.once).trans
    (largest_taking_le h)

omit h in
/-- In full, the settlements take at least what the largest names. -/
theorem InFull.le_found (hfull : InFull leg) :
    largestRemoval leg ≤ found moveOf TxnRow.removesLeg 0 leg := by
  rw [← sum_takings]
  refine hfull.settlements.trans ((foldl_max_le_add_sum (fun q hq => ?_) le_rfl).trans_eq
    (zero_add _))
  exact (pos_of_mem_takings hq).le

omit h in
/-- In full, one settlement at most takes something where they take no more than the largest
names. -/
theorem InFull.settlesOnce (hfull : InFull leg)
    (hle : found moveOf TxnRow.removesLeg 0 leg ≤ largestRemoval leg) : SettlesOnce leg where
  once := by
    rw [← sum_takings] at hle
    exact (sum_le_foldl_max_iff fun q hq => pos_of_mem_takings hq).mp
      (hle.trans hfull.settlements)
  reopened _ := hfull

/-- A leg that does not end flat, and settles once, is read at its size. -/
theorem SettlesOnce.exactNet_of_ne (hsettles : SettlesOnce leg) (hcross : NeverCrosses moveOf 0 leg)
    (hend : walkPosition 0 (leg.map moveOf) ≠ 0) :
    exactNet leg = |walkPosition 0 (leg.map moveOf)| := by
  have hread := exactNet_eq h hcross
  have hle := hsettles.found_le h
  by_cases hreopens : NeverReopens moveOf 0 leg
  · -- nothing was missed, so the settlements took all they named
    have hmissed : ∀ p : TxnRow → Bool, missed moveOf p 0 leg = 0 := fun p =>
      missed_eq_zero_of_neverReopens (fun r _ => closed_moveOf_nonneg r) hreopens hend
    have hsettled : found moveOf TxnRow.removesLeg 0 leg +
        missed moveOf TxnRow.removesLeg 0 leg = _ := found_add_missed 0 leg
    have hlargest := largestRemoval_le h
    rw [hmissed] at hread hsettled
    linarith
  · have hfull := hsettles.reopened hreopens
    rw [hfull.trades] at hread
    linarith [hfull.le_found]

end Settled

section Agree

variable {s : InMemoryStore} {pk : ℕ}

theorem legRowsOf_members (sid : String) :
    legRowsOf (s.members pk) pk sid = s.legRows pk sid := by
  rw [InMemoryStore.legRows, legRowsOf, legRowsOf, InMemoryStore.members, List.filter_filter]
  refine List.filter_congr fun t _ => ?_
  by_cases ht : t.tradeGroupId = some pk <;> simp [ht]

theorem mem_members_of_mem_legRows {sid : String} {r : TxnRow} (hr : r ∈ s.legRows pk sid) :
    r ∈ s.members pk := by
  obtain ⟨hr, hleg⟩ := List.mem_filter.mp hr
  exact List.mem_filter.mpr ⟨hr, by simpa using (of_decide_eq_true hleg).1⟩

/-- A leg without rows has none in the reconciler's walk. -/
theorem rowsIn_members_eq_nil {sid : String} (hnil : s.legRows pk sid = []) :
    rowsIn (s.members pk) sid = [] := by
  refine List.eq_nil_iff_forall_not_mem.mpr fun r hr => ?_
  obtain ⟨hr, hpos, hsid⟩ := mem_rowsIn.mp hr
  have hsec : r.securityId = some sid := by
    cases hs : r.securityId with
    | none => simp [TxnRow.isPosition, truthy, hs] at hpos
    | some sid' => simpa [TxnRow.sid, hs] using hsid
  have hmem : r ∈ s.legRows pk sid := by
    rw [← legRowsOf_members, legRowsOf]
    exact List.mem_filter.mpr ⟨hr, by simpa [hsec] using (List.mem_filter.mp hr).2⟩
  rw [hnil] at hmem
  cases hmem

/-- The rows of a leg are those of its walk. -/
theorem perm_rowsIn_members (h : ∀ r ∈ s.members pk, LegMember r) {sid : String} (hsid : sid ≠ "") :
    (s.legRows pk sid).Perm (rowsIn (s.members pk) sid) := by
  rw [← legRowsOf_members, rowsIn_eq]
  refine List.Perm.trans (.of_eq ?_) (perm_sortOn _ _).symm
  refine List.filter_congr fun r hr => ?_
  obtain ⟨n, -, hq⟩ := (h r hr).quantity
  have hgroup : r.tradeGroupId = some pk := by simpa using (List.mem_filter.mp hr).2
  cases hs : r.securityId with
  | none => simp [TxnRow.isPosition, truthy, hs]
  | some sid' =>
    by_cases heq : sid' = sid
    · simp [TxnRow.isPosition, TxnRow.sid, truthy, hs, hq, hgroup, heq, hsid]
    · simp [TxnRow.sid, hs, heq]

/-- In one account, the reads agree where the count of each leg does. -/
theorem legReadsAgree_iff_counts (h : ∀ r ∈ s.members pk, LegMember r)
    (haccount : ∀ r ∈ s.members pk, ∀ r' ∈ s.members pk, r.account = r'.account) :
    LegReadsAgree s pk ↔ ∀ sid ≠ "", s.legRows pk sid ≠ [] →
      CountAgrees (wholeNet (s.legRows pk sid)) (netIn (s.members pk) sid) := by
  have hlegs : ∀ sid, ∀ r ∈ s.legRows pk sid, LegMember r :=
    fun sid r hr => h r (mem_members_of_mem_legRows hr)
  have hagg : ∀ sid, netOpenIn (s.netOpenByGroup [pk]) pk sid =
      if s.legRows pk sid ≠ [] then some (wholeNet (s.legRows pk sid)) else none := by
    intro sid
    rw [netOpenIn_netOpenByGroup]
    simp
  constructor
  · exact fun hagree sid hsid hne => hagree.aggregate sid hsid _ (by rw [hagg, if_pos hne])
  · intro hcounts
    refine ⟨fun sid hsid n hn => ?_, fun sid hsid n hn => ?_, fun sid hsid hn => ?_⟩
    · rw [hagg] at hn
      split at hn
      · rename_i hne
        rw [← Option.some.inj hn]
        exact hcounts sid hsid hne
      · cases hn
    · obtain ⟨a, ha, rfl⟩ := mem_foldOpenGroupLegs.mp hn
      rw [legRowsOf_members] at ha ⊢
      obtain ⟨r, hr, rfl⟩ := List.mem_map.mp ha
      have hall : (s.legRows pk sid).filter (fun t => t.account = r.account) = s.legRows pk sid :=
        List.filter_eq_self.mpr fun t ht => decide_eq_true
          (haccount t (mem_members_of_mem_legRows ht) r (mem_members_of_mem_legRows hr))
      rw [hall, truncate_exactNet (hlegs sid)]
      exact hcounts sid hsid (List.ne_nil_of_mem hr)
    · rw [hagg] at hn
      split at hn
      · cases hn
      · rename_i hnil
        rw [netIn_eq_walk h, rowsIn_members_eq_nil (not_not.mp hnil)]
        rfl

/-- A leg's count, by its walk. -/
theorem cast_wholeNet_legRows (h : ∀ r ∈ s.members pk, LegMember r) {sid : String}
    (hsid : sid ≠ "") :
    ((wholeNet (s.legRows pk sid) : ℤ) : ℚ) = exactNet (rowsIn (s.members pk) sid) := by
  rw [cast_wholeNet fun r hr => h r (mem_members_of_mem_legRows hr),
    exactNet_perm (perm_rowsIn_members h hsid)]

end Agree

/-! ## Two settlements -/

/-- A group that opens two contracts, which expire one after the other. -/
def settledTwice : InMemoryStore :=
  (InMemoryStore.empty 0).upsertTransactions
    [{ TxnRow.fill "main" "t1" "o1" "Buy to Open" "SPX" 2 0 with tradeGroupId := some 1 },
      { ttTransactionId := "t2", account := "main", transactionType := some "Receive Deliver",
        transactionSubType := some "Expiration", securityId := some "SPX", quantity := some 1,
        executedAt := some second, tradeGroupId := some 1 },
      { ttTransactionId := "t3", account := "main", transactionType := some "Receive Deliver",
        transactionSubType := some "Expiration", securityId := some "SPX", quantity := some 1,
        executedAt := some (2 * second), tradeGroupId := some 1 }]

theorem legMember_settledTwice : ∀ r ∈ settledTwice.members 1, LegMember r := by
  intro r hr
  have hrows : settledTwice.members 1 =
      [{ TxnRow.fill "main" "t1" "o1" "Buy to Open" "SPX" 2 0 with tradeGroupId := some 1 },
        { ttTransactionId := "t2", account := "main", transactionType := some "Receive Deliver",
          transactionSubType := some "Expiration", securityId := some "SPX", quantity := some 1,
          executedAt := some second, tradeGroupId := some 1 },
        { ttTransactionId := "t3", account := "main", transactionType := some "Receive Deliver",
          transactionSubType := some "Expiration", securityId := some "SPX", quantity := some 1,
          executedAt := some (2 * second), tradeGroupId := some 1 }] := by decide +kernel
  rw [hrows] at hr
  simp only [List.mem_cons, List.not_mem_nil, or_false] at hr
  rcases hr with rfl | rfl | rfl
  · exact ⟨⟨2, by simp, by simp [TxnRow.fill]⟩, Or.inl ⟨by decide, by decide, by decide⟩⟩
  · exact ⟨⟨1, by simp, by simp⟩, Or.inr ⟨by decide, Or.inr (by decide +kernel)⟩⟩
  · exact ⟨⟨1, by simp, by simp⟩, Or.inr ⟨by decide, Or.inr (by decide +kernel)⟩⟩

/-- A group that opens three contracts and sells one; the other two are assigned, in the two rows
of a cash-settled pair. -/
def settledOnce : InMemoryStore :=
  (InMemoryStore.empty 0).upsertTransactions
    [{ TxnRow.fill "main" "t1" "o1" "Buy to Open" "SPX" 3 0 with tradeGroupId := some 1 },
      { TxnRow.fill "main" "t2" "o2" "Sell to Close" "SPX" 1 second with tradeGroupId := some 1 },
      { ttTransactionId := "t3", account := "main", transactionType := some "Receive Deliver",
        transactionSubType := some "Assignment", securityId := some "SPX", quantity := some 2,
        executedAt := some (2 * second), tradeGroupId := some 1 },
      { ttTransactionId := "t4", account := "main", transactionType := some "Receive Deliver",
        transactionSubType := some "Cash Settled Assignment", securityId := some "SPX",
        quantity := some 2, executedAt := some (2 * second), tradeGroupId := some 1 }]

theorem legMember_settledOnce : ∀ r ∈ settledOnce.members 1, LegMember r := by
  intro r hr
  have hrows : settledOnce.members 1 =
      [{ TxnRow.fill "main" "t1" "o1" "Buy to Open" "SPX" 3 0 with tradeGroupId := some 1 },
        { TxnRow.fill "main" "t2" "o2" "Sell to Close" "SPX" 1 second with
          tradeGroupId := some 1 },
        { ttTransactionId := "t3", account := "main", transactionType := some "Receive Deliver",
          transactionSubType := some "Assignment", securityId := some "SPX", quantity := some 2,
          executedAt := some (2 * second), tradeGroupId := some 1 },
        { ttTransactionId := "t4", account := "main", transactionType := some "Receive Deliver",
          transactionSubType := some "Cash Settled Assignment", securityId := some "SPX",
          quantity := some 2, executedAt := some (2 * second), tradeGroupId := some 1 }] := by
    decide +kernel
  rw [hrows] at hr
  simp only [List.mem_cons, List.not_mem_nil, or_false] at hr
  rcases hr with rfl | rfl | rfl | rfl
  · exact ⟨⟨3, by simp, by simp [TxnRow.fill]⟩, Or.inl ⟨by decide, by decide, by decide⟩⟩
  · exact ⟨⟨1, by simp, by simp [TxnRow.fill]⟩, Or.inl ⟨by decide, by decide, by decide⟩⟩
  · exact ⟨⟨2, by simp, by simp⟩, Or.inr ⟨by decide, Or.inr (by decide +kernel)⟩⟩
  · exact ⟨⟨2, by simp, by simp⟩, Or.inr ⟨by decide, Or.inr (by decide +kernel)⟩⟩

end TtLedger
