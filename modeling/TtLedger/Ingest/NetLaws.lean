import TtLedger.Ingest.Lapse

/-!
# Laws of the net walk

The walk treats securities independently: `stepOption` is its effect on one security, and
`get?_netQuantities` reads a net off the dictionary as a fold over that security's rows. The
walks, the causes and the money of a group depend on a row through its *book*, the row without
its links (`book`), so that attaching or linking a row changes none of them (`netQuantities_book`,
`fullyClosed_book`, …). Where simultaneous rows of one security commute, they do not depend on
the order of the rows either (`get?_netQuantities_of_perm`, `fullyClosed_of_perm`).
-/

namespace TtLedger

/-! ## One security at a time -/

/-- The effect of a row on the net of its security; `none` while the group has not traded it. -/
def stepOption (current : Option ℚ) (r : TxnRow) : Option ℚ :=
  groupNetStep (current.getD 0) r <|> current

theorem get?_netWalk (d : Dict String ℚ) (r : TxnRow) (sid : String) :
    (netWalk d r).get? sid = if r.sid = sid then stepOption (d.get? sid) r else d.get? sid := by
  unfold netWalk
  by_cases h : r.sid = sid
  · subst h
    cases hs : groupNetStep ((d.get? r.sid).getD 0) r with
    | none => simp [stepOption, hs]
    | some stepped => simp [stepOption, hs]
  · split
    · rw [Dict.get?_set, if_neg (Ne.symm h), if_neg h]
    · rw [if_neg h]

theorem get?_foldl_netWalk (l : List TxnRow) (d : Dict String ℚ) (sid : String) :
    (l.foldl netWalk d).get? sid =
      (l.filter fun r => r.sid = sid).foldl stepOption (d.get? sid) := by
  induction l generalizing d with
  | nil => rfl
  | cons r l ih =>
    rw [List.foldl_cons, ih, get?_netWalk]
    by_cases h : r.sid = sid <;> simp [h]

/-- The position rows of one security, in time order. -/
def rowsIn (rows : List TxnRow) (sid : String) : List TxnRow :=
  (orderedPositionRows rows).filter fun r => r.sid = sid

theorem rowsIn_eq (rows : List TxnRow) (sid : String) :
    rowsIn rows sid =
      sortOn (fun r => timeKey r.executedAt)
        (rows.filter fun r => r.isPosition && r.sid = sid) := by
  rw [rowsIn, orderedPositionRows, filter_sortOn, List.filter_filter]
  simp only [Bool.and_comm]

theorem mem_rowsIn {rows : List TxnRow} {sid : String} {r : TxnRow} :
    r ∈ rowsIn rows sid ↔ r ∈ rows ∧ r.isPosition = true ∧ r.sid = sid := by
  simp [rowsIn, orderedPositionRows, and_assoc]

/-- A net is the fold of its security's rows. -/
theorem get?_netQuantities (rows : List TxnRow) (sid : String) :
    (netQuantities rows).get? sid = (rowsIn rows sid).foldl stepOption none := by
  rw [netQuantities, get?_foldl_netWalk, Dict.get?_empty, rowsIn]

theorem netIn_eq (rows : List TxnRow) (sid : String) :
    netIn rows sid = ((rowsIn rows sid).foldl stepOption none).getD 0 := by
  rw [netIn, get?_netQuantities]

/-- The group has opened something, in intent or as a bare trade. -/
def openedSomething (rows : List TxnRow) : Bool :=
  rows.any fun r => r.isOpening || isBareAction r.action

theorem fullyClosed_iff (rows : List TxnRow) :
    fullyClosed rows = true ↔
      (∃ sid, (netQuantities rows).get? sid ≠ none) ∧ openedSomething rows = true ∧
        ∀ sid, netIn rows sid = 0 := by
  have hne : (netQuantities rows).entries.isEmpty = false ↔
      ∃ sid, (netQuantities rows).get? sid ≠ none := by
    rw [← Bool.not_eq_true, List.isEmpty_iff, Dict.entries_eq_nil_iff]
    simp
  have hall : (netQuantities rows).values.all (fun q => decide (q = 0)) = true ↔
      ∀ sid, netIn rows sid = 0 := by
    simp only [Dict.values, List.all_map, List.all_eq_true, Function.comp_apply,
      decide_eq_true_eq]
    constructor
    · intro h sid
      cases hg : (netQuantities rows).get? sid with
      | none => simp [netIn, hg]
      | some q => simpa [netIn, hg] using h (sid, q) (Dict.get?_eq_some.mp hg)
    · intro h e he
      simpa [netIn, Dict.get?_eq_some.mpr (show (e.1, e.2) ∈ _ from he)] using h e.1
  rw [← hne, ← hall]
  simp [fullyClosed, openedSomething, and_assoc]

theorem netIn_of_fullyClosed {rows : List TxnRow} (h : fullyClosed rows = true) (sid : String) :
    netIn rows sid = 0 :=
  ((fullyClosed_iff rows).mp h).2.2 sid

theorem orderedPositionRows_sortOn (rows : List TxnRow) :
    orderedPositionRows (sortOn (fun r => timeKey r.executedAt) rows) =
      orderedPositionRows rows := by
  rw [orderedPositionRows, filter_sortOn, sortOn_sortOn, orderedPositionRows]

theorem netQuantities_sortOn (rows : List TxnRow) :
    netQuantities (sortOn (fun r => timeKey r.executedAt) rows) = netQuantities rows := by
  rw [netQuantities, orderedPositionRows_sortOn, netQuantities]

/-- Whether some of the rows are sorted already makes no difference. -/
theorem netQuantities_sortOn_append (rows rows' : List TxnRow) :
    netQuantities (sortOn (fun r => timeKey r.executedAt) rows ++ rows') =
      netQuantities (rows ++ rows') := by
  rw [← netQuantities_sortOn, sortOn_append_sortOn, netQuantities_sortOn]

/-! ## The book of a row -/

/-- A row without its links to orders, positions and groups. -/
def TxnRow.book (r : TxnRow) : TxnRow :=
  { r with
    orderId := none
    orderLegId := none
    positionId := none
    closedPositionId := none
    tradeGroupId := none }

theorem orderedPositionRows_book (rows : List TxnRow) :
    orderedPositionRows (rows.map TxnRow.book) = (orderedPositionRows rows).map TxnRow.book := by
  rw [orderedPositionRows, List.filter_map, sortOn_map]
  rfl

theorem netQuantities_book (rows : List TxnRow) :
    netQuantities (rows.map TxnRow.book) = netQuantities rows := by
  rw [netQuantities, orderedPositionRows_book, List.foldl_map]
  rfl

theorem netIn_book (rows : List TxnRow) (sid : String) :
    netIn (rows.map TxnRow.book) sid = netIn rows sid := by
  rw [netIn, netQuantities_book, netIn]

theorem openedSomething_book (rows : List TxnRow) :
    openedSomething (rows.map TxnRow.book) = openedSomething rows := by
  rw [openedSomething, List.any_map]
  rfl

theorem fullyClosed_book (rows : List TxnRow) :
    fullyClosed (rows.map TxnRow.book) = fullyClosed rows := by
  simp only [fullyClosed, netQuantities_book]
  rw [show (rows.map TxnRow.book).any (fun r => r.isOpening || isBareAction r.action) =
    rows.any (fun r => r.isOpening || isBareAction r.action) from openedSomething_book rows]

theorem closeCauses_book (rows : List TxnRow) :
    closeCauses (rows.map TxnRow.book) = closeCauses rows := by
  rw [closeCauses, netQuantities_book, List.filterMap_map]
  rfl

theorem closedStatus_book (rows : List TxnRow) :
    closedStatus (rows.map TxnRow.book) = closedStatus rows := by
  rw [closedStatus, closeCauses_book, closedStatus]

theorem totalFees_book (rows : List TxnRow) :
    totalFees (rows.map TxnRow.book) = totalFees rows := by
  rw [totalFees, List.map_map]
  rfl

theorem securityIds_book (pk pk' : ℕ) (rows : List TxnRow) :
    (⟨pk, rows.map TxnRow.book⟩ : OpenGroup).securityIds =
      (⟨pk', rows⟩ : OpenGroup).securityIds := by
  rw [OpenGroup.securityIds, List.filter_map, List.map_map]
  rfl

/-- Two member lists with the same books. -/
def SameBook (rows rows' : List TxnRow) : Prop := rows.map TxnRow.book = rows'.map TxnRow.book

namespace SameBook

variable {rows rows' : List TxnRow}

theorem netIn_eq (h : SameBook rows rows') (sid : String) : netIn rows sid = netIn rows' sid := by
  rw [← netIn_book, h, netIn_book]

theorem netQuantities_eq (h : SameBook rows rows') : netQuantities rows = netQuantities rows' := by
  rw [← netQuantities_book, h, netQuantities_book]

theorem fullyClosed_eq (h : SameBook rows rows') : fullyClosed rows = fullyClosed rows' := by
  rw [← fullyClosed_book, h, fullyClosed_book]

theorem securityIds_eq (h : SameBook rows rows') (pk pk' : ℕ) :
    (⟨pk, rows⟩ : OpenGroup).securityIds = (⟨pk', rows'⟩ : OpenGroup).securityIds := by
  rw [← securityIds_book 0, h, securityIds_book 0 pk']

theorem append (h : SameBook rows rows') (new : List TxnRow) :
    SameBook (rows ++ new) (rows' ++ new) := by
  have hbook : rows.map TxnRow.book = rows'.map TxnRow.book := h
  rw [SameBook, List.map_append, List.map_append, hbook]

end SameBook

/-! ## The order of the rows -/

/-- Simultaneous rows of one security commute in the walk. -/
def TiesCommute (rows : List TxnRow) : Prop :=
  ∀ a ∈ rows, ∀ b ∈ rows, a.isPosition = true → b.isPosition = true → a.sid = b.sid →
    timeKey a.executedAt = timeKey b.executedAt →
    ∀ net : Option ℚ, stepOption (stepOption net a) b = stepOption (stepOption net b) a

theorem get?_netQuantities_of_perm {rows rows' : List TxnRow} (hp : rows.Perm rows')
    (hc : TiesCommute rows) (sid : String) :
    (netQuantities rows).get? sid = (netQuantities rows').get? sid := by
  rw [get?_netQuantities, get?_netQuantities, rowsIn_eq, rowsIn_eq]
  refine foldl_sortOn_of_perm _ stepOption (hp.filter _) ?_ none
  intro a ha b hb hk net
  simp only [List.mem_filter, Bool.and_eq_true, decide_eq_true_eq] at ha hb
  exact hc a ha.1 b hb.1 ha.2.1 hb.2.1 (ha.2.2.trans hb.2.2.symm) hk net

theorem netIn_of_perm {rows rows' : List TxnRow} (hp : rows.Perm rows') (hc : TiesCommute rows)
    (sid : String) : netIn rows sid = netIn rows' sid := by
  rw [netIn, get?_netQuantities_of_perm hp hc, netIn]

theorem openedSomething_of_perm {rows rows' : List TxnRow} (hp : rows.Perm rows') :
    openedSomething rows = openedSomething rows' := by
  rw [Bool.eq_iff_iff]
  simp only [openedSomething, List.any_eq_true, hp.mem_iff]

/-- Sorting the rows by time closes nothing. -/
theorem fullyClosed_sortOn (rows : List TxnRow) :
    fullyClosed (sortOn (fun r => timeKey r.executedAt) rows) = fullyClosed rows := by
  rw [Bool.eq_iff_iff, fullyClosed_iff, fullyClosed_iff, openedSomething_of_perm (perm_sortOn _ _)]
  simp only [netIn, netQuantities_sortOn]

theorem fullyClosed_sortOn_append (rows rows' : List TxnRow) :
    fullyClosed (sortOn (fun r => timeKey r.executedAt) rows ++ rows') =
      fullyClosed (rows ++ rows') := by
  rw [← fullyClosed_sortOn, sortOn_append_sortOn, fullyClosed_sortOn]

theorem fullyClosed_of_perm {rows rows' : List TxnRow} (hp : rows.Perm rows')
    (hc : TiesCommute rows) : fullyClosed rows = fullyClosed rows' := by
  rw [Bool.eq_iff_iff, fullyClosed_iff, fullyClosed_iff, openedSomething_of_perm hp]
  simp only [get?_netQuantities_of_perm hp hc, netIn_of_perm hp hc]

/-! ## What does not depend on the order -/

/-- Whether a row enters its security into the walk, whatever the net is. -/
def TxnRow.enters (r : TxnRow) : Bool :=
  !r.isMoneyMovement && !r.isNontradeClose && truthy r.action && !isClosingAction r.action

theorem groupNetStep_zero_isSome (r : TxnRow) : (groupNetStep 0 r).isSome = r.enters := by
  unfold groupNetStep TxnRow.enters
  cases r.isMoneyMovement <;> cases r.isNontradeClose <;> cases truthy r.action <;>
    cases isClosingAction r.action <;> simp

theorem stepOption_none_isSome (r : TxnRow) : (stepOption none r).isSome = r.enters := by
  rw [← groupNetStep_zero_isSome]
  simp [stepOption]

theorem foldl_stepOption_isSome (l : List TxnRow) (net : Option ℚ) :
    (l.foldl stepOption net).isSome = (net.isSome || l.any TxnRow.enters) := by
  induction l generalizing net with
  | nil => simp
  | cons r l ih =>
    rw [List.foldl_cons, ih, List.any_cons]
    cases net with
    | none => simp [stepOption_none_isSome]
    | some n => simp [stepOption]

/-- A security is in the walk when some row enters it. -/
theorem get?_netQuantities_ne_none_iff (rows : List TxnRow) (sid : String) :
    (netQuantities rows).get? sid ≠ none ↔
      ∃ r ∈ rows, r.isPosition = true ∧ r.sid = sid ∧ r.enters = true := by
  rw [get?_netQuantities, ← Option.isSome_iff_ne_none, foldl_stepOption_isSome]
  simp only [Option.isSome_none, Bool.false_or, List.any_eq_true, mem_rowsIn, and_assoc]

theorem get?_netQuantities_eq_zero_iff {rows : List TxnRow} (h : fullyClosed rows = true)
    (sid : String) :
    (netQuantities rows).get? sid = some 0 ↔
      ∃ r ∈ rows, r.isPosition = true ∧ r.sid = sid ∧ r.enters = true := by
  rw [← get?_netQuantities_ne_none_iff]
  have hzero := netIn_of_fullyClosed h sid
  rw [netIn] at hzero
  cases hget : (netQuantities rows).get? sid with
  | none => simp
  | some q =>
    rw [hget, Option.getD_some] at hzero
    simp [hzero]

theorem eraseDups_perm {α : Type} [DecidableEq α] {l l' : List α} (h : ∀ a, a ∈ l ↔ a ∈ l') :
    l.eraseDups.Perm l'.eraseDups := by
  refine (List.perm_ext_iff_of_nodup (nodup_eraseDups l) (nodup_eraseDups l')).mpr fun a => ?_
  rw [List.mem_eraseDups, List.mem_eraseDups, h a]

/-- Two lists with the same causes leave the same status. -/
theorem closedStatus_of_causes {rows rows' : List TxnRow}
    (h : (closeCauses rows).Perm (closeCauses rows')) : closedStatus rows = closedStatus rows' := by
  unfold closedStatus
  generalize closeCauses rows = causes at h
  generalize closeCauses rows' = causes' at h
  match causes, causes', h with
  | [], causes', h => rw [List.nil_perm.mp h]
  | [c], causes', h => rw [List.singleton_perm.mp h]
  | c :: c₂ :: causes, [], h => exact absurd h.length_eq (by simp)
  | c :: c₂ :: causes, [d], h => exact absurd h.length_eq (by simp)
  | c :: c₂ :: causes, d :: d₂ :: causes', h => rfl

/-- The status of a fully closed group does not depend on the order of its rows. -/
theorem closedStatus_of_perm {rows rows' : List TxnRow} (hp : rows.Perm rows')
    (h : fullyClosed rows = true) (h' : fullyClosed rows' = true) :
    closedStatus rows = closedStatus rows' := by
  apply closedStatus_of_causes
  apply eraseDups_perm
  have hnet : ∀ sid, (netQuantities rows).get? sid = some 0 ↔
      (netQuantities rows').get? sid = some 0 := by
    intro sid
    rw [get?_netQuantities_eq_zero_iff h, get?_netQuantities_eq_zero_iff h']
    simp only [hp.mem_iff]
  have hcause : ∀ r, closeCause (netQuantities rows) r = closeCause (netQuantities rows') r := by
    intro r
    simp only [closeCause, hnet]
  intro cause
  simp only [List.mem_filterMap, hcause, hp.mem_iff]

theorem closedStatus_of_perm_book {rows rows' : List TxnRow}
    (hp : (rows.map TxnRow.book).Perm (rows'.map TxnRow.book)) (h : fullyClosed rows = true)
    (h' : fullyClosed rows' = true) : closedStatus rows = closedStatus rows' := by
  rw [← closedStatus_book, ← closedStatus_book rows']
  exact closedStatus_of_perm hp (by rw [fullyClosed_book, h]) (by rw [fullyClosed_book, h'])

theorem totalFees_of_perm_book {rows rows' : List TxnRow}
    (hp : (rows.map TxnRow.book).Perm (rows'.map TxnRow.book)) :
    totalFees rows = totalFees rows' := by
  rw [← totalFees_book, ← totalFees_book rows']
  exact (hp.map TxnRow.rowFees).sum_eq

theorem lastExecutedAt_eq_some {rows : List TxnRow} {t : Datetime} :
    lastExecutedAt rows = some t ↔
      (∃ r ∈ rows, r.executedAt = some t) ∧
        ∀ r ∈ rows, ∀ t', r.executedAt = some t' → t' ≤ t := by
  rw [lastExecutedAt, List.max?_eq_some_iff]
  simp only [List.mem_filterMap]
  constructor
  · rintro ⟨hmem, hle⟩
    exact ⟨hmem, fun r hr t' ht' => hle t' ⟨r, hr, ht'⟩⟩
  · rintro ⟨hmem, hle⟩
    refine ⟨hmem, ?_⟩
    rintro t' ⟨r, hr, ht'⟩
    exact hle r hr t' ht'

theorem lastExecutedAt_eq_none {rows : List TxnRow} :
    lastExecutedAt rows = none ↔ ∀ r ∈ rows, r.executedAt = none := by
  rw [lastExecutedAt, List.max?_eq_none_iff, List.filterMap_eq_nil_iff]

theorem lastExecutedAt_of_perm {rows rows' : List TxnRow} (hp : rows.Perm rows') :
    lastExecutedAt rows = lastExecutedAt rows' := by
  cases h : lastExecutedAt rows' with
  | none =>
    rw [lastExecutedAt_eq_none] at h ⊢
    exact fun r hr => h r (hp.subset hr)
  | some t =>
    rw [lastExecutedAt_eq_some] at h ⊢
    simpa only [hp.mem_iff] using h

end TtLedger
