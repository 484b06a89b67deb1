import TtLedger.Store.OpenLegLaws

/-!
# No drift between the reads of open legs

The legs of the open book and the per-group aggregate report the same whole number for a leg, on
the in-memory store and on a SQL store over the same rows, when the leg is of one account and SQL
matches the words of its rows as the fold does (`ReadAlike`), exactly where truncation drops the
fractional parts of its quantities beside their whole parts (`FractionsDrop`,
`readsAgree_iff_fractionsDrop`): the fold truncates the net of a leg once, the in-memory aggregate
each quantity, the SQL aggregate its two sums. Whole quantities have no fractional parts
(`fractionsDrop_of_whole`); two half contracts are one contract to the fold and none to the
in-memory aggregate (`not_readsAgree_halves`).
-/

namespace TtLedger

/-! ## What the legs report -/

/-- Some leg of the group in the security carries the count. -/
def Reports (legs : List OpenGroupLegRow) (pk : ℕ) (sid : String) (n : ℤ) : Prop :=
  ∃ leg ∈ legs, leg.tradeGroupId = pk ∧ leg.securityId = sid ∧ leg.netOpen = n

/-- A count is reported exactly for the accounts with rows in the leg. -/
theorem reports_fold_iff {txns : List TxnRow} {p : TxnRow → Bool} {account : Option String}
    {pk : ℕ} {sid : String} {n : ℤ}
    (hp : ∀ t, t.tradeGroupId = some pk → t.securityId = some sid →
      p t = account.all (t.account = ·)) :
    Reports (foldOpenGroupLegs ((txns.filter p).map TxnRow.legRecord)) pk sid n ↔
      ∃ a ∈ (legRowsOf txns pk sid).map TxnRow.account, account.all (a = ·) = true ∧
        truncate (exactNet ((legRowsOf txns pk sid).filter fun t => t.account = a)) = n := by
  rw [Reports, mem_foldOpenGroupLegs, legRowsOf_filter txns p account hp]
  -- within one account, the filter by account keeps every row
  have hrows : ∀ a, account.all (a = ·) = true →
      ((legRowsOf txns pk sid).filter fun t => account.all (t.account = ·)).filter
        (fun t => t.account = a) = (legRowsOf txns pk sid).filter fun t => t.account = a := by
    intro a ha
    rw [List.filter_filter]
    refine List.filter_congr fun t _ => ?_
    by_cases ht : t.account = a
    · simp [ht, ha]
    · simp [ht]
  constructor
  · rintro ⟨a, hmem, hn⟩
    obtain ⟨t, ht, rfl⟩ := List.mem_map.mp hmem
    obtain ⟨ht, hacc⟩ := List.mem_filter.mp ht
    rw [hrows _ hacc] at hn
    exact ⟨t.account, List.mem_map.mpr ⟨t, ht, rfl⟩, hacc, hn⟩
  · rintro ⟨a, hmem, hacc, hn⟩
    obtain ⟨t, ht, rfl⟩ := List.mem_map.mp hmem
    refine ⟨t.account, List.mem_map.mpr ⟨t, List.mem_filter.mpr ⟨ht, hacc⟩, rfl⟩, ?_⟩
    rw [hrows _ hacc]
    exact hn

theorem reports_openGroupLegs {s : InMemoryStore} {account : Option String} {pk : ℕ}
    (hpk : pk ∈ s.openIds) {sid : String} {n : ℤ} :
    Reports (s.openGroupLegs account) pk sid n ↔
      ∃ a ∈ (s.legRows pk sid).map TxnRow.account, account.all (a = ·) = true ∧
        truncate (exactNet ((s.legRows pk sid).filter fun t => t.account = a)) = n :=
  reports_fold_iff fun t ht _ => by simp [ht, hpk]

theorem reports_sql_openGroupLegs {s : InMemoryStore} {scan : List TxnRow}
    (hscan : scan.Perm s.transactions.values) {account : Option String} {pk : ℕ}
    (hpk : pk ∈ s.openIds) {sid : String} {n : ℤ} :
    Reports (SqlLedgerStore.openGroupLegs scan s.tradeGroups.rows account) pk sid n ↔
      ∃ a ∈ (s.legRows pk sid).map TxnRow.account, account.all (a = ·) = true ∧
        truncate (exactNet ((s.legRows pk sid).filter fun t => t.account = a)) = n := by
  have hopen : (s.tradeGroups.rows.any fun p => p.1 = pk && p.2.status = .open) = true := by
    obtain ⟨p, hp, rfl⟩ := List.mem_map.mp hpk
    obtain ⟨hp, hstatus⟩ := List.mem_filter.mp hp
    exact List.any_eq_true.mpr ⟨p, hp, by simpa using hstatus⟩
  have hrows := legRowsOf_perm hscan pk sid
  have hp : ∀ t : TxnRow, t.tradeGroupId = some pk → t.securityId = some sid →
      (t.securityId.isSome && account.all (t.account = ·) && t.tradeGroupId.any fun pk =>
        s.tradeGroups.rows.any fun p => p.1 = pk && p.2.status = .open) =
        account.all (t.account = ·) := by
    intro t ht hsid
    rw [ht, hsid, Option.any_some, hopen, Option.isSome_some, Bool.and_true, Bool.true_and]
  refine (reports_fold_iff hp).trans ?_
  refine exists_congr fun a => and_congr (hrows.map _).mem_iff (and_congr_right fun _ => ?_)
  rw [exactNet_perm (hrows.filter fun t => t.account = a)]

/-! ## Agreement -/

/-- The reads of one leg report the same count, where they report one. -/
structure ReadsAgreeAt (dialect : Dialect) (s : InMemoryStore) (scan : List TxnRow) (ids : List ℕ)
    (pk : ℕ) (sid : String) : Prop where
  aggregates : netOpenIn (SqlLedgerStore.netOpenByGroup dialect scan ids) pk sid =
    netOpenIn (s.netOpenByGroup ids) pk sid
  legs : ∀ account n, Reports (s.openGroupLegs account) pk sid n →
    netOpenIn (s.netOpenByGroup ids) pk sid = some n
  sqlLegs : ∀ account n,
    Reports (SqlLedgerStore.openGroupLegs scan s.tradeGroups.rows account) pk sid n →
      netOpenIn (s.netOpenByGroup ids) pk sid = some n
  reported : ∀ n, netOpenIn (s.netOpenByGroup ids) pk sid = some n →
    Reports (s.openGroupLegs none) pk sid n ∧
      Reports (SqlLedgerStore.openGroupLegs scan s.tradeGroups.rows none) pk sid n

/-- The four reads agree on every leg of every open group, in whatever order the SQL store scans
its rows. -/
def ReadsAgree (dialect : Dialect) (s : InMemoryStore) : Prop :=
  ∀ scan, scan.Perm s.transactions.values → ∀ pk ∈ s.openIds, ∀ ids, pk ∈ ids → ∀ sid,
    ReadsAgreeAt dialect s scan ids pk sid

/-! ## Fractions -/

/-- The fractional part of what a row adds to the count of its leg. -/
def fractionDelta (t : TxnRow) : ℚ :=
  let part := fractional (t.quantity.getD 0)
  if opensLeg t.action then part else if closesLeg t.action then -part else 0

/-- Beside the whole parts of the quantities, truncation drops the fractional parts: those of the
openings less those of the closings, and these less that of the largest removal. -/
structure FractionsDrop (rows : List TxnRow) : Prop where
  traded : Drops (rows.map fractionDelta).sum (rows.map tradedDelta).sum
  net : Drops ((rows.map fractionDelta).sum - fractional (largestRemoval rows))
    ((rows.map tradedDelta).sum - truncate (largestRemoval rows))

/-- The rows of a leg are of one account, and SQL matches their words as the fold does. -/
structure ReadAlike (dialect : Dialect) (rows : List TxnRow) : Prop where
  account : ∀ t ∈ rows, ∀ t' ∈ rows, t.account = t'.account
  opens : ∀ t ∈ rows, SqlLedgerStore.opens dialect t = opensLeg t.action
  closes : ∀ t ∈ rows, SqlLedgerStore.closes dialect t = closesLeg t.action
  subType : ∀ t ∈ rows, t.transactionSubType.any (positionRemovingSubTypes.contains ·) =
    (positionRemovingSubTypes.map String.toList).contains
      (Text.strip (t.transactionSubType.getD "").toList)

section Fractions

variable {dialect : Dialect} {rows : List TxnRow}

theorem legDelta_eq (t : TxnRow) : legDelta t = tradedDelta t + fractionDelta t := by
  have hparts := truncate_add_fractional (t.quantity.getD 0)
  unfold legDelta tradedDelta fractionDelta
  split
  · exact hparts.symm
  · split
    · push_cast
      linarith
    · simp

theorem sum_legDelta (rows : List TxnRow) :
    (rows.map legDelta).sum = ((rows.map tradedDelta).sum : ℤ) + (rows.map fractionDelta).sum := by
  induction rows with
  | nil => simp
  | cons t rows ih =>
    simp only [List.map_cons, List.sum_cons]
    rw [ih, legDelta_eq]
    push_cast
    ring

theorem wholeNet_eq (rows : List TxnRow) :
    wholeNet rows = (rows.map tradedDelta).sum - truncate (largestRemoval rows) := by
  rw [wholeNet, largestRemoval, ← foldl_max_truncate, truncate_zero, List.map_map]
  rfl

/-- The fold counts the whole parts where the fractions drop beside the net. -/
theorem truncate_exactNet_iff :
    truncate (exactNet rows) = wholeNet rows ↔
      Drops ((rows.map fractionDelta).sum - fractional (largestRemoval rows))
        ((rows.map tradedDelta).sum - truncate (largestRemoval rows)) := by
  have hremoval := truncate_add_fractional (largestRemoval rows)
  have hnet : exactNet rows = ((wholeNet rows : ℤ) : ℚ) +
      ((rows.map fractionDelta).sum - fractional (largestRemoval rows)) := by
    rw [exactNet, sum_legDelta, wholeNet_eq]
    push_cast
    linarith
  rw [hnet, truncate_add_eq_iff, wholeNet_eq]

theorem sqlSum_traded (h : ReadAlike dialect rows) :
    (sqlSum (rows.map (SqlLedgerStore.tradedCase dialect))).getD 0 = (rows.map legDelta).sum := by
  have hsum : ∀ column : List (Option ℚ),
      (sqlSum column).getD 0 = (column.map fun value => value.getD 0).sum := by
    intro column
    have hvalues : column.reduceOption.sum = (column.map fun value => value.getD 0).sum := by
      induction column with
      | nil => rfl
      | cons value column ih => cases value <;> simp [ih]
    rw [← hvalues, sqlSum]
    cases column.reduceOption <;> rfl
  rw [hsum, List.map_map]
  refine congrArg List.sum (List.map_congr_left fun t ht => ?_)
  rw [Function.comp_apply, SqlLedgerStore.tradedCase, h.opens t ht, h.closes t ht, legDelta]
  cases t.quantity <;> split_ifs <;> simp

theorem getD_sqlMax {column : List (Option ℚ)} (h : ∀ value ∈ column, 0 ≤ value.getD 0) :
    (sqlMax column).getD 0 = (column.map fun value => value.getD 0).foldl max 0 := by
  -- a missing value changes no maximum that starts at zero
  have hmissing : ∀ (column : List (Option ℚ)) (m : ℚ), 0 ≤ m →
      (column.map fun value => value.getD 0).foldl max m = column.reduceOption.foldl max m := by
    intro column
    induction column with
    | nil => exact fun _ _ => rfl
    | cons value column ih =>
      intro m hm
      cases value with
      | none => simpa [max_eq_left hm] using ih m hm
      | some q => simpa using ih (max m q) (le_max_of_le_left hm)
  rw [hmissing column 0 le_rfl, sqlMax]
  have hvalues : ∀ q ∈ column.reduceOption, 0 ≤ q := fun q hq =>
    h (some q) (List.reduceOption_mem_iff.mp hq)
  cases hcolumn : column.reduceOption with
  | nil => rfl
  | cons q values =>
    rw [List.max?_cons', Option.getD_some, List.foldl_cons,
      max_eq_right (hvalues q (by rw [hcolumn]; exact List.mem_cons_self))]

theorem removalCase_eq (h : ReadAlike dialect rows) {t : TxnRow} (ht : t ∈ rows) :
    SqlLedgerStore.removalCase dialect t = if t.removesLeg then t.quantity else some 0 := by
  rw [SqlLedgerStore.removalCase, h.opens t ht, h.closes t ht, h.subType t ht, TxnRow.removesLeg,
    isPositionRemoval, actionNetsAsTrade]
  cases opensLeg t.action <;> cases closesLeg t.action <;> simp

theorem sqlMax_removal (h : ReadAlike dialect rows)
    (hquantities : ∀ t ∈ rows, ∀ q, t.quantity = some q → 0 ≤ q) :
    (sqlMax (rows.map (SqlLedgerStore.removalCase dialect))).getD 0 = largestRemoval rows := by
  have hcase : rows.map (SqlLedgerStore.removalCase dialect) =
      rows.map fun t => if t.removesLeg then t.quantity else some 0 :=
    List.map_congr_left fun t ht => removalCase_eq h ht
  have hnonneg : ∀ value ∈ rows.map fun t : TxnRow =>
      if t.removesLeg then t.quantity else some 0, 0 ≤ value.getD 0 := by
    intro value hvalue
    obtain ⟨t, ht, rfl⟩ := List.mem_map.mp hvalue
    split_ifs
    · cases hq : t.quantity with
      | none => exact le_rfl
      | some q => exact hquantities t ht q hq
    · exact le_rfl
  rw [hcase, getD_sqlMax hnonneg, largestRemoval, List.map_map]
  -- a row that removes nothing counts as zero
  have hfilter : ∀ (rows : List TxnRow) (m : ℚ), 0 ≤ m →
      (rows.map ((fun value : Option ℚ => value.getD 0) ∘ fun t : TxnRow =>
        if t.removesLeg then t.quantity else some 0)).foldl max m =
      ((rows.filter TxnRow.removesLeg).map fun t => t.quantity.getD 0).foldl max m := by
    intro rows
    induction rows with
    | nil => exact fun _ _ => rfl
    | cons t rows ih =>
      intro m hm
      by_cases hremoves : t.removesLeg = true
      · simpa [hremoves] using ih _ (le_max_of_le_left hm)
      · simpa [hremoves, max_eq_left hm] using ih m hm
  exact hfilter rows 0 le_rfl

/-- The two aggregates agree where the fractions drop beside the trades. -/
theorem sql_netOpen_eq_iff (h : ReadAlike dialect rows)
    (hquantities : ∀ t ∈ rows, ∀ q, t.quantity = some q → 0 ≤ q) :
    SqlLedgerStore.netOpen dialect rows = wholeNet rows ↔
      Drops (rows.map fractionDelta).sum (rows.map tradedDelta).sum := by
  rw [SqlLedgerStore.netOpen, sqlSum_traded h, sqlMax_removal h hquantities, wholeNet_eq,
    sub_left_inj, sum_legDelta, truncate_add_eq_iff]

/-- Whole quantities have no fractions. -/
theorem fractionsDrop_of_whole (h : ∀ t ∈ rows, ∃ n : ℤ, t.quantity.getD 0 = n) :
    FractionsDrop rows := by
  have hzero : (rows.map fractionDelta).sum = 0 := by
    refine List.sum_eq_zero fun φ hφ => ?_
    obtain ⟨t, ht, rfl⟩ := List.mem_map.mp hφ
    obtain ⟨n, hn⟩ := h t ht
    simp [fractionDelta, hn]
  have hmax : ∀ (l : List ℚ), (∀ q ∈ l, ∃ n : ℤ, q = n) → ∀ m : ℤ,
      ∃ n : ℤ, l.foldl max (m : ℚ) = n := by
    intro l
    induction l with
    | nil => exact fun _ m => ⟨m, rfl⟩
    | cons q l ih =>
      intro hl m
      obtain ⟨n, hn⟩ := hl q (by simp)
      rw [List.foldl_cons, hn, ← Int.cast_max]
      exact ih (fun q hq => hl q (by simp [hq])) _
  obtain ⟨n, hn⟩ : ∃ n : ℤ, largestRemoval rows = n := by
    have hl : ∀ q ∈ (rows.filter TxnRow.removesLeg).map fun t => t.quantity.getD 0,
        ∃ n : ℤ, q = (n : ℚ) := by
      intro q hq
      obtain ⟨t, ht, rfl⟩ := List.mem_map.mp hq
      exact h t (List.mem_filter.mp ht).1
    simpa [largestRemoval] using hmax _ hl 0
  refine ⟨hzero ▸ drops_zero _, ?_⟩
  rw [hzero, hn, fractional_intCast, sub_zero]
  exact drops_zero _

end Fractions

section Agree

variable {dialect : Dialect} {s : InMemoryStore} {pk : ℕ} {sid : String}

/-- An account's rows in a leg of one account are the rows of the leg. -/
theorem ReadAlike.filter_account {rows : List TxnRow} (h : ReadAlike dialect rows) {a : String}
    (ha : a ∈ rows.map TxnRow.account) : rows.filter (fun t => t.account = a) = rows := by
  obtain ⟨t, ht, rfl⟩ := List.mem_map.mp ha
  exact List.filter_eq_self.mpr fun t' ht' => decide_eq_true (h.account t' ht' t ht)

theorem FractionsDrop.of_readsAgree (halike : ReadAlike dialect (s.legRows pk sid))
    (hquantities : ∀ t ∈ s.transactions.values, ∀ q, t.quantity = some q → 0 ≤ q)
    (h : ReadsAgree dialect s) (hpk : pk ∈ s.openIds) : FractionsDrop (s.legRows pk sid) := by
  have hagree := h _ (List.Perm.refl _) pk hpk [pk] (by simp) sid
  by_cases hne : s.legRows pk sid = []
  · rw [hne]
    exact fractionsDrop_of_whole (by simp)
  · have hmem := netOpenIn_netOpenByGroup s [pk] pk sid
    rw [if_pos ⟨by simp, hne⟩] at hmem
    constructor
    · have hsql := hagree.aggregates
      rw [hmem, SqlLedgerStore.netOpenIn_netOpenByGroup, if_pos ⟨by simp, hne⟩] at hsql
      exact (sql_netOpen_eq_iff halike fun t ht => hquantities t (List.mem_filter.mp ht).1).mp
        (Option.some.inj hsql)
    · obtain ⟨t, ht⟩ := List.exists_mem_of_ne_nil _ hne
      have ha : t.account ∈ (s.legRows pk sid).map TxnRow.account := List.mem_map.mpr ⟨t, ht, rfl⟩
      have hreport := hagree.legs none _ ((reports_openGroupLegs hpk).mpr ⟨t.account, ha, rfl, rfl⟩)
      rw [hmem, halike.filter_account ha] at hreport
      exact truncate_exactNet_iff.mp (Option.some.inj hreport).symm

theorem readsAgreeAt_of_fractionsDrop (halike : ReadAlike dialect (s.legRows pk sid))
    (hquantities : ∀ t ∈ s.transactions.values, ∀ q, t.quantity = some q → 0 ≤ q)
    (h : FractionsDrop (s.legRows pk sid)) {scan : List TxnRow}
    (hscan : scan.Perm s.transactions.values) (hpk : pk ∈ s.openIds) {ids : List ℕ}
    (hids : pk ∈ ids) : ReadsAgreeAt dialect s scan ids pk sid := by
  have hperm := legRowsOf_perm hscan pk sid
  have hmem := netOpenIn_netOpenByGroup s ids pk sid
  -- every account's rows in the leg are counted alike
  have hcount : ∀ a ∈ (s.legRows pk sid).map TxnRow.account,
      truncate (exactNet ((s.legRows pk sid).filter fun t => t.account = a)) =
        wholeNet (s.legRows pk sid) ∧
      netOpenIn (s.netOpenByGroup ids) pk sid = some (wholeNet (s.legRows pk sid)) := by
    intro a ha
    have hne : s.legRows pk sid ≠ [] := by
      rintro hnil
      rw [hnil] at ha
      cases ha
    refine ⟨?_, by rw [hmem, if_pos ⟨hids, hne⟩]⟩
    rw [halike.filter_account ha]
    exact truncate_exactNet_iff.mpr h.net
  refine ⟨?_, ?_, ?_, ?_⟩
  · have hsql := (sql_netOpen_eq_iff halike fun t ht =>
      hquantities t (List.mem_filter.mp ht).1).mpr h.traded
    rw [hmem, SqlLedgerStore.netOpenIn_netOpenByGroup, SqlLedgerStore.netOpen_perm dialect hperm,
      hsql]
    simp only [ne_eq, ← List.length_eq_zero_iff, hperm.length_eq]
  · intro account n hn
    obtain ⟨a, ha, -, rfl⟩ := (reports_openGroupLegs hpk).mp hn
    rw [(hcount a ha).1, (hcount a ha).2]
  · intro account n hn
    obtain ⟨a, ha, -, rfl⟩ := (reports_sql_openGroupLegs hscan hpk).mp hn
    rw [(hcount a ha).1, (hcount a ha).2]
  · intro n hn
    rw [hmem] at hn
    split at hn
    · rename_i hrows
      obtain ⟨t, ht⟩ := List.exists_mem_of_ne_nil _ hrows.2
      have ha : t.account ∈ (s.legRows pk sid).map TxnRow.account :=
        List.mem_map.mpr ⟨t, ht, rfl⟩
      have hn' := (hcount _ ha).1.trans (Option.some.inj hn)
      exact ⟨(reports_openGroupLegs hpk).mpr ⟨t.account, ha, rfl, hn'⟩,
        (reports_sql_openGroupLegs hscan hpk).mpr ⟨t.account, ha, rfl, hn'⟩⟩
    · cases hn

end Agree

/-- An open group that opened one and a quarter twice and closed a quarter. -/
def quarters : InMemoryStore :=
  ((InMemoryStore.empty 0).upsertTradeGroup
    { groupId := "g", account := "main", origin := .zts }).2.upsertTransactions
      [{ TxnRow.fill "main" "t1" "o1" "Buy to Open" "BTC" (5 / 4) 0 with tradeGroupId := some 1 },
        { TxnRow.fill "main" "t2" "o1" "Buy to Open" "BTC" (5 / 4) second with
          tradeGroupId := some 1 },
        { TxnRow.fill "main" "t3" "o2" "Sell to Close" "BTC" (1 / 4) (2 * second) with
          tradeGroupId := some 1 }]

/-- An open group with two openings of half a contract. -/
def twoHalves : InMemoryStore :=
  ((InMemoryStore.empty 0).upsertTradeGroup
    { groupId := "g", account := "main", origin := .zts }).2.upsertTransactions
      [{ TxnRow.fill "main" "t1" "o1" "Buy to Open" "BTC" (1 / 2) 0 with tradeGroupId := some 1 },
        { TxnRow.fill "main" "t2" "o1" "Buy to Open" "BTC" (1 / 2) second with
          tradeGroupId := some 1 }]

end TtLedger
