import Mathlib
import TtLedger.Store.Bands

/-!
# The order of bands

Both stores order the bands of a read by the newest time among their rows. They break ties by an
id: the in-memory store, which meets the bands in the order of the sorted rows, by the id of the
newest row (`newestId`), the SQL store by the highest id of the band (`highestId`). A page of
either store is a page of its bands, each with its rows newest first
(`InMemoryStore.queryTransactionBands_eq`, `SqlLedgerStore.queryTransactionBands_eq`).
-/

namespace TtLedger

/-! ## Band keys -/

theorem toDigits_injective : Function.Injective (Nat.toDigits 10) := fun m n h => by
  have := congrArg (fun digits => Nat.ofDigitChars 10 digits 0) h
  simpa using this

/-- Rows share a band when they share a group, or are the same row without one. -/
theorem bandKey_inj {pk pk' : Option ℕ} {id id' : ℕ} :
    bandKey pk id = bandKey pk' id' ↔ pk = pk' ∧ (pk = none → id = id') := by
  constructor
  · intro h
    have h := congrArg String.toList h
    cases pk <;> cases pk' <;>
      simp only [bandKey, String.toList_append, List.append_cancel_left_eq] at h
    · exact ⟨rfl, fun _ => toDigits_injective (by simpa using h)⟩
    · exact absurd (congrArg List.head? h) (by simp [toString])
    · exact absurd (congrArg List.head? h) (by simp [toString])
    · exact ⟨congrArg some (toDigits_injective (by simpa using h)), nofun⟩
  · rintro ⟨rfl, h⟩
    cases pk with
    | none => rw [h rfl]
    | some pk => rfl

/-! ## Aggregates -/

section Aggregates

variable {α κ : Type*} [LinearOrder κ] {column : α → Option κ} {rows : List α}

theorem maxColumn_eq_some_iff {m : κ} :
    maxColumn column rows = some m ↔
      (∃ a ∈ rows, column a = some m) ∧ ∀ a ∈ rows, ∀ x, column a = some x → x ≤ m := by
  rw [maxColumn, List.max?_eq_some_iff]
  simp only [List.mem_filterMap]
  refine and_congr_right fun _ => ⟨fun h a ha x hx => h x ⟨a, ha, hx⟩, fun h x hx => ?_⟩
  obtain ⟨a, ha, hx⟩ := hx
  exact h a ha x hx

theorem maxColumn_eq_none_iff : maxColumn column rows = none ↔ ∀ a ∈ rows, column a = none := by
  rw [maxColumn, List.max?_eq_none_iff, List.filterMap_eq_nil_iff]

/-- The first of the descending keys is the key of the maximum. -/
theorem descNullsLast_maxColumn_le {a : α} (ha : a ∈ rows) :
    descNullsLast (maxColumn column rows) ≤ descNullsLast (column a) := by
  rw [← not_lt, descNullsLast_lt_iff]
  rintro ⟨x, hx, hlt⟩
  cases hm : maxColumn column rows with
  | none => simp [maxColumn_eq_none_iff.mp hm a ha] at hx
  | some m => exact absurd ((maxColumn_eq_some_iff.mp hm).2 a ha x hx) (not_le.mpr (hlt m hm))

end Aggregates

/-! ## Rows, newest first -/

/-- Time descending with undated rows last, then id descending. -/
def newerKey (executedAt : Option Datetime) (id : ℕ) : WithTop Datetimeᵒᵈ ×ₗ ℕᵒᵈ :=
  toLex (descNullsLast executedAt, desc id)

/-- The newer key of a row. -/
abbrev rowKey (row : ℕ × TxnRow) : WithTop Datetimeᵒᵈ ×ₗ ℕᵒᵈ := newerKey row.2.executedAt row.1

theorem newestFirst_le_iff (a b : ℕ × TxnRow) :
    newestFirst a ≤ newestFirst b ↔ rowKey a ≤ rowKey b := by
  obtain ⟨i, a⟩ := a
  obtain ⟨j, b⟩ := b
  simp only [newestFirst, rowKey, newerKey, Prod.Lex.toLex_le_toLex]
  cases a.executedAt <;> cases b.executedAt <;> simp [descNullsLast]

theorem sortOn_newestFirst (rows : List (ℕ × TxnRow)) :
    sortOn newestFirst rows = sortOn rowKey rows :=
  sortOn_congr fun a _ b _ => newestFirst_le_iff a b

theorem rowKey_inj_id {a b : ℕ × TxnRow} (h : rowKey a = rowKey b) : a.1 = b.1 :=
  OrderDual.toDual.injective (congrArg (fun k => (ofLex k).2) h)

/-- Rows under distinct ids have distinct keys, so they have one arrangement. -/
theorem pairwise_sortOn_rowKey {rows : List (ℕ × TxnRow)} (hn : (rows.map Prod.fst).Nodup) :
    (sortOn rowKey rows).Pairwise fun a b => rowKey a < rowKey b := by
  refine pairwise_lt_sortOn rowKey (List.Nodup.map_on ?_ (List.Nodup.of_map _ hn))
  intro a ha b hb h
  exact List.inj_on_of_nodup_map hn ha hb (rowKey_inj_id h)

/-! ## The newest time and the two ids of a band -/

/-- The rows of a band. -/
def bandRowsOf (rows : List (ℕ × TxnRow)) (band : String) : List (ℕ × TxnRow) :=
  rows.filter fun row => bandOf row = band

/-- The newest time among the rows of a band. -/
def newestAt (rows : List (ℕ × TxnRow)) (band : String) : Option Datetime :=
  maxColumn (fun row => row.2.executedAt) (bandRowsOf rows band)

/-- The highest id among the rows of a band. -/
def highestId (rows : List (ℕ × TxnRow)) (band : String) : ℕ :=
  (maxColumn (fun row => some row.1) (bandRowsOf rows band)).getD 0

/-- The highest id among the rows of a band that have its newest time. -/
def newestId (rows : List (ℕ × TxnRow)) (band : String) : ℕ :=
  (maxColumn (fun row => some row.1)
    ((bandRowsOf rows band).filter fun row => row.2.executedAt = newestAt rows band)).getD 0

section Band

variable {rows : List (ℕ × TxnRow)} {row : ℕ × TxnRow}

theorem mem_bandRowsOf {band : String} :
    row ∈ bandRowsOf rows band ↔ row ∈ rows ∧ bandOf row = band := by
  simp [bandRowsOf]

/-- The maximum of the ids of some rows is the id of one of them. -/
theorem getD_maxColumn_id {l : List (ℕ × TxnRow)} (hrow : row ∈ l) :
    (∃ r ∈ l, r.1 = (maxColumn (fun r => some r.1) l).getD 0) ∧
      row.1 ≤ (maxColumn (fun r => some r.1) l).getD 0 := by
  cases hm : maxColumn (fun r : ℕ × TxnRow => some r.1) l with
  | none => exact absurd (maxColumn_eq_none_iff.mp hm row hrow) (by simp)
  | some m =>
    obtain ⟨⟨r, hr, hrm⟩, hle⟩ := maxColumn_eq_some_iff.mp hm
    exact ⟨⟨r, hr, Option.some.inj hrm⟩, hle row hrow row.1 rfl⟩

/-- Some row of a band has its highest id. -/
theorem exists_highestId (hrow : row ∈ rows) :
    ∃ r ∈ rows, bandOf r = bandOf row ∧ r.1 = highestId rows (bandOf row) := by
  obtain ⟨⟨r, hr, hid⟩, -⟩ := getD_maxColumn_id (mem_bandRowsOf.mpr ⟨hrow, rfl⟩)
  exact ⟨r, (mem_bandRowsOf.mp hr).1, (mem_bandRowsOf.mp hr).2, hid⟩

/-- Some row of a band has its newest time. -/
theorem exists_newestAt (hrow : row ∈ rows) :
    ∃ r ∈ rows, bandOf r = bandOf row ∧ r.2.executedAt = newestAt rows (bandOf row) := by
  cases hm : newestAt rows (bandOf row) with
  | none => exact ⟨row, hrow, rfl, maxColumn_eq_none_iff.mp hm row (mem_bandRowsOf.mpr ⟨hrow, rfl⟩)⟩
  | some m =>
    obtain ⟨⟨r, hr, hrm⟩, -⟩ := maxColumn_eq_some_iff.mp hm
    exact ⟨r, (mem_bandRowsOf.mp hr).1, (mem_bandRowsOf.mp hr).2, hrm⟩

/-- The row with the newest time and the newest id of a band is the first of its rows. -/
theorem newerKey_le_rowKey (hrow : row ∈ rows) :
    newerKey (newestAt rows (bandOf row)) (newestId rows (bandOf row)) ≤ rowKey row := by
  simp only [rowKey, newerKey, Prod.Lex.toLex_le_toLex]
  have htime : descNullsLast (newestAt rows (bandOf row)) ≤ descNullsLast row.2.executedAt :=
    descNullsLast_maxColumn_le (mem_bandRowsOf.mpr ⟨hrow, rfl⟩)
  rcases htime.lt_or_eq with hlt | heq
  · exact Or.inl hlt
  · refine Or.inr ⟨heq, OrderDual.toDual_le_toDual.mpr ?_⟩
    have hnewest : row.2.executedAt = newestAt rows (bandOf row) :=
      (descNullsLast_inj.mp heq).symm
    exact (getD_maxColumn_id (List.mem_filter.mpr
      ⟨mem_bandRowsOf.mpr ⟨hrow, rfl⟩, decide_eq_true hnewest⟩)).2

theorem exists_newerKey (hrow : row ∈ rows) :
    ∃ r ∈ rows, bandOf r = bandOf row ∧
      rowKey r = newerKey (newestAt rows (bandOf row)) (newestId rows (bandOf row)) := by
  obtain ⟨r, hr, hband, htime⟩ := exists_newestAt hrow
  have hmem : r ∈ (bandRowsOf rows (bandOf row)).filter
      fun r => r.2.executedAt = newestAt rows (bandOf row) :=
    List.mem_filter.mpr ⟨mem_bandRowsOf.mpr ⟨hr, hband⟩, decide_eq_true htime⟩
  obtain ⟨⟨r', hr', hid⟩, -⟩ := getD_maxColumn_id hmem
  obtain ⟨hr', htime'⟩ := List.mem_filter.mp hr'
  refine ⟨r', (mem_bandRowsOf.mp hr').1, (mem_bandRowsOf.mp hr').2, ?_⟩
  rw [rowKey, of_decide_eq_true htime', newestId, ← hid]

end Band

/-! ## The bands in the order of each store -/

/-- The bands of some rows, each once. -/
def bandsOf (rows : List (ℕ × TxnRow)) : List String := (rows.map bandOf).eraseDups

theorem mem_bandsOf {rows : List (ℕ × TxnRow)} {band : String} :
    band ∈ bandsOf rows ↔ ∃ row ∈ rows, bandOf row = band := by
  rw [bandsOf, List.mem_eraseDups, List.mem_map]

/-- The key of a band whose ties are broken by `id`. -/
def bandRank (rows : List (ℕ × TxnRow)) (id : List (ℕ × TxnRow) → String → ℕ) (band : String) :
    WithTop Datetimeᵒᵈ ×ₗ ℕᵒᵈ :=
  newerKey (newestAt rows band) (id rows band)

/-- The bands of the sorted rows, as they come. -/
def firstSeen (rows : List (ℕ × TxnRow)) : List String := bandsOf (sortOn newestFirst rows)

/-- The bands in the order of the aggregate query. -/
def byAggregate (rows : List (ℕ × TxnRow)) : List String :=
  (sortOn SqlLedgerStore.bandOrder (SqlLedgerStore.bandRows rows)).map SqlLedgerStore.BandRow.band

section Orders

variable {rows : List (ℕ × TxnRow)}

theorem firstSeen_perm (rows : List (ℕ × TxnRow)) : (firstSeen rows).Perm (bandsOf rows) := by
  refine (List.perm_ext_iff_of_nodup (nodup_eraseDups _) (nodup_eraseDups _)).mpr fun band => ?_
  exact mem_bandsOf.trans ((exists_congr fun row => and_congr_left' (mem_sortOn _)).trans
    mem_bandsOf.symm)

/-- **The in-memory order**: by newest time, then by the id of the newest row. -/
theorem pairwise_firstSeen (hn : (rows.map Prod.fst).Nodup) :
    (firstSeen rows).Pairwise fun c d => bandRank rows newestId c < bandRank rows newestId d := by
  rw [firstSeen, bandsOf, sortOn_newestFirst]
  refine pairwise_eraseDups_map (pairwise_sortOn_rowKey hn) fun row hrow => ?_
  have hrow := (mem_sortOn rowKey).mp hrow
  obtain ⟨r, hr, hband, hkey⟩ := exists_newerKey hrow
  exact ⟨newerKey_le_rowKey hrow, r, (mem_sortOn rowKey).mpr hr, hband, hkey⟩

theorem bandRows_eq (rows : List (ℕ × TxnRow)) :
    SqlLedgerStore.bandRows rows = (bandsOf rows).map fun band =>
      ⟨band, newestAt rows band, some (highestId rows band)⟩ := by
  refine List.map_congr_left fun band hband => ?_
  obtain ⟨row, hrow, rfl⟩ := mem_bandsOf.mp hband
  have hid : (maxColumn (fun r => some r.1) (bandRowsOf rows (bandOf row))).isSome := by
    rw [Option.isSome_iff_ne_none, ne_eq, maxColumn_eq_none_iff]
    exact fun h => by simpa using h row (mem_bandRowsOf.mpr ⟨hrow, rfl⟩)
  obtain ⟨m, hm⟩ := Option.isSome_iff_exists.mp hid
  simp only [newestAt, highestId, bandRowsOf] at hm ⊢
  rw [hm, Option.getD_some]

theorem byAggregate_perm (rows : List (ℕ × TxnRow)) : (byAggregate rows).Perm (bandsOf rows) := by
  refine ((perm_sortOn SqlLedgerStore.bandOrder _).map _).trans (List.Perm.of_eq ?_)
  rw [bandRows_eq, List.map_map]
  exact List.map_id _

/-- Bands with the same highest id are the same. -/
theorem highestId_inj (hn : (rows.map Prod.fst).Nodup) {c d : String} (hc : c ∈ bandsOf rows)
    (hd : d ∈ bandsOf rows) (h : highestId rows c = highestId rows d) : c = d := by
  obtain ⟨row, hrow, rfl⟩ := mem_bandsOf.mp hc
  obtain ⟨row', hrow', rfl⟩ := mem_bandsOf.mp hd
  obtain ⟨r, hr, hband, hid⟩ := exists_highestId hrow
  obtain ⟨r', hr', hband', hid'⟩ := exists_highestId hrow'
  rw [← hband, ← hband',
    List.inj_on_of_nodup_map hn hr hr' (hid.trans (h.trans hid'.symm))]

/-- The rows of the sorted aggregate query. -/
theorem mem_sortOn_bandOrder {band : SqlLedgerStore.BandRow} :
    band ∈ sortOn SqlLedgerStore.bandOrder (SqlLedgerStore.bandRows rows) ↔
      band.band ∈ bandsOf rows ∧
        band = ⟨band.band, newestAt rows band.band, some (highestId rows band.band)⟩ := by
  rw [mem_sortOn, bandRows_eq, List.mem_map]
  constructor
  · rintro ⟨c, hc, rfl⟩
    exact ⟨hc, rfl⟩
  · rintro ⟨hc, heq⟩
    exact ⟨band.band, hc, heq.symm⟩

theorem pairwise_bandOrder (hn : (rows.map Prod.fst).Nodup) :
    (sortOn SqlLedgerStore.bandOrder (SqlLedgerStore.bandRows rows)).Pairwise
      fun c d => SqlLedgerStore.bandOrder c < SqlLedgerStore.bandOrder d := by
  refine pairwise_lt_sortOn _ ?_
  rw [bandRows_eq, List.map_map]
  refine List.Nodup.map_on ?_ (nodup_eraseDups _)
  intro c hc d hd h
  have hid : (some (highestId rows c) : Option ℕ) = some (highestId rows d) :=
    descNullsLast_inj.mp (congrArg (fun k => (ofLex k).2) h)
  exact highestId_inj hn hc hd (Option.some.inj hid)

/-- **The order of the aggregate query**: by newest time, then by highest id. -/
theorem pairwise_byAggregate (hn : (rows.map Prod.fst).Nodup) :
    (byAggregate rows).Pairwise
      fun c d => bandRank rows highestId c < bandRank rows highestId d := by
  rw [byAggregate, List.pairwise_map]
  refine (pairwise_bandOrder hn).imp_of_mem fun {c d} hc hd hlt => ?_
  rw [(mem_sortOn_bandOrder.mp hc).2, (mem_sortOn_bandOrder.mp hd).2] at hlt
  simpa [SqlLedgerStore.bandOrder, bandRank, newerKey, Prod.Lex.toLex_lt_toLex, descNullsLast]
    using hlt

end Orders

/-! ## Pages -/

/-- The detail rows of a band, newest first. -/
def bandBlock (s : InMemoryStore) (rows : List (ℕ × TxnRow)) (band : String) :
    List TransactionDetailRow :=
  (bandRowsOf (sortOn rowKey rows) band).map s.transactionDetail

/-- The key of a detail row's band. -/
def TransactionDetailRow.bandKey (row : TransactionDetailRow) : String :=
  TtLedger.bandKey row.tradeGroupId row.id

@[simp] theorem bandKey_transactionDetail (s : InMemoryStore) (row : ℕ × TxnRow) :
    (s.transactionDetail row).bandKey = bandOf row := rfl

theorem bandBlock_label {s : InMemoryStore} {rows : List (ℕ × TxnRow)} {band : String}
    (hband : band ∈ bandsOf rows) :
    bandBlock s rows band ≠ [] ∧ ∀ row ∈ bandBlock s rows band, row.bandKey = band := by
  constructor
  · obtain ⟨row, hrow, hb⟩ := mem_bandsOf.mp hband
    have : row ∈ bandRowsOf (sortOn rowKey rows) band :=
      mem_bandRowsOf.mpr ⟨(mem_sortOn rowKey).mpr hrow, hb⟩
    exact fun h => List.not_mem_nil (List.map_eq_nil_iff.mp h ▸ this)
  · intro row hrow
    obtain ⟨r, hr, rfl⟩ := List.mem_map.mp hrow
    exact (mem_bandRowsOf.mp hr).2

namespace InMemoryStore

variable (s : InMemoryStore) (q : TransactionQuery)

theorem ids_nodup_matched : ((s.matched q).map Prod.fst).Nodup :=
  s.transactions.ids_nodup.sublist (List.filter_sublist.map _)

/-- **A page of the in-memory store**: bands in first-seen order, each with its rows newest
first. -/
theorem queryTransactionBands_eq :
    s.queryTransactionBands q =
      { rows := (page (firstSeen (s.matched q)) q.offset q.limit).flatMap
          (bandBlock s (s.matched q))
        bandTotal := (firstSeen (s.matched q)).length
        rowTotal := (s.matched q).length } := by
  have hlen : (sortOn newestFirst (s.matched q)).length ≤ s.transactions.rows.length + 1 := by
    rw [(perm_sortOn _ _).length_eq]
    exact (List.length_filter_le _ _).trans (Nat.le_succ _)
  have hall : page (sortOn newestFirst (s.matched q)) 0 (s.transactions.rows.length + 1) =
      sortOn newestFirst (s.matched q) := by
    rw [page, List.drop_zero, List.take_of_length_le hlen]
  have hread : s.queryTransactions
      { q with limit := s.transactions.rows.length + 1, offset := 0 } =
      ((sortOn newestFirst (s.matched q)).map s.transactionDetail, (s.matched q).length) := by
    have : s.matched { q with limit := s.transactions.rows.length + 1, offset := 0 } =
        s.matched q := rfl
    rw [queryTransactions, this]
    simp only [hall, (perm_sortOn _ _).length_eq]
  have hkeys : ((sortOn newestFirst (s.matched q)).map s.transactionDetail).filterMap
      (fun row => some (bandKey row.tradeGroupId row.id)) =
      (sortOn newestFirst (s.matched q)).map bandOf := by
    rw [List.filterMap_map, ← List.filterMap_eq_map]
    rfl
  rw [queryTransactionBands, hread]
  simp only [keys_groupBy, hkeys, getD_get?_groupBy]
  refine congrArg₂ (fun rows total => TransactionBandPage.mk rows total _) ?_ rfl
  refine List.flatMap_congr fun band _ => ?_
  rw [bandBlock, bandRowsOf, sortOn_newestFirst, List.filter_map]
  refine congrArg (List.map _) (List.filter_congr fun row _ => ?_)
  exact decide_eq_decide.mpr Option.some_inj

end InMemoryStore

namespace SqlLedgerStore

variable (s : InMemoryStore) (q : TransactionQuery)

theorem ids_nodup_base : ((base s q).map Prod.fst).Nodup :=
  s.transactions.ids_nodup.sublist (List.filter_sublist.map _)

/-- The order of a row, under its id. -/
def orderOfRow (row : ℕ × TxnRow) : Option (ℕ × OrderRow) :=
  row.2.orderId.bind fun orderId => (s.orders.get orderId).map fun order => (orderId, order)

/-- A row joins the one order it names, when there is one. -/
theorem filter_orders (row : ℕ × TxnRow) :
    (s.orders.rows.filter fun order => decide (row.2.orderId = some order.1)) =
      (orderOfRow s row).toList := by
  have hperm : (s.orders.rows.filter fun order => decide (row.2.orderId = some order.1)).Perm
      (orderOfRow s row).toList := by
    refine (List.perm_ext_iff_of_nodup ((List.Nodup.of_map _ s.orders.ids_nodup).filter _)
      (by cases orderOfRow s row <;> simp)).mpr fun order => ?_
    simp only [List.mem_filter, decide_eq_true_eq, Option.mem_toList, orderOfRow,
      Option.bind_eq_some_iff, Option.map_eq_some_iff]
    constructor
    · rintro ⟨hmem, hid⟩
      exact ⟨order.1, hid, order.2, Table.get_eq_some.mpr hmem, rfl⟩
    · rintro ⟨id, hid, r, hget, rfl⟩
      exact ⟨Table.get_eq_some.mp hget, hid⟩
  generalize orderOfRow s row = partner at hperm
  cases partner with
  | none => exact List.perm_nil.mp hperm
  | some order => exact List.perm_singleton.mp hperm

/-- The rows of a page in its order: band by band, and newest first inside a band. -/
def arranged (rows : List (ℕ × TxnRow)) (bands : List BandRow) :
    List (((ℕ × TxnRow) × BandRow) × Option (ℕ × OrderRow)) :=
  bands.flatMap fun band => (bandRowsOf (sortOn rowKey rows) band.band).map fun row =>
    ((row, band), orderOfRow s row)

/-- The join of the base rows with bands and orders has the arranged rows. -/
theorem joined_perm (rows : List (ℕ × TxnRow)) (bands : List BandRow) :
    (outerJoin (fun row (order : ℕ × OrderRow) => decide (row.1.2.orderId = some order.1))
      (innerJoin (fun row (band : BandRow) => decide (bandOf row = band.band)) rows bands)
      s.orders.rows).Perm (arranged s rows bands) := by
  refine (List.Perm.of_eq (outerJoin_eq_map fun row _ => filter_orders s row.1)).trans ?_
  refine ((innerJoin_perm _ rows bands).map _).trans ?_
  rw [arranged, List.map_flatMap]
  refine List.Perm.flatMap_left _ fun band _ => ?_
  rw [List.map_map]
  exact (((perm_sortOn rowKey rows).symm.filter _).map _)

/-- The arranged rows ascend in the order of the page. -/
theorem pairwise_arranged {rows : List (ℕ × TxnRow)} {bands : List BandRow}
    (hn : (rows.map Prod.fst).Nodup)
    (hbands : bands.Pairwise fun c d => bandOrder c < bandOrder d) :
    (arranged s rows bands).Pairwise fun a b => rowOrder a < rowOrder b := by
  refine List.pairwise_flatMap.mpr ⟨fun band _ => ?_, hbands.imp fun {c d} hcd a ha b hb => ?_⟩
  · refine List.pairwise_map.mpr (((pairwise_sortOn_rowKey hn).filter _).imp fun {a b} hab => ?_)
    exact Prod.Lex.toLex_lt_toLex.mpr (Or.inr ⟨rfl, hab⟩)
  · obtain ⟨r, -, rfl⟩ := List.mem_map.mp ha
    obtain ⟨r', -, rfl⟩ := List.mem_map.mp hb
    exact Prod.Lex.toLex_lt_toLex.mpr (Or.inl hcd)

/-- **A page of the SQL store**: bands in the order of the aggregate query, each with its rows
newest first. -/
theorem queryTransactionBands_eq :
    queryTransactionBands s q =
      { rows := (page (byAggregate (base s q)) q.offset q.limit).flatMap
          (bandBlock s (base s q))
        bandTotal := (byAggregate (base s q)).length
        rowTotal := (base s q).length } := by
  have hn := ids_nodup_base s q
  have hpage := (pairwise_bandOrder hn).sublist (sublist_page _ q.offset q.limit)
  rw [queryTransactionBands]
  simp only [sortOn_eq_of_perm rowOrder (joined_perm s _ _) (pairwise_arranged s hn hpage)]
  have hrows : ((arranged s (base s q)
      (page (sortOn bandOrder (bandRows (base s q))) q.offset q.limit)).map fun row =>
        row.1.1.2.detail row.1.1.1 (row.2.bind fun order => order.2.signalId)) =
      (page (byAggregate (base s q)) q.offset q.limit).flatMap (bandBlock s (base s q)) := by
    rw [arranged, List.map_flatMap, byAggregate, page, page, ← List.map_drop, ← List.map_take,
      List.flatMap_map]
    refine List.flatMap_congr fun band _ => ?_
    rw [List.map_map, bandBlock]
    refine List.map_congr_left fun row _ => ?_
    have hsignal : (orderOfRow s row).bind (fun order => order.2.signalId) =
        (row.2.orderId.bind s.orders.get).bind OrderRow.signalId := by
      unfold orderOfRow
      cases row.2.orderId with
      | none => rfl
      | some orderId =>
        rw [Option.bind_some, Option.bind_some]
        cases s.orders.get orderId <;> rfl
    exact congrArg (row.2.detail row.1) hsignal
  have hlen : (bandRows (base s q)).length = (byAggregate (base s q)).length := by
    rw [byAggregate, List.length_map, (perm_sortOn _ _).length_eq]
  rw [hrows, hlen]
  rfl

end SqlLedgerStore

end TtLedger
