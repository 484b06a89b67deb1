import TtLedger.Store.BandLaws
import TtLedger.Guarantees.TransactionFilters

/-!
# Band paging on the two stores

A page of bands as the in-memory store cuts it and as the SQL store's three statements give it.
Both order the bands by newest time, and both show a band's rows newest first. Bands that share
their newest time come in the order of their newest rows' ids in memory, and in the order of their
highest ids in SQL: a band whose newest row is not the one with its highest id changes place among
those it is tied with. `queryTransactionBands_eq_sql_iff` says when a page is the same: no row is
kept through a calendar bound the in-memory store passes over, and on the page as many tied bands
are ahead of each band by either id.
-/

namespace TtLedger

/-! ## Ties -/

/-- The number of bands whose newest time comes before that of `band`, newest first. -/
def laterBands (rows : List (ℕ × TxnRow)) (band : String) : ℕ :=
  rank (fun c => descNullsLast (newestAt rows c)) (bandsOf rows)
    (descNullsLast (newestAt rows band))

/-- The number of bands with the newest time of `band` and a higher id. -/
def tiedAhead (rows : List (ℕ × TxnRow)) (id : List (ℕ × TxnRow) → String → ℕ) (band : String) :
    ℕ :=
  (bandsOf rows).countP fun c => newestAt rows c = newestAt rows band ∧ id rows band < id rows c

/-- Each band that the page shows, by newest row, has as many tied bands ahead of it by highest
id. -/
def TiesAgree (rows : List (ℕ × TxnRow)) (offset limit : ℕ) : Prop :=
  ∀ band ∈ bandsOf rows, offset ≤ laterBands rows band + tiedAhead rows newestId band →
    laterBands rows band + tiedAhead rows newestId band < offset + limit →
    tiedAhead rows highestId band = tiedAhead rows newestId band

section Ties

variable {rows : List (ℕ × TxnRow)}

theorem rank_bandRank (id : List (ℕ × TxnRow) → String → ℕ) (band : String) :
    rank (bandRank rows id) (bandsOf rows) (bandRank rows id band) =
      laterBands rows band + tiedAhead rows id band := by
  have hsplit := @rank_toLex String _ _ _ _ (fun c => descNullsLast (newestAt rows c))
    (fun c => desc (id rows c)) (bandsOf rows) band
  refine hsplit.trans (congrArg₂ (· + ·) rfl ?_)
  refine List.countP_congr fun c _ => ?_
  rw [decide_eq_true_eq, decide_eq_true_eq, descNullsLast_inj]
  exact and_congr_right' OrderDual.toDual_lt_toDual

/-- The two orders of the bands show the same page exactly when its ties agree. -/
theorem page_firstSeen_eq_iff (hn : (rows.map Prod.fst).Nodup) (offset limit : ℕ) :
    page (firstSeen rows) offset limit = page (byAggregate rows) offset limit ↔
      TiesAgree rows offset limit := by
  have hperm := firstSeen_perm rows
  have hperm' := byAggregate_perm rows
  rw [page_eq_iff (pairwise_firstSeen hn) (pairwise_byAggregate hn) (hperm.trans hperm'.symm)]
  simp only [rank_perm hperm, rank_perm hperm', rank_bandRank, hperm.mem_iff, TiesAgree]
  refine forall₂_congr fun band _ => forall₂_congr fun _ _ => ?_
  omega

end Ties

/-! ## Pages -/

/-- The in-memory store keeps as many rows as the SQL store selects only when it overlooks no
bound on any row. -/
theorem length_matched_eq_iff (s : InMemoryStore) (q : TransactionQuery) :
    (s.matched q).length = (SqlLedgerStore.base s q).length ↔
      ∀ row ∈ s.transactions.rows, q.OverlooksNothing row.2 := by
  have hsub : SqlLedgerStore.base s q = (s.matched q).filter fun row =>
      SqlLedgerStore.selects q row.2 := by
    rw [SqlLedgerStore.base, InMemoryStore.matched, List.filter_filter]
    refine List.filter_congr fun row _ => ?_
    by_cases h : SqlLedgerStore.selects q row.2
    · simp [h, keeps_of_selects h]
    · simp [h]
  rw [hsub, eq_comm, List.length_filter_eq_length_iff]
  refine ⟨fun h row hrow => ?_, fun h row hrow => ?_⟩
  · refine (overlooksNothing_iff q row.2).mpr ⟨fun hk => ?_, keeps_of_selects⟩
    exact h row (List.mem_filter.mpr ⟨hrow, hk⟩)
  · obtain ⟨hrow, hk⟩ := List.mem_filter.mp hrow
    exact ((overlooksNothing_iff q row.2).mp (h row hrow)).mp hk

/-- Where nothing is overlooked the two stores page the same rows. -/
theorem base_eq_matched {s : InMemoryStore} {q : TransactionQuery}
    (h : ∀ row ∈ s.transactions.rows, q.OverlooksNothing row.2) :
    SqlLedgerStore.base s q = s.matched q := by
  refine List.filter_congr fun row hrow => Bool.eq_iff_iff.mpr ?_
  exact ((overlooksNothing_iff q row.2).mp (h row hrow)).symm

/-- **Band paging**: a page of bands is the same on both stores exactly when the in-memory filter
overlooks no calendar bound on a row of the table and the ties of the page agree. -/
theorem InMemoryStore.queryTransactionBands_eq_sql_iff (s : InMemoryStore)
    (q : TransactionQuery) :
    s.queryTransactionBands q = SqlLedgerStore.queryTransactionBands s q ↔
      (∀ row ∈ s.transactions.rows, q.OverlooksNothing row.2) ∧
        TiesAgree (s.matched q) q.offset q.limit := by
  have hn := InMemoryStore.ids_nodup_matched s q
  rw [InMemoryStore.queryTransactionBands_eq, SqlLedgerStore.queryTransactionBands_eq,
    ← page_firstSeen_eq_iff hn]
  constructor
  · intro h
    have hover := (length_matched_eq_iff s q).mp (congrArg TransactionBandPage.rowTotal h)
    refine ⟨hover, ?_⟩
    have hrows := congrArg TransactionBandPage.rows h
    rw [base_eq_matched hover] at hrows
    -- a band of either page is a band of the matched rows, and labels its block
    refine flatMap_inj_of_label (f := TransactionDetailRow.bandKey) (fun band hband => ?_) hrows
    rcases List.mem_append.mp hband with hband | hband
    · exact bandBlock_label ((firstSeen_perm _).mem_iff.mp ((sublist_page _ _ _).subset hband))
    · exact bandBlock_label ((byAggregate_perm _).mem_iff.mp ((sublist_page _ _ _).subset hband))
  · rintro ⟨hover, hpage⟩
    rw [base_eq_matched hover, hpage,
      ((firstSeen_perm _).trans (byAggregate_perm _).symm).length_eq]

/-! ## A late row of an older time -/

namespace LateRow

/-- A group's trade, a lone trade of the same second, and an older trade of the group that was
imported last. -/
def store : InMemoryStore :=
  .seeded [] [] [
    { TxnRow.fill "main" "T-1" "1001" "Buy to Open" "equity:AAPL" 1 (10 * second) with
      tradeGroupId := some 1 },
    .fill "main" "T-2" "1002" "Buy to Open" "equity:MSFT" 1 (10 * second),
    { TxnRow.fill "main" "T-0" "1000" "Buy to Open" "equity:AAPL" 1 (5 * second) with
      tradeGroupId := some 1 }]

/-- The first page of one band is the lone trade in memory, and the group in SQL. -/
theorem not_queryTransactionBands_eq :
    ¬ store.queryTransactionBands { limit := 1 } =
      SqlLedgerStore.queryTransactionBands store { limit := 1 } := by
  decide +kernel

end LateRow

end TtLedger
