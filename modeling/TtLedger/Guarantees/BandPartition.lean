import TtLedger.Store.BandLaws
import Mathlib.Data.Finset.Card

/-!
# Pages of bands

The pages a host reads one after the other from the in-memory store, at offsets `0`, `limit`,
`2 * limit`, …. A band is a trade group or a row on its own; the store tells bands apart by text
keys, which are as distinct as the bands (`bandKey_eq_iff`). The pages before the first empty one
hold every matching row once, each band whole and on one page (`pagesPartition`).
-/

namespace TtLedger

/-- What a row is shown under: its trade group, or itself. -/
inductive Band
  | group (pk : ℕ)
  | lone (id : ℕ)
  deriving DecidableEq

/-- The band of a detail row. -/
def TransactionDetailRow.band (row : TransactionDetailRow) : Band :=
  match row.tradeGroupId with
  | some pk => .group pk
  | none => .lone row.id

/-- The text key of a band. -/
def Band.key : Band → String
  | group pk => bandKey (some pk) 0
  | lone id => bandKey none id

theorem Band.key_injective : Function.Injective Band.key := by
  intro band band' h
  cases band <;> cases band' <;> simp only [Band.key, bandKey_inj] at h
  case group.group => rw [Option.some.inj h.1]
  case group.lone => exact absurd h.1 (by simp)
  case lone.group => exact absurd h.1 (by simp)
  case lone.lone => rw [h.2 trivial]

theorem TransactionDetailRow.key_band (row : TransactionDetailRow) :
    row.band.key = row.bandKey := by
  rw [TransactionDetailRow.band, TransactionDetailRow.bandKey]
  cases row.tradeGroupId <;> rfl

theorem bandKey_eq_iff {row row' : TransactionDetailRow} :
    row.bandKey = row'.bandKey ↔ row.band = row'.band := by
  rw [← row.key_band, ← row'.key_band, Band.key_injective.eq_iff]

/-- Each band stands together: no row of another between two of its rows. -/
def BandContiguous (rows : List TransactionDetailRow) : Prop :=
  ∀ a b c, [a, b, c].Sublist rows → a.band = c.band → b.band = a.band

namespace InMemoryStore

variable (s : InMemoryStore) (q : TransactionQuery) (limit : ℕ)

/-- The rows of a query as they are read. -/
def matchingRows : List TransactionDetailRow := (s.matched q).map s.transactionDetail

/-- The page of a query at offset `k * limit`. -/
def bandPage (k : ℕ) : TransactionBandPage :=
  s.queryTransactionBands { q with limit, offset := k * limit }

/-- The first `n` pages of a query hold its rows, and the next one is empty. -/
structure PagesPartition (n : ℕ) : Prop where
  full : ∀ k < n, (s.bandPage q limit k).rows ≠ []
  last : (s.bandPage q limit n).rows = []
  once : ((List.range n).flatMap fun k => (s.bandPage q limit k).rows).Perm (s.matchingRows q)
  distinct : ((s.matchingRows q).map TransactionDetailRow.id).Nodup
  contiguous : ∀ k, BandContiguous (s.bandPage q limit k).rows
  apart : ∀ k k', k ≠ k' → ∀ row ∈ (s.bandPage q limit k).rows,
    ∀ row' ∈ (s.bandPage q limit k').rows, row.band ≠ row'.band
  bandTotal : ∀ k, (s.bandPage q limit k).bandTotal =
    ((s.matchingRows q).map TransactionDetailRow.band).toFinset.card
  rowTotal : ∀ k, (s.bandPage q limit k).rowTotal = (s.matchingRows q).length

variable {s q limit}

theorem bandPage_rows (k : ℕ) : (s.bandPage q limit k).rows =
    (page (firstSeen (s.matched q)) (k * limit) limit).flatMap (bandBlock s (s.matched q)) :=
  congrArg TransactionBandPage.rows (queryTransactionBands_eq s _)

theorem bandBlock_of_mem_page {k : ℕ} {band : String}
    (h : band ∈ page (firstSeen (s.matched q)) (k * limit) limit) :
    bandBlock s (s.matched q) band ≠ [] ∧
      ∀ row ∈ bandBlock s (s.matched q) band, row.bandKey = band :=
  bandBlock_label ((firstSeen_perm _).mem_iff.mp ((sublist_page _ _ _).subset h))

/-- A page is empty once its offset has passed every band. -/
theorem bandPage_rows_eq_nil_iff (hlimit : 0 < limit) (k : ℕ) :
    (s.bandPage q limit k).rows = [] ↔ (firstSeen (s.matched q)).length ≤ k * limit := by
  rw [bandPage_rows, ← page_eq_nil_iff hlimit, List.flatMap_eq_nil_iff]
  constructor
  · intro h
    refine List.eq_nil_iff_forall_not_mem.mpr fun band hband => ?_
    exact (bandBlock_of_mem_page hband).1 (h band hband)
  · intro h band hband
    rw [h] at hband
    cases hband

/-- The blocks of all bands are the rows. -/
theorem flatMap_bandBlock_perm :
    ((firstSeen (s.matched q)).flatMap (bandBlock s (s.matched q))).Perm (s.matchingRows q) := by
  have hgroups := flatMap_groupBy_perm (f := fun row => some (bandOf row))
    (l := sortOn rowKey (s.matched q))
  have hentries : (groupBy (fun row => some (bandOf row))
      (sortOn rowKey (s.matched q))).entries.flatMap Prod.snd =
      (firstSeen (s.matched q)).flatMap (bandRowsOf (sortOn rowKey (s.matched q))) := by
    rw [firstSeen, bandsOf, sortOn_newestFirst, groupBy, List.flatMap_map]
    simp only [List.filterMap_eq_map']
    refine List.flatMap_congr fun band _ => List.filter_congr fun row _ => ?_
    exact (Bool.eq_iff_iff.mpr (by simp))
  rw [hentries] at hgroups
  have hrows : (firstSeen (s.matched q)).flatMap (bandBlock s (s.matched q)) =
      ((firstSeen (s.matched q)).flatMap (bandRowsOf (sortOn rowKey (s.matched q)))).map
        s.transactionDetail := by
    rw [List.map_flatMap]
    rfl
  rw [hrows, matchingRows]
  refine List.Perm.map _ (hgroups.trans ?_)
  simpa using perm_sortOn rowKey (s.matched q)

/-- There are as many text keys as bands. -/
theorem length_firstSeen : (firstSeen (s.matched q)).length =
    ((s.matchingRows q).map TransactionDetailRow.band).toFinset.card := by
  have hkeys : (firstSeen (s.matched q)).toFinset =
      ((s.matchingRows q).map TransactionDetailRow.band).toFinset.image Band.key := by
    ext key
    rw [List.mem_toFinset, (firstSeen_perm _).mem_iff, mem_bandsOf]
    simp [matchingRows, TransactionDetailRow.key_band]
  have hcard := Finset.card_image_of_injective
    ((s.matchingRows q).map TransactionDetailRow.band).toFinset Band.key_injective
  rw [← hcard, ← hkeys]
  exact (List.toFinset_card_of_nodup (nodup_eraseDups _)).symm

/-- **Pages of bands**: the pages before the first empty one hold every matching row once, bands
stand together and no band is on two pages, and the totals count the bands and the rows. -/
theorem pagesPartition (s : InMemoryStore) (q : TransactionQuery) (limit : ℕ)
    (hlimit : 0 < limit) :
    s.PagesPartition q limit (((s.bandPage q limit 0).bandTotal + limit - 1) / limit) := by
  have htotal : ∀ k, (s.bandPage q limit k).bandTotal = (firstSeen (s.matched q)).length :=
    fun k => congrArg TransactionBandPage.bandTotal (queryTransactionBands_eq s _)
  have hpages : ∀ k, k < ((s.bandPage q limit 0).bandTotal + limit - 1) / limit ↔
      k * limit < (firstSeen (s.matched q)).length := by
    intro k
    rw [htotal, ← Nat.succ_le_iff, Nat.le_div_iff_mul_le hlimit, Nat.succ_mul]
    omega
  have hlast : (firstSeen (s.matched q)).length ≤
      ((s.bandPage q limit 0).bandTotal + limit - 1) / limit * limit :=
    not_lt.mp (mt (hpages _).mpr (lt_irrefl _))
  have hnodup : (firstSeen (s.matched q)).Nodup := nodup_eraseDups _
  constructor
  case full =>
    intro k hk hempty
    exact absurd ((hpages k).mp hk) (not_lt.mpr ((bandPage_rows_eq_nil_iff hlimit k).mp hempty))
  case last => exact (bandPage_rows_eq_nil_iff hlimit _).mpr hlast
  case once =>
    simp only [bandPage_rows]
    rw [← List.flatMap_assoc, flatMap_page, List.take_of_length_le hlast]
    exact flatMap_bandBlock_perm
  case distinct =>
    rw [matchingRows, List.map_map]
    exact ids_nodup_matched s q
  case contiguous =>
    intro k a b c hsub hac
    rw [bandPage_rows] at hsub
    refine bandKey_eq_iff.mp (label_eq_of_sublist_flatMap (hnodup.sublist (sublist_page _ _ _))
      (fun band hband => (bandBlock_of_mem_page hband).2) hsub (bandKey_eq_iff.mpr hac))
  case apart =>
    intro k k' hk row hrow row' hrow' hband
    rw [bandPage_rows, List.mem_flatMap] at hrow hrow'
    obtain ⟨key, hkey, hrow⟩ := hrow
    obtain ⟨key', hkey', hrow'⟩ := hrow'
    have heq : key = key' := by
      rw [← (bandBlock_of_mem_page hkey).2 row hrow, ← (bandBlock_of_mem_page hkey').2 row' hrow']
      exact bandKey_eq_iff.mpr hband
    exact page_disjoint hnodup hk hkey (heq ▸ hkey')
  case bandTotal => exact fun k => (htotal k).trans length_firstSeen
  case rowTotal =>
    intro k
    rw [matchingRows, List.length_map]
    exact congrArg TransactionBandPage.rowTotal (queryTransactionBands_eq s _)

/-! ## A group and a row with the same id -/

/-- Two rows of group 2 around the lone row under id 2. -/
def interleaved : InMemoryStore :=
  .seeded [] [] [
    { TxnRow.fill "main" "T-1" "1001" "Buy to Open" "equity:AAPL" 1 (10 * second) with
      tradeGroupId := some 2 },
    .fill "main" "T-2" "1002" "Buy to Open" "equity:MSFT" 1 (20 * second),
    { TxnRow.fill "main" "T-3" "1003" "Sell to Close" "equity:AAPL" 1 (30 * second) with
      tradeGroupId := some 2 }]

/-- Two pages of one band: the group's rows, then the lone row. -/
theorem pagesPartition_interleaved : interleaved.PagesPartition {} 1 2 := by
  have htotal : (interleaved.bandPage {} 1 0).bandTotal = 2 := by decide +kernel
  have h := pagesPartition interleaved {} 1 (by decide)
  rwa [htotal] at h

end InMemoryStore

end TtLedger
