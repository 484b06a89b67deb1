import TtLedger.Ingest.Runs

/-!
# Memberships

How the writes of a pass change which transactions a group holds. `Ungrouped s rows` says that
`rows` are stored transactions without a group; attaching them to a group appends their books to
that group's members and changes no other group (`members_attached_perm`,
`members_attached_of_ne`). Stamps, refreshes, events and order updates leave the transactions
alone.
-/

namespace TtLedger

namespace InMemoryStore

variable (s : InMemoryStore)

/-- The stored transaction with an identifier. -/
def txn (id : String) : Option TxnRow := s.transactions.getByKey id

theorem mem_values_iff_txn {r : TxnRow} :
    r ∈ s.transactions.values ↔ s.txn r.ttTransactionId = some r :=
  ⟨fun h => Table.getByKey_of_mem_values h rfl, Table.mem_values_of_getByKey⟩

theorem txn_key {id : String} {r : TxnRow} (h : s.txn id = some r) : r.ttTransactionId = id :=
  Option.some.inj (Table.getByKey_eq_some.mp h).2

theorem mem_members {pk : ℕ} {r : TxnRow} :
    r ∈ s.members pk ↔ s.txn r.ttTransactionId = some r ∧ r.tradeGroupId = some pk := by
  rw [members, List.mem_filter, mem_values_iff_txn]
  simp

theorem mem_getGroupTransactions {pk : ℕ} {r : TxnRow} :
    r ∈ s.getGroupTransactions pk ↔ r ∈ s.members pk := by
  rw [getGroupTransactions, mem_sortOn]

theorem getGroupTransactions_perm (pk : ℕ) :
    (s.getGroupTransactions pk).Perm (s.members pk) := perm_sortOn _ _

theorem nodup_ids : (s.transactions.values.map TxnRow.ttTransactionId).Nodup := by
  have h := s.transactions.keys_nodup
  have heq : (s.transactions.rows.filterMap fun p => TxnRow.key p.2) =
      s.transactions.values.map TxnRow.ttTransactionId := by
    simp [Table.values, TxnRow.key, List.map_map]
  rwa [heq] at h

/-- A book carries its identifier, so that distinct rows have distinct books. -/
theorem nodup_map_book {l : List TxnRow} (h : (l.map TxnRow.ttTransactionId).Nodup) :
    (l.map TxnRow.book).Nodup := by
  have heq : (l.map TxnRow.book).map TxnRow.ttTransactionId = l.map TxnRow.ttTransactionId := by
    rw [List.map_map]
    rfl
  exact List.Nodup.of_map _ (heq ▸ h)

/-! ## Attaching -/

/-- What an attach makes of a row. -/
def attachRow (ids : List String) (pk : ℕ) (r : TxnRow) : TxnRow :=
  if r.ttTransactionId ∈ ids then { r with tradeGroupId := some pk } else r

variable (ids : List String) (pk : ℕ)

@[simp] theorem attachRow_id (r : TxnRow) :
    (attachRow ids pk r).ttTransactionId = r.ttTransactionId := by
  unfold attachRow
  split <;> rfl

@[simp] theorem attachRow_book (r : TxnRow) : (attachRow ids pk r).book = r.book := by
  unfold attachRow
  split <;> rfl

theorem attachRow_group (r : TxnRow) :
    (attachRow ids pk r).tradeGroupId =
      if r.ttTransactionId ∈ ids then some pk else r.tradeGroupId := by
  unfold attachRow
  split <;> rfl

@[simp] theorem values_attached :
    (s.attached ids pk).transactions.values = s.transactions.values.map (attachRow ids pk) :=
  Table.values_modify _ _ _

@[simp] theorem txn_attached (id : String) :
    (s.attached ids pk).txn id = (s.txn id).map (attachRow ids pk) :=
  Table.getByKey_modify _ _ _ _

theorem members_attached (pk' : ℕ) :
    (s.attached ids pk).members pk' =
      (s.transactions.values.filter fun r =>
        (attachRow ids pk r).tradeGroupId = some pk').map (attachRow ids pk) := by
  rw [members, values_attached, List.filter_map]
  rfl

/-- Attaching ungrouped rows changes no other group's members. -/
theorem members_attached_of_ne {ids : List String} {pk pk' : ℕ} (hne : pk' ≠ pk)
    (hids : ∀ r ∈ s.members pk', r.ttTransactionId ∉ ids) :
    (s.attached ids pk).members pk' = s.members pk' := by
  rw [members_attached]
  have hfilter : (s.transactions.values.filter fun r =>
      decide ((attachRow ids pk r).tradeGroupId = some pk')) = s.members pk' := by
    refine List.filter_congr fun r hr => ?_
    rw [attachRow_group]
    by_cases hid : r.ttTransactionId ∈ ids
    · have hold : r.tradeGroupId ≠ some pk' := by
        intro hg
        refine hids r ?_ hid
        rw [members, List.mem_filter]
        exact ⟨hr, by simpa using hg⟩
      simp [hid, hold, Ne.symm hne]
    · simp [hid]
  rw [hfilter]
  have hmap : ∀ r ∈ s.members pk', attachRow ids pk r = r := by
    intro r hr
    unfold attachRow
    rw [if_neg (hids r hr)]
  simpa using List.map_congr_left (g := id) hmap

end InMemoryStore

/-! ## Ungrouped rows -/

/-- Distinct stored transactions, none of them in a group. -/
structure Ungrouped (s : InMemoryStore) (rows : List TxnRow) : Prop where
  nodup : (rows.map TxnRow.ttTransactionId).Nodup
  stored : ∀ r ∈ rows, ∃ t, s.txn r.ttTransactionId = some t ∧ t.book = r.book ∧
    t.tradeGroupId = none

namespace Ungrouped

variable {s : InMemoryStore} {rows : List TxnRow} {pk : ℕ}

/-- Ungrouped rows are no group's members. -/
theorem notMem_members (h : Ungrouped s rows) :
    ∀ m ∈ s.members pk, m.ttTransactionId ∉ rows.map TxnRow.ttTransactionId := by
  intro m hm hmem
  obtain ⟨hmt, hmg⟩ := (s.mem_members).mp hm
  obtain ⟨r, hr, hid⟩ := List.mem_map.mp hmem
  obtain ⟨t, ht, -, htg⟩ := h.stored r hr
  rw [hid, hmt] at ht
  cases ht
  rw [hmg] at htg
  cases htg

/-- The stored transactions of the rows are the rows, up to links and order. -/
theorem filter_perm (h : Ungrouped s rows) :
    ((s.transactions.values.filter fun r =>
      r.ttTransactionId ∈ rows.map TxnRow.ttTransactionId).map TxnRow.book).Perm
        (rows.map TxnRow.book) := by
  have hkeys : ∀ r ∈ rows, ∃ t ∈ s.transactions.values,
      t.ttTransactionId = r.ttTransactionId ∧ t.book = r.book := by
    intro r hr
    obtain ⟨t, ht, hb, -⟩ := h.stored r hr
    have hk := s.txn_key ht
    exact ⟨t, s.mem_values_iff_txn.mpr (by rw [hk]; exact ht), hk, hb⟩
  refine (List.perm_ext_iff_of_nodup ?_ (InMemoryStore.nodup_map_book h.nodup)).mpr ?_
  · exact InMemoryStore.nodup_map_book
      ((List.Sublist.map _ List.filter_sublist).nodup s.nodup_ids)
  · intro b
    simp only [List.mem_map, List.mem_filter, decide_eq_true_eq]
    constructor
    · rintro ⟨t, ⟨ht, r, hr, hid⟩, rfl⟩
      obtain ⟨t', ht', hid', hb⟩ := hkeys r hr
      have : t = t' := List.inj_on_of_nodup_map s.nodup_ids ht ht' (hid.symm.trans hid'.symm)
      exact ⟨r, hr, by rw [this, hb]⟩
    · rintro ⟨r, hr, rfl⟩
      obtain ⟨t, ht, hid, hb⟩ := hkeys r hr
      exact ⟨t, ⟨ht, r, hr, hid.symm⟩, hb⟩

/-- **Attaching ungrouped rows appends them to the group's members.** -/
theorem members_attached_perm (h : Ungrouped s rows) :
    (((s.attached (rows.map TxnRow.ttTransactionId) pk).members pk).map TxnRow.book).Perm
      ((s.members pk).map TxnRow.book ++ rows.map TxnRow.book) := by
  rw [InMemoryStore.members_attached, List.map_map]
  have hbook : (TxnRow.book ∘ InMemoryStore.attachRow (rows.map TxnRow.ttTransactionId) pk) =
      TxnRow.book := by
    funext r
    simp
  rw [hbook]
  -- split the new members into the old ones and the attached ones
  have hsplit := List.filter_append_perm
    (fun r : TxnRow => decide (r.ttTransactionId ∉ rows.map TxnRow.ttTransactionId))
    (s.transactions.values.filter fun r =>
      (InMemoryStore.attachRow (rows.map TxnRow.ttTransactionId) pk r).tradeGroupId = some pk)
  refine (hsplit.symm.map TxnRow.book).trans ?_
  rw [List.map_append]
  refine List.Perm.append (List.Perm.of_eq ?_) ?_
  · rw [List.filter_filter]
    refine congrArg (List.map TxnRow.book) (List.filter_congr fun r hr => ?_)
    rw [InMemoryStore.attachRow_group]
    by_cases hid : r.ttTransactionId ∈ rows.map TxnRow.ttTransactionId
    · have hnot : r.tradeGroupId ≠ some pk := fun hg =>
        h.notMem_members r (s.mem_members.mpr ⟨s.mem_values_iff_txn.mp hr, hg⟩) hid
      simp [hid, hnot]
    · simp [hid]
  · rw [List.filter_filter]
    refine (List.Perm.of_eq (congrArg (List.map TxnRow.book) ?_)).trans h.filter_perm
    refine List.filter_congr fun r _ => ?_
    rw [InMemoryStore.attachRow_group]
    by_cases hid : r.ttTransactionId ∈ rows.map TxnRow.ttTransactionId <;> simp [hid]

theorem members_attached_of_ne (h : Ungrouped s rows) {pk' : ℕ} (hne : pk' ≠ pk) :
    (s.attached (rows.map TxnRow.ttTransactionId) pk).members pk' = s.members pk' :=
  s.members_attached_of_ne hne h.notMem_members

end Ungrouped

end TtLedger
