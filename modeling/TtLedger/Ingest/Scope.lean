import TtLedger.Ingest.LapseLaws
import TtLedger.Ingest.ReadOnly

/-!
# What a pass may write

A pass over one account writes through keys that are not the account's: transaction identifiers,
group keys, order identifiers. `Scoped account settles s op` says that a call, issued in state
`s`, concerns the account alone; `LinksWithin s account` is what the account's own links must
satisfy for a pass to issue no other call; `Grows account s s'` is what scoped calls keep of the
groups, orders and transactions of a state. A scoped call keeps the links within the account and
grows the state (`Scoped.step`).
-/

namespace TtLedger

open LedgerStore Prog

variable (account : String)

/-! ## Links within an account -/

/-- The group exists and belongs to the account. -/
def GroupOf (s : InMemoryStore) (pk : ℕ) : Prop :=
  ∃ tg, s.getTradeGroupById pk = some tg ∧ tg.account = account

/-- A transaction stored under the identifier is the account's. -/
def TxnOf (s : InMemoryStore) (id : String) : Prop :=
  ∀ t, s.txn id = some t → t.account = account

/-- An order stored under the identifier is the account's. -/
def OrderOf (s : InMemoryStore) (ttOrderId : String) : Prop :=
  ∀ o, s.getOrder ttOrderId = some o → o.account = account

/-- A group under the key, if there is one, is the account's. -/
def GroupWithin (s : InMemoryStore) (pk : ℕ) : Prop :=
  ∀ tg, s.getTradeGroupById pk = some tg → tg.account = account

/-- The account's transactions and orders are in groups of the account, and its ungrouped
transactions have orders of the account. -/
structure LinksWithin (s : InMemoryStore) : Prop where
  txnGroup : ∀ t ∈ s.transactions.values, t.account = account →
    ∀ pk, t.tradeGroupId = some pk → GroupWithin account s pk
  orderGroup : ∀ o ∈ s.orders.values, o.account = account →
    ∀ pk, o.tradeGroupId = some pk → GroupWithin account s pk
  txnOrder : ∀ t ∈ s.transactions.values, t.account = account → t.tradeGroupId = none →
    ∀ i o, t.orderId = some i → s.orders.get i = some o → o.account = account
  txnNames : ∀ t ∈ s.transactions.values, t.account = account → t.tradeGroupId = none →
    ∀ k, t.ttOrderId = some k → OrderOf account s k

/-! ## Growth -/

/-- What a pass over the account keeps: groups and orders stay and keep their accounts, new groups
and transactions are the account's. -/
structure Grows (s s' : InMemoryStore) : Prop where
  groups : ∀ pk tg, s.getTradeGroupById pk = some tg →
    ∃ tg', s'.getTradeGroupById pk = some tg' ∧ tg'.account = tg.account
  newGroups : ∀ pk, s.getTradeGroupById pk = none → GroupWithin account s' pk
  orders : ∀ i o', s'.orders.get i = some o' →
    ∃ o, s.orders.get i = some o ∧ o.account = o'.account ∧ o.ttOrderId = o'.ttOrderId
  txns : ∀ id t', s'.txn id = some t' →
    t'.account = account ∨ ∃ t, s.txn id = some t ∧ t.account = t'.account

namespace Grows

variable {account} {s s' s'' : InMemoryStore}

theorem refl (s : InMemoryStore) : Grows account s s where
  groups pk tg h := ⟨tg, h, rfl⟩
  newGroups pk h tg h' := by
    rw [h] at h'
    cases h'
  orders i o h := ⟨o, h, rfl, rfl⟩
  txns id t h := Or.inr ⟨t, h, rfl⟩

/-- A change that leaves the groups alone. -/
theorem of_groups_eq (hg : s'.tradeGroups = s.tradeGroups)
    (orders : ∀ i o', s'.orders.get i = some o' →
      ∃ o, s.orders.get i = some o ∧ o.account = o'.account ∧ o.ttOrderId = o'.ttOrderId)
    (txns : ∀ id t', s'.txn id = some t' →
      t'.account = account ∨ ∃ t, s.txn id = some t ∧ t.account = t'.account) :
    Grows account s s' where
  groups pk tg h := ⟨tg, by rwa [InMemoryStore.getTradeGroupById, hg], rfl⟩
  newGroups pk h tg h' := by
    rw [InMemoryStore.getTradeGroupById, hg] at h'
    rw [InMemoryStore.getTradeGroupById, h'] at h
    cases h
  orders
  txns

theorem groupOf (h : Grows account s s') {account' : String} {pk : ℕ}
    (hpk : GroupOf account' s pk) : GroupOf account' s' pk := by
  obtain ⟨tg, htg, hacc⟩ := hpk
  obtain ⟨tg', htg', hacc'⟩ := h.groups pk tg htg
  exact ⟨tg', htg', hacc'.trans hacc⟩

theorem groupWithin (h : Grows account s s') {pk : ℕ} (hpk : GroupWithin account s pk) :
    GroupWithin account s' pk := by
  cases htg : s.getTradeGroupById pk with
  | none => exact h.newGroups pk htg
  | some tg =>
    intro tg' htg'
    obtain ⟨tg'', htg'', hacc⟩ := h.groups pk tg htg
    obtain rfl := Option.some.inj (htg'.symm.trans htg'')
    exact hacc.trans (hpk tg htg)

theorem txnOf (h : Grows account s s') {id : String} (hid : TxnOf account s id) :
    TxnOf account s' id := by
  intro t' ht'
  rcases h.txns id t' ht' with hacc | ⟨t, ht, hacc⟩
  · exact hacc
  · rw [← hacc]
    exact hid t ht

/-- The order of an identifier was there before, with its account. -/
theorem getOrder (h : Grows account s s') {k : String} {o' : OrderRow}
    (ho' : s'.getOrder k = some o') : ∃ o, s.getOrder k = some o ∧ o.account = o'.account := by
  obtain ⟨⟨i, hi⟩, hk⟩ := Table.getByKey_eq_some.mp ho'
  obtain ⟨o, ho, hacc, hid⟩ := h.orders i o' (Table.get_eq_some.mpr hi)
  exact ⟨o, Table.getByKey_eq_some.mpr ⟨⟨i, Table.get_eq_some.mp ho⟩, hid.trans hk⟩, hacc⟩

theorem orderOf (h : Grows account s s') {k : String} (hk : OrderOf account s k) :
    OrderOf account s' k := by
  intro o' ho'
  obtain ⟨o, ho, hacc⟩ := h.getOrder ho'
  rw [← hacc]
  exact hk o ho

theorem trans (h : Grows account s s') (h' : Grows account s' s'') : Grows account s s'' where
  groups pk tg htg := by
    obtain ⟨tg', htg', hacc⟩ := h.groups pk tg htg
    obtain ⟨tg'', htg'', hacc'⟩ := h'.groups pk tg' htg'
    exact ⟨tg'', htg'', hacc'.trans hacc⟩
  newGroups pk hpk := h'.groupWithin (h.newGroups pk hpk)
  orders i o'' ho'' := by
    obtain ⟨o', ho', hacc, hid⟩ := h'.orders i o'' ho''
    obtain ⟨o, ho, hacc', hid'⟩ := h.orders i o' ho'
    exact ⟨o, ho, hacc'.trans hacc, hid'.trans hid⟩
  txns id t'' ht'' := by
    rcases h'.txns id t'' ht'' with hacc | ⟨t', ht', hacc⟩
    · exact Or.inl hacc
    · rcases h.txns id t' ht' with hacc' | ⟨t, ht, hacc'⟩
      · exact Or.inl (hacc.symm.trans hacc')
      · exact Or.inr ⟨t, ht, hacc'.trans hacc⟩

end Grows

/-! ## Scoped calls -/

/-- An order row to be written over a stored order of the account, in a group of the account. -/
structure ScopedOrder (s : InMemoryStore) (row : OrderRow) : Prop where
  own : row.account = account
  stored : ∃ k o, row.ttOrderId = some k ∧ s.getOrder k = some o ∧ o.account = account
  group : ∀ pk, row.tradeGroupId = some pk → GroupOf account s pk

/-- A settlement row of the account, in a group of the account. -/
structure ScopedTxn (settles : String → Prop) (s : InMemoryStore) (row : TxnRow) : Prop where
  own : row.account = account
  settles : settles row.ttTransactionId
  group : ∃ pk, row.tradeGroupId = some pk ∧ GroupOf account s pk

/-- A call that concerns the account alone; `settles` are the identifiers under which it may write
transactions. -/
def Scoped (settles : String → Prop) (s : InMemoryStore) : LedgerOp → Prop
  | .upsertOrders rows => ∀ row ∈ rows, ScopedOrder account s row
  | .upsertTransactions rows => ∀ row ∈ rows, ScopedTxn account settles s row
  | .linkTransactionsToOrders account' => account' = account
  | .linkOrdersToGroups account' => account' = account
  | .linkClosedPositionsToGroups account' => account' = account
  | .upsertTradeGroup tg =>
    tg.account = account ∧ ∀ tg', s.getTradeGroup tg.groupId = some tg' → tg'.account = account
  | .addTradeGroupEvent ev => GroupOf account s ev.tradeGroupId
  | .attachTransactionsToTradeGroup ids pk =>
    GroupOf account s pk ∧ ∀ id ∈ ids, TxnOf account s id
  | .uuid4 => True
  | op => op.IsRead

/-! ## Orders -/

section Steps

variable {account} {settles : String → Prop} {s : InMemoryStore}

/-- The order row an upsert stores. -/
def storedOrder (s : InMemoryStore) (row : OrderRow) : OrderRow :=
  match if truthy row.ttOrderId then row.ttOrderId.bind s.orders.getByKey else none with
  | some existing => InMemoryStore.preserveOrder existing row
  | none => row

theorem upsertOrder_eq (s : InMemoryStore) (row : OrderRow) :
    s.upsertOrder row =
      ((s.orders.upsert (storedOrder s row)).1,
        { s with orders := (s.orders.upsert (storedOrder s row)).2 }) := rfl

@[simp] theorem account_storedOrder (s : InMemoryStore) (row : OrderRow) :
    (storedOrder s row).account = row.account := by
  unfold storedOrder
  split <;> rfl

@[simp] theorem ttOrderId_storedOrder (s : InMemoryStore) (row : OrderRow) :
    (storedOrder s row).ttOrderId = row.ttOrderId := by
  unfold storedOrder
  split <;> rfl

/-- The group of the row stored is the row's, or that of the order it overwrites. -/
theorem tradeGroupId_storedOrder {row : OrderRow} {pk : ℕ}
    (h : (storedOrder s row).tradeGroupId = some pk) :
    row.tradeGroupId = some pk ∨
      ∃ k o, row.ttOrderId = some k ∧ s.getOrder k = some o ∧ o.tradeGroupId = some pk := by
  unfold storedOrder at h
  split at h
  · rename_i existing hex
    split at hex
    · obtain ⟨k, hk, ho⟩ := Option.bind_eq_some_iff.mp hex
      cases hrow : row.tradeGroupId with
      | some pk' =>
        exact Or.inl (by simpa [InMemoryStore.preserveOrder, hrow] using h)
      | none =>
        refine Or.inr ⟨k, existing, hk, ho, ?_⟩
        simpa [InMemoryStore.preserveOrder, hrow] using h
    · cases hex
  · exact Or.inl h

/-- An order stored under a known key overwrites the row under it and no other. -/
theorem upsertOrder_overwrites {row : OrderRow} {k : String} {o : OrderRow}
    (hk : row.ttOrderId = some k) (ho : s.getOrder k = some o) :
    ∃ i, s.orders.get i = some o ∧ o.ttOrderId = some k ∧
      (∀ j, (s.upsertOrder row).2.orders.get j =
        if j = i then some (storedOrder s row) else s.orders.get j) ∧
      ∀ k', (s.upsertOrder row).2.getOrder k' =
        if k' = k then some (storedOrder s row) else s.getOrder k' := by
  obtain ⟨⟨i, hi⟩, hok⟩ := Table.getByKey_eq_some.mp ho
  have hold : (OrderRow.key (storedOrder s row)).bind s.orders.idOf = some i := by
    rw [OrderRow.key, ttOrderId_storedOrder, hk]
    exact Table.idOf_eq_some.mpr ⟨o, hi, hok⟩
  have hid : (s.orders.upsert (storedOrder s row)).1 = i := by
    rw [s.orders.upsert_of_old _ hold]
  refine ⟨i, Table.get_eq_some.mpr hi, hok, fun j => ?_, fun k' => ?_⟩
  · rw [upsertOrder_eq, ← hid]
    exact Table.get_upsert _ _ j
  · rw [upsertOrder_eq]
    exact Table.getByKey_upsert _ _ (by rw [OrderRow.key, ttOrderId_storedOrder, hk]) k'

/-- The row stored of an order of the account is in a group of the account. -/
theorem groupWithin_storedOrder {row : OrderRow} (h : LinksWithin account s)
    (hrow : ScopedOrder account s row) :
    ∀ pk, (storedOrder s row).tradeGroupId = some pk → GroupWithin account s pk := by
  obtain ⟨k, o, hk, ho, hacc⟩ := hrow.stored
  intro pk hpk
  rcases tradeGroupId_storedOrder hpk with hpk | ⟨k', o', hk', ho', hpk⟩
  · obtain ⟨tg, htg, htgacc⟩ := hrow.group pk hpk
    intro tg' htg'
    obtain rfl := Option.some.inj (htg.symm.trans htg')
    exact htgacc
  · obtain rfl := Option.some.inj (hk.symm.trans hk')
    obtain rfl := Option.some.inj (ho.symm.trans ho')
    exact h.orderGroup o (Table.mem_values_of_getByKey ho) hacc pk hpk

theorem upsertOrder_scoped {row : OrderRow} (h : LinksWithin account s)
    (hrow : ScopedOrder account s row) :
    LinksWithin account (s.upsertOrder row).2 ∧ Grows account s (s.upsertOrder row).2 ∧
      ∀ row', ScopedOrder account s row' → ScopedOrder account (s.upsertOrder row).2 row' := by
  obtain ⟨k, o, hk, ho, hacc⟩ := hrow.stored
  obtain ⟨i, hi, hok, hget, hkey⟩ := upsertOrder_overwrites hk ho
  have hown : (storedOrder s row).account = account := by rw [account_storedOrder, hrow.own]
  have horders : ∀ o' ∈ (s.upsertOrder row).2.orders.values,
      o' = storedOrder s row ∨ o' ∈ s.orders.values := by
    intro o' ho'
    obtain ⟨j, hj⟩ := Table.mem_values.mp ho'
    rw [hget] at hj
    split at hj
    · exact Or.inl (Option.some.inj hj).symm
    · exact Or.inr (Table.mem_values.mpr ⟨j, hj⟩)
  refine ⟨?_, ?_, ?_⟩
  · refine ⟨h.txnGroup, ?_, ?_, ?_⟩
    · intro o' ho' hacc' pk hpk
      rcases horders o' ho' with rfl | hmem
      · exact groupWithin_storedOrder h hrow pk hpk
      · exact h.orderGroup o' hmem hacc' pk hpk
    · intro t ht htacc hfree j o' htj ho'
      rw [hget] at ho'
      split at ho'
      · rw [← Option.some.inj ho', hown]
      · exact h.txnOrder t ht htacc hfree j o' htj ho'
    · intro t ht htacc hfree k' htk o' ho'
      rw [hkey] at ho'
      split at ho'
      · rw [← Option.some.inj ho', hown]
      · exact h.txnNames t ht htacc hfree k' htk o' ho'
  · refine Grows.of_groups_eq rfl ?_ fun _ t ht => Or.inr ⟨t, ht, rfl⟩
    intro j o' ho'
    rw [hget] at ho'
    split at ho'
    · rename_i hj
      rw [← Option.some.inj ho', hj]
      refine ⟨o, hi, ?_, ?_⟩
      · rw [hown, hacc]
      · rw [ttOrderId_storedOrder, hk]
        exact hok
    · exact ⟨o', ho', rfl, rfl⟩
  · intro row' hrow'
    refine ⟨hrow'.own, ?_, hrow'.group⟩
    obtain ⟨k', o', hk', ho', hacc'⟩ := hrow'.stored
    refine ⟨k', if k' = k then storedOrder s row else o', hk', ?_, ?_⟩
    · rw [hkey]
      split
      · rfl
      · exact ho'
    · split
      · exact hown
      · exact hacc'

theorem upsertOrders_scoped {rows : List OrderRow} (h : LinksWithin account s)
    (hrows : ∀ row ∈ rows, ScopedOrder account s row) :
    LinksWithin account (s.upsertOrders rows).2 ∧ Grows account s (s.upsertOrders rows).2 := by
  have hall : LinksWithin account (s.upsertOrders rows).2 ∧
      Grows account s (s.upsertOrders rows).2 ∧
      ∀ row ∈ rows, ScopedOrder account (s.upsertOrders rows).2 row := by
    refine InMemoryStore.upsertOrders_induction (P := fun s' => LinksWithin account s' ∧
      Grows account s s' ∧ ∀ row ∈ rows, ScopedOrder account s' row) s rows ⟨h, .refl s, hrows⟩ ?_
    intro row hrow s' hs'
    obtain ⟨hlinks, hgrows, hscoped⟩ := hs'
    obtain ⟨hlinks', hgrows', hkeep⟩ := upsertOrder_scoped hlinks (hscoped row hrow)
    exact ⟨hlinks', hgrows.trans hgrows', fun row' hrow' => hkeep row' (hscoped row' hrow')⟩
  exact ⟨hall.1, hall.2.1⟩

/-! ## Transactions -/

@[simp] theorem account_written (r : TxnRow) : (written s r).account = r.account := by
  unfold written
  split <;> rfl

theorem mem_upsertTransaction {r t : TxnRow}
    (h : t ∈ (s.upsertTransaction r).transactions.values) :
    t = written s r ∨ t ∈ s.transactions.values := by
  have htxn := (InMemoryStore.mem_values_iff_txn _).mp h
  rw [txn_upsertTransaction] at htxn
  split at htxn
  · exact Or.inl (Option.some.inj htxn).symm
  · exact Or.inr ((InMemoryStore.mem_values_iff_txn _).mpr htxn)

theorem upsertTransaction_scoped {r : TxnRow} (h : LinksWithin account s)
    (hr : ScopedTxn account settles s r) :
    LinksWithin account (s.upsertTransaction r) ∧ Grows account s (s.upsertTransaction r) := by
  obtain ⟨pk, hpk, tg, htg, hacc⟩ := hr.group
  -- the row written is in its group
  have hgroup : (written s r).tradeGroupId = some pk := by
    rw [written_group s (by rw [hpk]; rfl), hpk]
  refine ⟨⟨?_, h.orderGroup, ?_, ?_⟩, Grows.of_groups_eq rfl (fun i o ho => ⟨o, ho, rfl, rfl⟩) ?_⟩
  · intro t ht htacc pk' hpk' tg' htg'
    rcases mem_upsertTransaction ht with rfl | ht
    · obtain rfl := Option.some.inj (hgroup.symm.trans hpk')
      obtain rfl := Option.some.inj (htg.symm.trans htg')
      exact hacc
    · exact h.txnGroup t ht htacc pk' hpk' tg' htg'
  · intro t ht htacc hfree
    rcases mem_upsertTransaction ht with rfl | ht
    · rw [hgroup] at hfree
      cases hfree
    · exact h.txnOrder t ht htacc hfree
  · intro t ht htacc hfree
    rcases mem_upsertTransaction ht with rfl | ht
    · rw [hgroup] at hfree
      cases hfree
    · exact h.txnNames t ht htacc hfree
  · intro id t ht
    rw [txn_upsertTransaction] at ht
    split at ht
    · left
      rw [← Option.some.inj ht, account_written, hr.own]
    · exact Or.inr ⟨t, ht, rfl⟩

theorem upsertTransactions_scoped {rows : List TxnRow} (h : LinksWithin account s)
    (hrows : ∀ r ∈ rows, ScopedTxn account settles s r) :
    LinksWithin account (s.upsertTransactions rows) ∧
      Grows account s (s.upsertTransactions rows) := by
  unfold InMemoryStore.upsertTransactions
  induction rows generalizing s with
  | nil => exact ⟨h, .refl s⟩
  | cons r rows ih =>
    obtain ⟨h₁, hgrows⟩ := upsertTransaction_scoped h (hrows r (by simp))
    obtain ⟨h₂, hgrows₂⟩ := ih h₁ fun r' hr' =>
      let hr' := hrows r' (by simp [hr'])
      ⟨hr'.own, hr'.settles, hr'.group⟩
    exact ⟨h₂, hgrows.trans hgrows₂⟩

theorem attach_scoped {ids : List String} {pk : ℕ} (h : LinksWithin account s)
    (hpk : GroupOf account s pk) :
    LinksWithin account (s.attached ids pk) ∧ Grows account s (s.attached ids pk) := by
  obtain ⟨tg, htg, hacc⟩ := hpk
  have hrow : ∀ t ∈ (s.attached ids pk).transactions.values,
      ∃ t₀ ∈ s.transactions.values, t = InMemoryStore.attachRow ids pk t₀ := by
    intro t ht
    rw [InMemoryStore.values_attached] at ht
    obtain ⟨t₀, ht₀, rfl⟩ := List.mem_map.mp ht
    exact ⟨t₀, ht₀, rfl⟩
  have haccount : ∀ t, (InMemoryStore.attachRow ids pk t).account = t.account := by
    intro t
    unfold InMemoryStore.attachRow
    split <;> rfl
  -- a row still ungrouped was not attached
  have hfree : ∀ t, (InMemoryStore.attachRow ids pk t).tradeGroupId = none →
      InMemoryStore.attachRow ids pk t = t := by
    intro t ht
    unfold InMemoryStore.attachRow at ht ⊢
    split at ht
    · cases ht
    · rename_i hid
      rw [if_neg hid]
  refine ⟨⟨?_, h.orderGroup, ?_, ?_⟩, Grows.of_groups_eq rfl (fun i o ho => ⟨o, ho, rfl, rfl⟩) ?_⟩
  · intro t ht htacc pk' hpk' tg' htg'
    obtain ⟨t₀, ht₀, rfl⟩ := hrow t ht
    rw [haccount] at htacc
    rw [InMemoryStore.attachRow_group] at hpk'
    split at hpk'
    · obtain rfl := Option.some.inj hpk'
      obtain rfl := Option.some.inj (htg.symm.trans htg')
      exact hacc
    · exact h.txnGroup t₀ ht₀ htacc pk' hpk' tg' htg'
  · intro t ht htacc htfree
    obtain ⟨t₀, ht₀, rfl⟩ := hrow t ht
    have heq := hfree t₀ htfree
    rw [heq] at htacc htfree ⊢
    exact h.txnOrder t₀ ht₀ htacc htfree
  · intro t ht htacc htfree
    obtain ⟨t₀, ht₀, rfl⟩ := hrow t ht
    have heq := hfree t₀ htfree
    rw [heq] at htacc htfree ⊢
    exact h.txnNames t₀ ht₀ htacc htfree
  · intro id t ht
    rw [InMemoryStore.txn_attached] at ht
    obtain ⟨t₀, ht₀, rfl⟩ := Option.map_eq_some_iff.mp ht
    exact Or.inr ⟨t₀, ht₀, (haccount t₀).symm⟩

/-! ## Links -/

/-- The order a transaction is linked to is the account's. -/
theorem orderOf_eq_some {t : TxnRow} {i : ℕ} (h : s.orderOf account t = some i) :
    ∃ o, s.orders.get i = some o ∧ o.account = account := by
  unfold InMemoryStore.orderOf at h
  split at h
  · cases h
  · split at h
    · cases h
    · rename_i k _ order hget
      split at h
      · rename_i hacc
        obtain ⟨o, ho, hk⟩ := Table.idOf_eq_some.mp h
        obtain ⟨⟨j, hj⟩, hkey⟩ := Table.getByKey_eq_some.mp hget
        have heq : o = order := congrArg Prod.snd (Table.eq_of_mem_of_key ho hj hk hkey)
        exact ⟨o, Table.get_eq_some.mpr ho, by rw [heq, hacc]⟩
      · cases h

theorem linkTransactions_scoped (h : LinksWithin account s) :
    LinksWithin account (s.linkTransactionsToOrders account).2 ∧
      Grows account s (s.linkTransactionsToOrders account).2 := by
  have hvalues : (s.linkTransactionsToOrders account).2.transactions.values =
      s.transactions.values.map (linkRow s account) := Table.values_modify _ _ _
  have hname : ∀ t, (linkRow s account t).ttOrderId = t.ttOrderId := by
    intro t
    unfold linkRow
    split <;> rfl
  refine ⟨⟨?_, h.orderGroup, ?_, ?_⟩, Grows.of_groups_eq rfl (fun i o ho => ⟨o, ho, rfl, rfl⟩) ?_⟩
  · intro t ht htacc pk hpk
    rw [hvalues] at ht
    obtain ⟨t₀, ht₀, rfl⟩ := List.mem_map.mp ht
    rw [linkRow_account] at htacc
    rw [linkRow_group] at hpk
    exact h.txnGroup t₀ ht₀ htacc pk hpk
  · intro t ht htacc htfree i o hi ho
    rw [hvalues] at ht
    obtain ⟨t₀, ht₀, rfl⟩ := List.mem_map.mp ht
    rw [linkRow_account] at htacc
    rw [linkRow_group] at htfree
    unfold linkRow at hi
    split at hi
    · -- the order just linked is the account's
      obtain ⟨o', ho', hacc⟩ := orderOf_eq_some hi
      rw [← Option.some.inj (ho'.symm.trans ho), hacc]
    · exact h.txnOrder t₀ ht₀ htacc htfree i o hi ho
  · intro t ht htacc htfree k hk
    rw [hvalues] at ht
    obtain ⟨t₀, ht₀, rfl⟩ := List.mem_map.mp ht
    rw [linkRow_account] at htacc
    rw [linkRow_group] at htfree
    rw [hname] at hk
    exact h.txnNames t₀ ht₀ htacc htfree k hk
  · intro id t ht
    have htxn : (s.linkTransactionsToOrders account).2.txn id =
        (s.txn id).map (linkRow s account) := Table.getByKey_modify _ _ _ _
    rw [htxn] at ht
    obtain ⟨t₀, ht₀, rfl⟩ := Option.map_eq_some_iff.mp ht
    exact Or.inr ⟨t₀, ht₀, (linkRow_account s account t₀).symm⟩

/-- The group an order takes is that of a transaction of its account. -/
theorem groupForOrder_eq_some {o : OrderRow} {pk : ℕ} (h : s.groupForOrder account o = some pk) :
    o.account = account ∧
      ∃ t ∈ s.transactions.values, t.account = account ∧ t.tradeGroupId = some pk := by
  unfold InMemoryStore.groupForOrder at h
  split at h
  · rename_i hown
    refine ⟨hown.1, ?_⟩
    cases hk : o.ttOrderId with
    | none =>
      rw [hk] at h
      cases h
    | some k =>
      rw [hk, Option.map_some] at h
      split at h
      · rename_i pk' hone
        have hmem : pk ∈ s.groupsOfOrder account k := by
          rw [Option.some.inj hone, Option.some.inj h]
          simp
        rw [InMemoryStore.groupsOfOrder, List.mem_eraseDups, List.mem_filterMap] at hmem
        obtain ⟨t, ht, htpk⟩ := hmem
        obtain ⟨ht, hacc⟩ := List.mem_filter.mp ht
        exact ⟨t, ht, (of_decide_eq_true hacc).1, htpk⟩
      · cases h
  · cases h

/-- What the link step makes of an order. -/
def linkOrderRow (s : InMemoryStore) (account : String) (order : OrderRow) : OrderRow :=
  { order with tradeGroupId := order.tradeGroupId <|> s.groupForOrder account order }

/-- An order keeps its group, or takes that of a transaction. -/
theorem tradeGroupId_linkOrderRow {o : OrderRow} {pk : ℕ}
    (h : (linkOrderRow s account o).tradeGroupId = some pk) :
    o.tradeGroupId = some pk ∨ s.groupForOrder account o = some pk := by
  cases hold : o.tradeGroupId with
  | some pk₀ => exact Or.inl (by simpa [linkOrderRow, hold] using h)
  | none => exact Or.inr (by simpa [linkOrderRow, hold] using h)

theorem linkOrders_scoped (h : LinksWithin account s) :
    LinksWithin account (s.linkOrdersToGroups account).2 ∧
      Grows account s (s.linkOrdersToGroups account).2 := by
  have hvalues : (s.linkOrdersToGroups account).2.orders.values =
      s.orders.values.map (linkOrderRow s account) := Table.values_modify _ _ _
  have hget : ∀ i, (s.linkOrdersToGroups account).2.orders.get i =
      (s.orders.get i).map (linkOrderRow s account) := fun i => Table.get_modify _ _ _ i
  refine ⟨⟨h.txnGroup, ?_, ?_, ?_⟩, Grows.of_groups_eq rfl ?_ fun id t ht => Or.inr ⟨t, ht, rfl⟩⟩
  · intro o ho hacc pk hpk
    rw [hvalues] at ho
    obtain ⟨o₀, ho₀, rfl⟩ := List.mem_map.mp ho
    rcases tradeGroupId_linkOrderRow hpk with hpk | hpk
    · exact h.orderGroup o₀ ho₀ hacc pk hpk
    · obtain ⟨-, t, ht, htacc, htpk⟩ := groupForOrder_eq_some hpk
      exact h.txnGroup t ht htacc pk htpk
  · intro t ht htacc htfree i o hi ho
    rw [hget] at ho
    obtain ⟨o₀, ho₀, rfl⟩ := Option.map_eq_some_iff.mp ho
    exact h.txnOrder t ht htacc htfree i o₀ hi ho₀
  · intro t ht htacc htfree k hk o ho
    have hkey : (s.linkOrdersToGroups account).2.getOrder k =
        (s.getOrder k).map (linkOrderRow s account) := Table.getByKey_modify _ _ _ _
    rw [hkey] at ho
    obtain ⟨o₀, ho₀, rfl⟩ := Option.map_eq_some_iff.mp ho
    exact h.txnNames t ht htacc htfree k hk o₀ ho₀
  · intro i o ho
    rw [hget] at ho
    obtain ⟨o₀, ho₀, rfl⟩ := Option.map_eq_some_iff.mp ho
    exact ⟨o₀, ho₀, rfl, rfl⟩

/-! ## Groups -/

theorem upsertTradeGroup_scoped {tg : TradeGroupRow} (h : LinksWithin account s)
    (hown : tg.account = account)
    (hold : ∀ tg', s.getTradeGroup tg.groupId = some tg' → tg'.account = account) :
    LinksWithin account (s.upsertTradeGroup tg).2 ∧
      Grows account s (s.upsertTradeGroup tg).2 := by
  have hget : ∀ pk, (s.upsertTradeGroup tg).2.getTradeGroupById pk =
      if pk = (s.upsertTradeGroup tg).1 then some tg else s.getTradeGroupById pk :=
    fun pk => Table.get_upsert _ _ pk
  have hgrows : Grows account s (s.upsertTradeGroup tg).2 := by
    refine ⟨?_, ?_, fun i o ho => ⟨o, ho, rfl, rfl⟩, fun id t ht => Or.inr ⟨t, ht, rfl⟩⟩
    · intro pk tg' htg'
      rw [hget]
      split
      · rename_i hpk
        refine ⟨tg, rfl, ?_⟩
        -- the row overwritten has the key of the new one
        rw [hpk] at htg'
        obtain ⟨k, hk, hk'⟩ := Table.getByKey_of_get_upsert htg'
        obtain rfl := Option.some.inj hk
        rw [hold tg' hk', hown]
      · exact ⟨tg', htg', rfl⟩
    · intro pk hnone tg' htg'
      rw [hget] at htg'
      split at htg'
      · rw [← Option.some.inj htg', hown]
      · rw [hnone] at htg'
        cases htg'
  refine ⟨⟨?_, ?_, h.txnOrder, h.txnNames⟩, hgrows⟩
  · intro t ht hacc pk hpk
    exact hgrows.groupWithin (h.txnGroup t ht hacc pk hpk)
  · intro o ho hacc pk hpk
    exact hgrows.groupWithin (h.orderGroup o ho hacc pk hpk)

/-! ## One call -/

/-- **A scoped call** keeps the account's links within it. -/
theorem Scoped.step {op : LedgerOp} (hop : Scoped account settles s op)
    (h : LinksWithin account s) :
    LinksWithin account (s.step op).2 ∧ Grows account s (s.step op).2 := by
  cases op with
  | upsertOrders rows => exact upsertOrders_scoped h hop
  | upsertTransactions rows => exact upsertTransactions_scoped h hop
  | linkTransactionsToOrders account' =>
    obtain rfl : account' = account := hop
    exact linkTransactions_scoped h
  | linkOrdersToGroups account' =>
    obtain rfl : account' = account := hop
    exact linkOrders_scoped h
  | linkClosedPositionsToGroups account' =>
    exact ⟨⟨h.txnGroup, h.orderGroup, h.txnOrder, h.txnNames⟩,
      Grows.of_groups_eq rfl (fun i o ho => ⟨o, ho, rfl, rfl⟩) fun id t ht => Or.inr ⟨t, ht, rfl⟩⟩
  | upsertTradeGroup tg => exact upsertTradeGroup_scoped h hop.1 hop.2
  | addTradeGroupEvent ev =>
    exact ⟨⟨h.txnGroup, h.orderGroup, h.txnOrder, h.txnNames⟩,
      Grows.of_groups_eq rfl (fun i o ho => ⟨o, ho, rfl, rfl⟩) fun id t ht => Or.inr ⟨t, ht, rfl⟩⟩
  | attachTransactionsToTradeGroup ids pk => exact attach_scoped h hop.1
  | uuid4 =>
    exact ⟨⟨h.txnGroup, h.orderGroup, h.txnOrder, h.txnNames⟩,
      Grows.of_groups_eq rfl (fun i o ho => ⟨o, ho, rfl, rfl⟩) fun id t ht => Or.inr ⟨t, ht, rfl⟩⟩
  | upsertSecurity | upsertPositions | upsertClosedPosition | moveTransactionsToGroup
  | linkTransactionsToPositions =>
    exact hop.elim
  | _ => exact ⟨h, .refl s⟩

end Steps

end TtLedger
