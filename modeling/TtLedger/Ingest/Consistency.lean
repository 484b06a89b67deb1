import TtLedger.Ingest.ScopeWalk
import Mathlib.Data.Option.Basic

/-!
# Links within accounts

`Consistent s`: every transaction and every order in a group is in a group of its own account, and
the order of a transaction in no group is of its account. `LinkSafe s op` is what a call must
satisfy for `Consistent` to survive it (`Consistent.step`): the rows it writes are in groups of
their account, and it takes no order and no transaction over from another account. The calls of a
pass are safe (`Scoped.linkSafe`), whatever account it runs over.
-/

namespace TtLedger

open LedgerStore Prog

/-! ## The invariant -/

/-- A transaction is in a group of its account; while it is in none, its order is of its account. -/
structure TxnConsistent (s : InMemoryStore) (t : TxnRow) : Prop where
  group : ∀ pk, t.tradeGroupId = some pk → GroupOf t.account s pk
  order : t.tradeGroupId = none → ∀ i, t.orderId = some i →
    ∃ o, s.orders.get i = some o ∧ o.account = t.account
  names : t.tradeGroupId = none → ∀ k, t.ttOrderId = some k → OrderOf t.account s k

/-- An order is in a group of its account. -/
def OrderConsistent (s : InMemoryStore) (o : OrderRow) : Prop :=
  ∀ pk, o.tradeGroupId = some pk → GroupOf o.account s pk

/-- Links stay within accounts. -/
structure Consistent (s : InMemoryStore) : Prop where
  txns : ∀ t ∈ s.transactions.values, TxnConsistent s t
  orders : ∀ o ∈ s.orders.values, OrderConsistent s o

theorem consistent_empty (clock : Datetime) : Consistent (InMemoryStore.empty clock) where
  txns t ht := by cases ht
  orders o ho := by cases ho

/-! ## Safe calls -/

/-- The transactions in no group that name the order are of the account. -/
def NamedWithin (account : String) (s : InMemoryStore) (ttOrderId : String) : Prop :=
  ∀ t ∈ s.transactions.values, t.tradeGroupId = none → t.ttOrderId = some ttOrderId →
    t.account = account

/-- An order row of the account that has its key, in a group of that account. -/
structure OrderSafe (s : InMemoryStore) (row : OrderRow) : Prop where
  stored : ∀ k, row.ttOrderId = some k → OrderOf row.account s k
  named : ∀ k, row.ttOrderId = some k → NamedWithin row.account s k
  group : ∀ pk, row.tradeGroupId = some pk → GroupOf row.account s pk

/-- A transaction row in a group of its account; one that brings no group takes no links over from
another account and names no order of one. -/
structure TxnSafe (s : InMemoryStore) (r : TxnRow) : Prop where
  group : ∀ pk, r.tradeGroupId = some pk → GroupOf r.account s pk
  stored : r.tradeGroupId = none → ∀ t, s.txn r.ttTransactionId = some t →
    t.account = r.account ∨ t.tradeGroupId = none ∧ t.orderId = none
  order : r.tradeGroupId = none → r.orderId = none
  names : r.tradeGroupId = none →
    (∀ t, s.txn r.ttTransactionId = some t → t.tradeGroupId = none) →
    ∀ k, r.ttOrderId = some k → OrderOf r.account s k

/-- A call that keeps links within accounts. -/
def LinkSafe (s : InMemoryStore) : LedgerOp → Prop
  | .upsertOrders rows => (∀ row ∈ rows, OrderSafe s row) ∧
    ∀ row ∈ rows, ∀ row' ∈ rows, ∀ k, row.ttOrderId = some k → row'.ttOrderId = some k →
      row.account = row'.account
  | .upsertTransactions rows => (∀ r ∈ rows, TxnSafe s r) ∧
    ∀ r ∈ rows, ∀ r' ∈ rows, r.account = r'.account
  | .upsertTradeGroup tg => ∀ tg', s.getTradeGroup tg.groupId = some tg' → tg'.account = tg.account
  | .attachTransactionsToTradeGroup ids pk =>
    ∃ account, GroupOf account s pk ∧ ∀ id ∈ ids, TxnOf account s id
  | .moveTransactionsToGroup txnIds pk? => ∃ account pk, pk? = some pk ∧ GroupOf account s pk ∧
    ∀ t ∈ s.getTransactionsById txnIds, t.account = account
  | _ => True

section Steps

variable {s s' : InMemoryStore}

/-! ## Orders -/

theorem GroupOf.congr (hg : s'.tradeGroups = s.tradeGroups) {account : String} {pk : ℕ}
    (h : GroupOf account s pk) : GroupOf account s' pk := by
  obtain ⟨tg, htg, hacc⟩ := h
  exact ⟨tg, by rwa [InMemoryStore.getTradeGroupById, hg], hacc⟩

/-- The order of an identifier after an upsert: the row written, or the one before. -/
theorem getOrder_upsertOrder {row o : OrderRow} {k : String}
    (h : (s.upsertOrder row).2.getOrder k = some o) :
    o = storedOrder s row ∧ row.ttOrderId = some k ∨ s.getOrder k = some o := by
  obtain ⟨⟨i, hi⟩, hk⟩ := Table.getByKey_eq_some.mp h
  have hget : (s.upsertOrder row).2.orders.get i = some o := Table.get_eq_some.mpr hi
  rw [upsertOrder_eq] at hget
  simp only [Table.get_upsert] at hget
  split at hget
  · obtain rfl := Option.some.inj hget
    exact Or.inl ⟨rfl, by rwa [OrderRow.key, ttOrderId_storedOrder] at hk⟩
  · exact Or.inr (Table.getByKey_eq_some.mpr ⟨⟨i, Table.get_eq_some.mp hget⟩, hk⟩)

theorem OrderOf.upsertOrder {row : OrderRow} {account k : String} (h : OrderOf account s k)
    (hrow : row.ttOrderId = some k → row.account = account) :
    OrderOf account (s.upsertOrder row).2 k := by
  intro o ho
  rcases getOrder_upsertOrder ho with ⟨rfl, hk⟩ | ho
  · rw [account_storedOrder, hrow hk]
  · exact h o ho

theorem Consistent.upsertOrder {row : OrderRow} (h : Consistent s) (hrow : OrderSafe s row) :
    Consistent (s.upsertOrder row).2 := by
  have hget : ∀ i, (s.upsertOrder row).2.orders.get i =
      if i = (s.upsertOrder row).1 then some (storedOrder s row) else s.orders.get i := by
    intro i
    rw [upsertOrder_eq]
    exact Table.get_upsert _ _ i
  refine ⟨fun t ht => ?_, fun o ho => ?_⟩
  · obtain ⟨hgroup, horder, hnames⟩ := h.txns t ht
    refine ⟨hgroup, fun hfree i hi => ?_, fun hfree k hk => ?_⟩
    · obtain ⟨o, ho, hacc⟩ := horder hfree i hi
      rw [hget]
      split
      · -- the order linked is written over by one of its account
        rename_i heq
        refine ⟨_, rfl, ?_⟩
        rw [heq, upsertOrder_eq] at ho
        obtain ⟨k, hk, hk'⟩ := Table.getByKey_of_get_upsert ho
        rw [OrderRow.key, ttOrderId_storedOrder] at hk
        rw [account_storedOrder, ← hrow.stored k hk o hk', hacc]
      · exact ⟨o, ho, hacc⟩
    · exact (hnames hfree k hk).upsertOrder fun hrk => (hrow.named k hrk t ht hfree hk).symm
  · obtain ⟨i, hi⟩ := Table.mem_values.mp ho
    rw [hget] at hi
    split at hi
    · obtain rfl := Option.some.inj hi
      intro pk hpk
      rw [account_storedOrder]
      rcases tradeGroupId_storedOrder hpk with hpk | ⟨k, o', hk, ho', hpk⟩
      · exact hrow.group pk hpk
      · rw [← hrow.stored k hk o' ho']
        exact h.orders o' (Table.mem_values_of_getByKey ho') pk hpk
    · exact h.orders o (Table.mem_values.mpr ⟨i, hi⟩)

theorem OrderSafe.upsertOrder {row row' : OrderRow} (h : OrderSafe s row')
    (hacc : ∀ k, row.ttOrderId = some k → row'.ttOrderId = some k → row.account = row'.account) :
    OrderSafe (s.upsertOrder row).2 row' :=
  ⟨fun k hk => (h.stored k hk).upsertOrder fun hrk => hacc k hrk hk, h.named, h.group⟩

theorem Consistent.upsertOrders {rows : List OrderRow} (h : Consistent s)
    (hrows : LinkSafe s (.upsertOrders rows)) : Consistent (s.upsertOrders rows).2 := by
  obtain ⟨hsafe, hsame⟩ := hrows
  have hall : Consistent (s.upsertOrders rows).2 ∧
      ∀ row ∈ rows, OrderSafe (s.upsertOrders rows).2 row := by
    refine InMemoryStore.upsertOrders_induction
      (P := fun s' => Consistent s' ∧ ∀ row ∈ rows, OrderSafe s' row) s rows ⟨h, hsafe⟩ ?_
    intro row hrow s' hs'
    exact ⟨hs'.1.upsertOrder (hs'.2 row hrow), fun row' hrow' =>
      (hs'.2 row' hrow').upsertOrder (hsame row hrow row' hrow')⟩
  exact hall.1

/-! ## Transactions -/

theorem TxnConsistent.congr {t : TxnRow} (hg : s'.tradeGroups = s.tradeGroups)
    (ho : s'.orders = s.orders) (h : TxnConsistent s t) : TxnConsistent s' t where
  group pk hpk := (h.group pk hpk).congr hg
  order hfree i hi := by
    rw [ho]
    exact h.order hfree i hi
  names hfree k hk o hget := by
    rw [InMemoryStore.getOrder, ho] at hget
    exact h.names hfree k hk o hget

/-- A change to the transactions alone. -/
theorem Consistent.of_txns (h : Consistent s) (hg : s'.tradeGroups = s.tradeGroups)
    (ho : s'.orders = s.orders) (ht : ∀ t ∈ s'.transactions.values, TxnConsistent s t) :
    Consistent s' where
  txns t hmem := (ht t hmem).congr hg ho
  orders o hmem pk hpk := by
    rw [ho] at hmem
    exact (h.orders o hmem pk hpk).congr hg

/-- A row takes a group of its account. -/
theorem TxnConsistent.of_group {t : TxnRow} {pk : ℕ} (hpk : t.tradeGroupId = some pk)
    (h : GroupOf t.account s pk) : TxnConsistent s t where
  group pk' hpk' := Option.some.inj (hpk.symm.trans hpk') ▸ h
  order hfree := by
    rw [hpk] at hfree
    cases hfree
  names hfree := by
    rw [hpk] at hfree
    cases hfree

theorem TxnSafe.written {r : TxnRow} (h : Consistent s) (hr : TxnSafe s r) :
    TxnConsistent s (written s r) := by
  cases hgroup : r.tradeGroupId with
  | some pk =>
    have hwritten : (TtLedger.written s r).tradeGroupId = some pk := by
      rw [written_group s (by rw [hgroup]; rfl), hgroup]
    refine TxnConsistent.of_group hwritten ?_
    rw [account_written]
    exact hr.group pk hgroup
  | none =>
    cases hold : s.txn r.ttTransactionId with
    | none =>
      have heq : TtLedger.written s r = r := by rw [TtLedger.written, hold]
      rw [heq]
      refine ⟨hr.group, fun _ i hi => ?_, fun hfree => hr.names hfree fun t ht => ?_⟩
      · rw [hr.order hgroup] at hi
        cases hi
      · rw [hold] at ht
        cases ht
    | some t =>
      have heq : TtLedger.written s r = InMemoryStore.preserveTransaction t r := by
        rw [TtLedger.written, hold]
      have htg : (InMemoryStore.preserveTransaction t r).tradeGroupId = t.tradeGroupId := by
        simp [InMemoryStore.preserveTransaction, hgroup]
      have hto : (InMemoryStore.preserveTransaction t r).orderId = t.orderId := by
        simp [InMemoryStore.preserveTransaction, hr.order hgroup]
      obtain ⟨htgroup, htorder, -⟩ := h.txns t (Table.mem_values_of_getByKey hold)
      rw [heq]
      refine ⟨fun pk hpk => ?_, fun hfree i hi => ?_, fun hfree k hk => ?_⟩
      · rw [htg] at hpk
        rcases hr.stored hgroup t hold with hacc | ⟨hfree, -⟩
        · exact hacc ▸ htgroup pk hpk
        · rw [hfree] at hpk
          cases hpk
      · rw [htg] at hfree
        rw [hto] at hi
        rcases hr.stored hgroup t hold with hacc | ⟨-, hnone⟩
        · obtain ⟨o, ho, hoacc⟩ := htorder hfree i hi
          exact ⟨o, ho, hoacc.trans hacc⟩
        · rw [hnone] at hi
          cases hi
      · refine hr.names hgroup (fun t' ht' => ?_) k hk
        rw [hold] at ht'
        rw [← Option.some.inj ht', ← htg, hfree]

theorem Consistent.upsertTransaction {r : TxnRow} (h : Consistent s) (hr : TxnSafe s r) :
    Consistent (s.upsertTransaction r) := by
  refine h.of_txns rfl rfl fun t ht => ?_
  rcases mem_upsertTransaction ht with rfl | ht
  · exact hr.written h
  · exact h.txns t ht

theorem TxnSafe.upsertTransaction {r r' : TxnRow} (h : TxnSafe s r')
    (hacc : r.account = r'.account) : TxnSafe (s.upsertTransaction r) r' := by
  refine ⟨h.group, fun hfree t ht => ?_, h.order, fun hfree hall k hk => ?_⟩
  · rw [txn_upsertTransaction] at ht
    split at ht
    · left
      rw [← Option.some.inj ht, account_written, hacc]
    · exact h.stored hfree t ht
  · refine h.names hfree (fun t ht => ?_) k hk
    -- a row written over keeps its group
    by_cases hid : r'.ttTransactionId = r.ttTransactionId
    · have hnew := hall (TtLedger.written s r) (by rw [txn_upsertTransaction, if_pos hid])
      rw [TtLedger.written, ← hid, ht] at hnew
      simp only [InMemoryStore.preserveTransaction] at hnew
      exact ((Option.orElse_eq_none _ _).mp hnew).2
    · exact hall t (by rw [txn_upsertTransaction, if_neg hid, ht])

theorem Consistent.upsertTransactions {rows : List TxnRow} (h : Consistent s)
    (hrows : LinkSafe s (.upsertTransactions rows)) : Consistent (s.upsertTransactions rows) := by
  obtain ⟨hsafe, hsame⟩ := hrows
  unfold InMemoryStore.upsertTransactions
  induction rows generalizing s with
  | nil => exact h
  | cons r rows ih =>
    refine ih (h.upsertTransaction (hsafe r (by simp))) (fun r' hr' => ?_)
      fun r hr r' hr' => hsame r (by simp [hr]) r' (by simp [hr'])
    exact (hsafe r' (by simp [hr'])).upsertTransaction (hsame r (by simp) r' (by simp [hr']))

/-- Rows of one account take a group of the account. -/
theorem Consistent.modify (h : Consistent s) {ids : List String} {pk : ℕ} {account : String}
    (hpk : GroupOf account s pk)
    (hids : ∀ t ∈ s.transactions.values, t.ttTransactionId ∈ ids → t.account = account)
    (hs' : s'.transactions.values = s.transactions.values.map (InMemoryStore.attachRow ids pk))
    (hg : s'.tradeGroups = s.tradeGroups) (ho : s'.orders = s.orders) : Consistent s' := by
  refine h.of_txns hg ho fun t ht => ?_
  rw [hs'] at ht
  obtain ⟨t₀, ht₀, rfl⟩ := List.mem_map.mp ht
  unfold InMemoryStore.attachRow
  split
  · rename_i hid
    have hattached : ({ t₀ with tradeGroupId := some pk } : TxnRow).tradeGroupId = some pk := rfl
    refine TxnConsistent.of_group hattached ?_
    rw [show ({ t₀ with tradeGroupId := some pk } : TxnRow).account = t₀.account from rfl,
      hids t₀ ht₀ hid]
    exact hpk
  · exact h.txns t₀ ht₀

theorem Consistent.attach {ids : List String} {pk : ℕ} (h : Consistent s)
    (hop : LinkSafe s (.attachTransactionsToTradeGroup ids pk)) :
    Consistent (s.attached ids pk) := by
  obtain ⟨account, hpk, hids⟩ := hop
  refine h.modify hpk (fun t ht hid => ?_) (InMemoryStore.values_attached s ids pk) rfl rfl
  exact hids _ hid t ((InMemoryStore.mem_values_iff_txn s).mp ht)

theorem Consistent.move {txnIds : List ℕ} {pk? : Option ℕ} (h : Consistent s)
    (hop : LinkSafe s (.moveTransactionsToGroup txnIds pk?)) :
    Consistent (s.moveTransactionsToGroup txnIds pk?).2 := by
  obtain ⟨account, pk, rfl, hpk, hrows⟩ := hop
  set ids := (s.transactions.rows.filter fun p => txnIds.contains p.1).map fun p =>
    p.2.ttTransactionId with hids
  have hvalues : (s.moveTransactionsToGroup txnIds (some pk)).2.transactions.values =
      s.transactions.values.map (InMemoryStore.attachRow ids pk) := Table.values_modify _ _ _
  refine h.modify hpk (fun t ht hid => ?_) hvalues rfl rfl
  -- the row under an identifier moved is one of the rows moved
  obtain ⟨p, hp, hpid⟩ := List.mem_map.mp hid
  have hrow : p.2 ∈ s.getTransactionsById txnIds := List.mem_map_of_mem hp
  have hmem : p.2 ∈ s.transactions.values := List.mem_map_of_mem (List.mem_filter.mp hp).1
  have heq : s.txn t.ttTransactionId = some p.2 := by
    rw [← hpid]
    exact (InMemoryStore.mem_values_iff_txn s).mp hmem
  rw [Option.some.inj (((InMemoryStore.mem_values_iff_txn s).mp ht).symm.trans heq)]
  exact hrows p.2 hrow

/-! ## Links -/

theorem Consistent.linkTransactions (h : Consistent s) (account : String) :
    Consistent (s.linkTransactionsToOrders account).2 := by
  refine h.of_txns rfl rfl fun t ht => ?_
  have hvalues : (s.linkTransactionsToOrders account).2.transactions.values =
      s.transactions.values.map (linkRow s account) := Table.values_modify _ _ _
  rw [hvalues] at ht
  obtain ⟨t₀, ht₀, rfl⟩ := List.mem_map.mp ht
  obtain ⟨hgroup, horder, hnames⟩ := h.txns t₀ ht₀
  unfold linkRow
  split
  · rename_i hlinks
    have hacc : t₀.account = account := by
      simp only [InMemoryStore.linksTransaction, Bool.and_eq_true, decide_eq_true_eq] at hlinks
      exact hlinks.1.1
    refine ⟨hgroup, fun _ i hi => ?_, hnames⟩
    obtain ⟨o, ho, hoacc⟩ := orderOf_eq_some hi
    exact ⟨o, ho, hoacc.trans hacc.symm⟩
  · exact ⟨hgroup, horder, hnames⟩

theorem Consistent.linkOrders (h : Consistent s) (account : String) :
    Consistent (s.linkOrdersToGroups account).2 := by
  have hvalues : (s.linkOrdersToGroups account).2.orders.values =
      s.orders.values.map (linkOrderRow s account) := Table.values_modify _ _ _
  refine ⟨fun t ht => ?_, fun o ho pk hpk => ?_⟩
  · obtain ⟨hgroup, horder, hnames⟩ := h.txns t ht
    refine ⟨hgroup, fun hfree i hi => ?_, fun hfree k hk o ho => ?_⟩
    · obtain ⟨o, ho, hacc⟩ := horder hfree i hi
      have hget : (s.linkOrdersToGroups account).2.orders.get i =
          (s.orders.get i).map (linkOrderRow s account) := Table.get_modify _ _ _ i
      exact ⟨linkOrderRow s account o, by rw [hget, ho, Option.map_some], hacc⟩
    · have hkey : (s.linkOrdersToGroups account).2.getOrder k =
          (s.getOrder k).map (linkOrderRow s account) := Table.getByKey_modify _ _ _ _
      rw [hkey] at ho
      obtain ⟨o₀, ho₀, rfl⟩ := Option.map_eq_some_iff.mp ho
      exact hnames hfree k hk o₀ ho₀
  · rw [hvalues] at ho
    obtain ⟨o₀, ho₀, rfl⟩ := List.mem_map.mp ho
    rcases tradeGroupId_linkOrderRow hpk with hpk | hpk
    · exact h.orders o₀ ho₀ pk hpk
    · -- the transaction it takes the group of is of its account
      obtain ⟨hown, t, ht, htacc, htpk⟩ := groupForOrder_eq_some hpk
      have hgroup := (h.txns t ht).group pk htpk
      rw [htacc, ← hown] at hgroup
      exact hgroup

/-! ## Groups -/

theorem GroupOf.upsertTradeGroup {tg : TradeGroupRow} (hop : LinkSafe s (.upsertTradeGroup tg))
    {account : String} {pk : ℕ} (h : GroupOf account s pk) :
    GroupOf account (s.upsertTradeGroup tg).2 pk := by
  obtain ⟨tg', htg', hacc⟩ := h
  have hget : (s.upsertTradeGroup tg).2.getTradeGroupById pk =
      if pk = (s.upsertTradeGroup tg).1 then some tg else s.getTradeGroupById pk :=
    Table.get_upsert _ _ pk
  unfold GroupOf
  rw [hget]
  split
  · rename_i hpk
    rw [hpk] at htg'
    obtain ⟨k, hk, hk'⟩ := Table.getByKey_of_get_upsert htg'
    obtain rfl := Option.some.inj hk
    exact ⟨tg, rfl, (hop tg' hk').symm.trans hacc⟩
  · exact ⟨tg', htg', hacc⟩

theorem Consistent.upsertTradeGroup {tg : TradeGroupRow} (h : Consistent s)
    (hop : LinkSafe s (.upsertTradeGroup tg)) : Consistent (s.upsertTradeGroup tg).2 where
  txns t ht :=
    { group := fun pk hpk => ((h.txns t ht).group pk hpk).upsertTradeGroup hop
      order := (h.txns t ht).order
      names := (h.txns t ht).names }
  orders o ho pk hpk := (h.orders o ho pk hpk).upsertTradeGroup hop

/-- Links to positions are not links between accounts. -/
theorem Consistent.linkPositions (h : Consistent s) (links : List PositionLink) :
    Consistent (s.linkTransactionsToPositions links).2 := by
  refine h.of_txns rfl rfl fun t ht => ?_
  rw [InMemoryStore.linkTransactionsToPositions, Table.values_modify] at ht
  obtain ⟨t₀, ht₀, rfl⟩ := List.mem_map.mp ht
  obtain ⟨hgroup, horder, hnames⟩ := h.txns t₀ ht₀
  unfold InMemoryStore.relink
  split <;> exact ⟨hgroup, horder, hnames⟩

/-! ## One call -/

/-- **A safe call** keeps links within accounts. -/
theorem Consistent.step {op : LedgerOp} (h : Consistent s) (hop : LinkSafe s op) :
    Consistent (s.step op).2 := by
  cases op with
  | upsertOrders rows => exact h.upsertOrders hop
  | upsertTransactions rows => exact h.upsertTransactions hop
  | linkTransactionsToOrders account => exact h.linkTransactions account
  | linkOrdersToGroups account => exact h.linkOrders account
  | upsertTradeGroup tg => exact h.upsertTradeGroup hop
  | attachTransactionsToTradeGroup ids pk => exact h.attach hop
  | moveTransactionsToGroup txnIds pk? => exact h.move hop
  | linkTransactionsToPositions links => exact h.linkPositions links
  | upsertSecurity | upsertPositions | upsertClosedPosition | linkClosedPositionsToGroups
  | addTradeGroupEvent | uuid4 => exact h.of_txns rfl rfl h.txns
  | _ => exact h

/-! ## The calls of a pass -/

variable {account : String}

/-- The transactions that name a stored order are of its account. -/
theorem Consistent.namedWithin (h : Consistent s) {k : String} {o : OrderRow}
    (ho : s.getOrder k = some o) : NamedWithin o.account s k :=
  fun t ht hfree htk => ((h.txns t ht).names hfree k htk o ho).symm

/-- The links of each account are within it. -/
theorem Consistent.linksWithin (h : Consistent s) (account : String) : LinksWithin account s where
  txnGroup t ht hacc pk hpk tg htg := by
    obtain ⟨tg', htg', hown⟩ := (h.txns t ht).group pk hpk
    rw [Option.some.inj (htg.symm.trans htg'), hown, hacc]
  orderGroup o ho hacc pk hpk tg htg := by
    obtain ⟨tg', htg', hown⟩ := h.orders o ho pk hpk
    rw [Option.some.inj (htg.symm.trans htg'), hown, hacc]
  txnOrder t ht hacc hfree i o hi ho := by
    obtain ⟨o', ho', hown⟩ := (h.txns t ht).order hfree i hi
    rw [Option.some.inj (ho.symm.trans ho'), hown, hacc]
  txnNames t ht hacc hfree k hk := hacc ▸ (h.txns t ht).names hfree k hk

/-- A call scoped to an account is safe. -/
theorem Scoped.linkSafe {settles : String → Prop} {op : LedgerOp} (h : Consistent s)
    (hop : Scoped account settles s op) : LinkSafe s op := by
  cases op with
  | upsertOrders rows =>
    refine ⟨fun row hrow => ?_, fun row hrow row' hrow' k _ _ => ?_⟩
    · obtain ⟨hown, ⟨k, o, hk, ho, hacc⟩, hgroup⟩ := hop row hrow
      rw [← hown] at hacc hgroup
      refine ⟨fun k' hk' o' ho' => ?_, fun k' hk' t ht hfree htk => ?_, hgroup⟩
      · obtain rfl := Option.some.inj (hk.symm.trans hk')
        rw [← Option.some.inj (ho.symm.trans ho'), hacc]
      · -- a transaction that names the order is of its account
        obtain rfl := Option.some.inj (hk.symm.trans hk')
        rw [← (h.txns t ht).names hfree k htk o ho, hacc]
    · rw [(hop row hrow).own, (hop row' hrow').own]
  | upsertTransactions rows =>
    refine ⟨fun r hr => ?_, fun r hr r' hr' => by rw [(hop r hr).own, (hop r' hr').own]⟩
    obtain ⟨hown, -, pk, hpk, hgroup⟩ := hop r hr
    rw [← hown] at hgroup
    refine ⟨fun pk' hpk' => ?_, fun hfree => ?_, fun hfree => ?_, fun hfree => ?_⟩
    · exact Option.some.inj (hpk.symm.trans hpk') ▸ hgroup
    all_goals
      rw [hpk] at hfree
      cases hfree
  | upsertTradeGroup tg => exact fun tg' htg' => (hop.2 tg' htg').trans hop.1.symm
  | attachTransactionsToTradeGroup ids pk => exact ⟨account, hop.1, hop.2⟩
  | moveTransactionsToGroup => exact hop.elim
  | _ => trivial

end Steps

end TtLedger
