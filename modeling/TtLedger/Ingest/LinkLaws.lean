import TtLedger.Ingest.Attaches

/-!
# Laws of the link steps

The link steps at the start of a pass set links and nothing else: a transaction keeps its book
and its group (`txn_linked`), groups, events and securities are untouched. The open groups after
them hold the same books (`openGroupsOf_linked`), and after them there is no transaction left to
link (`linksTransaction_linked`).
-/

namespace TtLedger

variable (s : InMemoryStore) (account : String)

/-- What the link step makes of a transaction. -/
def linkRow (txn : TxnRow) : TxnRow :=
  if s.linksTransaction account txn then { txn with orderId := s.orderOf account txn } else txn

@[simp] theorem linkRow_id (r : TxnRow) :
    (linkRow s account r).ttTransactionId = r.ttTransactionId := by
  unfold linkRow
  split <;> rfl

@[simp] theorem linkRow_book (r : TxnRow) : (linkRow s account r).book = r.book := by
  unfold linkRow
  split <;> rfl

@[simp] theorem linkRow_group (r : TxnRow) :
    (linkRow s account r).tradeGroupId = r.tradeGroupId := by
  unfold linkRow
  split <;> rfl

@[simp] theorem linkRow_executedAt (r : TxnRow) :
    (linkRow s account r).executedAt = r.executedAt := by
  unfold linkRow
  split <;> rfl

@[simp] theorem linkRow_account (r : TxnRow) : (linkRow s account r).account = r.account := by
  unfold linkRow
  split <;> rfl

theorem transactions_linked :
    (linked s account).transactions =
      s.transactions.modify (linkRow s account)
        fun r => by rw [TxnRow.key, linkRow_id] := rfl

@[simp] theorem tradeGroups_linked : (linked s account).tradeGroups = s.tradeGroups := rfl

@[simp] theorem events_linked : (linked s account).events = s.events := rfl

@[simp] theorem securities_linked : (linked s account).securities = s.securities := rfl

theorem values_linked :
    (linked s account).transactions.values = s.transactions.values.map (linkRow s account) := by
  rw [transactions_linked, Table.values_modify]

theorem txn_linked (id : String) :
    (linked s account).txn id = (s.txn id).map (linkRow s account) := by
  rw [InMemoryStore.txn, transactions_linked, Table.getByKey_modify, InMemoryStore.txn]

theorem members_linked (pk : ℕ) :
    (linked s account).members pk = (s.members pk).map (linkRow s account) := by
  rw [InMemoryStore.members, values_linked, List.filter_map, InMemoryStore.members]
  simp only [Function.comp_def, linkRow_group]

theorem getGroupTransactions_linked (pk : ℕ) :
    (linked s account).getGroupTransactions pk =
      (s.getGroupTransactions pk).map (linkRow s account) := by
  rw [InMemoryStore.getGroupTransactions, members_linked, sortOn_map,
    InMemoryStore.getGroupTransactions]
  simp only [linkRow_executedAt]

/-- The open groups after the links, with the same books. -/
theorem openGroupsOf_linked (account' : String) :
    openGroupsOf (linked s account) account' =
      (openGroupsOf s account').map fun g => ⟨g.pk, g.rows.map (linkRow s account)⟩ := by
  rw [openGroupsOf, openGroupsOf, List.map_filterMap]
  refine List.filterMap_congr fun tg _ => ?_
  rw [Option.map_map]
  simp only [Function.comp_def, getGroupTransactions_linked]
  rfl

theorem sameBook_linkRow (rows : List TxnRow) : SameBook (rows.map (linkRow s account)) rows := by
  rw [SameBook, List.map_map]
  exact List.map_congr_left fun r _ => linkRow_book s account r

theorem lastActivity_eq :
    lastActivity s account =
      lastExecutedAt (s.transactions.values.filter fun txn => txn.account = account) := by
  rw [lastActivity, s.toTxnRow_accountActivity]

theorem lastActivity_linked (account' : String) :
    lastActivity (linked s account) account' = lastActivity s account' := by
  rw [lastActivity_eq, lastActivity_eq, values_linked, List.filter_map, lastExecutedAt,
    lastExecutedAt, List.filterMap_map]
  simp only [Function.comp_def, linkRow_account, linkRow_executedAt]

/-! ## Linked already -/

theorem orders_linked :
    (linked s account).orders =
      s.orders.modify (fun order => { order with
        tradeGroupId := order.tradeGroupId <|>
          (s.linkTransactionsToOrders account).2.groupForOrder account order }) fun _ => rfl := rfl

/-- The link steps change which groups orders have, not which orders there are. -/
theorem orderOf_linked (txn : TxnRow) :
    (linked s account).orderOf account txn = s.orderOf account txn := by
  unfold InMemoryStore.orderOf
  rw [orders_linked]
  cases txn.ttOrderId with
  | none => rfl
  | some k =>
    simp only [Table.getByKey_modify, Table.idOf_modify]
    cases s.orders.getByKey k <;> rfl

theorem linksTransaction_linked (r : TxnRow) :
    (linked s account).linksTransaction account (linkRow s account r) = false := by
  unfold InMemoryStore.linksTransaction
  rw [orderOf_linked]
  by_cases h : s.linksTransaction account r = true
  · -- a linked row has its order
    have hrow : linkRow s account r = { r with orderId := s.orderOf account r } := if_pos h
    have hsome : (s.orderOf account r).isSome = true := by
      simp only [InMemoryStore.linksTransaction, Bool.and_eq_true] at h
      exact h.2
    rw [hrow]
    simp only [Bool.and_eq_false_iff]
    left; right
    rw [← Bool.not_eq_true, Option.isNone_iff_eq_none]
    intro hnone
    rw [hnone] at hsome
    cases hsome
  · have hrow : linkRow s account r = r := if_neg h
    rw [hrow]
    simpa [InMemoryStore.linksTransaction] using h

/-! ## Orders through a pass -/

/-- The two stores have the same orders under the same identifiers and accounts. -/
def SameOrders (s s' : InMemoryStore) : Prop :=
  ∀ k, s'.orders.idOf k = s.orders.idOf k ∧
    (s'.orders.getByKey k).map OrderRow.account = (s.orders.getByKey k).map OrderRow.account

namespace SameOrders

variable {s s' s'' : InMemoryStore}

theorem of_eq (h : s'.orders = s.orders) : SameOrders s s' := fun k => by rw [h]; exact ⟨rfl, rfl⟩

theorem trans (h : SameOrders s s') (h' : SameOrders s' s'') : SameOrders s s'' := by
  intro k
  exact ⟨(h' k).1.trans (h k).1, (h' k).2.trans (h k).2⟩

/-- The order a transaction names is the same one. -/
theorem orderOf_eq (h : SameOrders s s') (account : String) (txn : TxnRow) :
    s'.orderOf account txn = s.orderOf account txn := by
  unfold InMemoryStore.orderOf
  cases txn.ttOrderId with
  | none => rfl
  | some k =>
    obtain ⟨hid, hacc⟩ := h k
    simp only [hid]
    cases hg : s.orders.getByKey k with
    | none =>
      rw [hg, Option.map_none, Option.map_eq_none_iff] at hacc
      simp [hacc]
    | some order =>
      rw [hg, Option.map_some] at hacc
      obtain ⟨order', hg', hacc'⟩ := Option.map_eq_some_iff.mp hacc
      simp [hg', hacc']

/-- Writing a stored order back under a group changes neither. -/
theorem upsertOrder {order row : OrderRow} {k : String}
    (hk : s.getOrder k = some order) (hrow : row.ttOrderId = some k)
    (hacc : row.account = order.account) : SameOrders s (s.upsertOrder row).2 := by
  have hkey : order.key = some k := (Table.getByKey_eq_some.mp hk).2
  -- whatever is preserved, the row keeps its key and its account
  obtain ⟨row', hrow', hacc', hrun⟩ : ∃ row' : OrderRow, row'.key = some k ∧
      row'.account = order.account ∧ (s.upsertOrder row).2.orders = (s.orders.upsert row').2 := by
    unfold InMemoryStore.upsertOrder
    simp only []
    split
    · rename_i existing _
      exact ⟨InMemoryStore.preserveOrder existing row, hrow, hacc, rfl⟩
    · exact ⟨row, hrow, hacc, rfl⟩
  obtain ⟨⟨i, hi⟩, -⟩ := Table.getByKey_eq_some.mp hk
  have hold : (row'.key).bind s.orders.idOf = some i := by
    rw [hrow', Option.bind_some]
    exact Table.idOf_eq_some.mpr ⟨order, hi, hkey⟩
  rw [Table.upsert_of_old _ _ hold] at hrun
  intro k'
  rw [hrun]
  refine ⟨Table.idOf_modify _ _ _ _, ?_⟩
  rw [Table.overwrite, Table.getByKey_modify, Option.map_map]
  cases hg : s.orders.getByKey k' with
  | none => rfl
  | some o =>
    simp only [Option.map_some, Function.comp_apply]
    split
    · rename_i heq
      have hko : o.key = some k' := (Table.getByKey_eq_some.mp hg).2
      obtain rfl : k' = k := Option.some.inj (hko.symm.trans (heq.trans hrow'))
      rw [InMemoryStore.getOrder, hg] at hk
      obtain rfl := Option.some.inj hk
      rw [hacc']
    · rfl

end SameOrders

/-- Writing stored orders back under a group changes neither their keys nor their accounts. -/
theorem sameOrders_upsertOrders (rows : List OrderRow) (s : InMemoryStore)
    (h : ∀ row ∈ rows, ∃ k order, s.getOrder k = some order ∧ row.ttOrderId = some k ∧
      row.account = order.account) : SameOrders s (s.upsertOrders rows).2 := by
  refine InMemoryStore.upsertOrders_induction s rows (.of_eq rfl) fun row hrow s' hsame => ?_
  obtain ⟨k, order, hk, hkey, hacc⟩ := h row hrow
  -- the order is still there, of the same account
  have hthere := (hsame k).2
  rw [InMemoryStore.getOrder] at hk
  rw [hk, Option.map_some] at hthere
  obtain ⟨order', hget, haccount⟩ := Option.map_eq_some_iff.mp hthere
  exact hsame.trans (.upsertOrder hget hkey (hacc.trans haccount.symm))

theorem sameOrders_createState (s : InMemoryStore) (account : String) (cluster : List TxnRow) :
    SameOrders s (createState s account cluster) := by
  have hstamp := sameOrders_upsertOrders
    (ordersToUpdate (groupAttached s account cluster) (newPk s account cluster) cluster)
    (groupAttached s account cluster) (by
      intro row hrow
      obtain ⟨k, -, hk⟩ := List.mem_filterMap.mp hrow
      obtain ⟨order, horder, rfl⟩ := Option.map_eq_some_iff.mp hk
      exact ⟨k, order, horder, (Table.getByKey_eq_some.mp horder).2, rfl⟩)
  have hattached : SameOrders s (groupAttached s account cluster) := .of_eq rfl
  exact (hattached.trans hstamp).trans (.of_eq rfl)

theorem sameOrders_intentStep (w : (List OpenGroup × List ActivityRow) × InMemoryStore)
    (e : ℕ × List ActivityRow) : SameOrders w.2 (intentStep w e).2 := by
  unfold intentStep
  simp only []
  split
  · exact .of_eq rfl
  · exact .of_eq (by simp)

theorem sameOrders_clusterStep (account : String) (w : Pass × InMemoryStore)
    (cluster : List ActivityRow) : SameOrders w.2 (clusterStep account false w cluster).2 := by
  have hintent : SameOrders w.2 (intentRows w.2 w.1.openGroups cluster false).2 := by
    have hall : ∀ (entries : List (ℕ × List ActivityRow))
        (v : (List OpenGroup × List ActivityRow) × InMemoryStore),
        SameOrders v.2 (entries.foldl intentStep v).2 := by
      intro entries
      induction entries with
      | nil => exact fun v => .of_eq rfl
      | cons e entries ih => exact fun v => (sameOrders_intentStep v e).trans (ih _)
    exact hall _ _
  have hrest : ∀ (s : InMemoryStore) (pass : Pass) (rest : List TxnRow),
      SameOrders s (restStep s account false pass rest).2 := by
    intro s pass rest
    unfold restStep
    split
    · exact .of_eq rfl
    · exact sameOrders_createState s account rest
  have hbuckets : ∀ (newPk : Option ℕ) (rest : List TxnRow)
      (buckets : List (OpenGroup × List ActivityRow)) (v : Pass × InMemoryStore),
      SameOrders v.2 (buckets.foldl (bucketStep newPk rest) v).2 := by
    intro newPk rest buckets
    induction buckets with
    | nil => exact fun v => .of_eq rfl
    | cons b buckets ih =>
      intro v
      have hone : SameOrders v.2 (bucketStep newPk rest v b).2 :=
        .of_eq (orders_exitState _ _ _ _ _)
      exact hone.trans (ih _)
  unfold clusterStep
  simp only [Bool.false_eq_true, if_false]
  split
  · exact hintent
  · exact (hintent.trans (hrest _ _ _)).trans (hbuckets _ _ _ _)

theorem sameOrders_routeLoop (s : InMemoryStore) (account : String) (args : ReconcileArgs)
    (hdry : args.dryRun = false) : SameOrders s (routeLoop s account args).2 := by
  have hall : ∀ (clusters : List (List ActivityRow)) (w : Pass × InMemoryStore),
      SameOrders w.2 (clusters.foldl (clusterStep account false) w).2 := by
    intro clusters
    induction clusters with
    | nil => exact fun w => .of_eq rfl
    | cons cluster clusters ih =>
      exact fun w => (sameOrders_clusterStep account w cluster).trans (ih _)
  unfold routeLoop
  rw [hdry]
  exact hall _ _

end TtLedger
