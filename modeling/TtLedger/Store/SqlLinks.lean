import TtLedger.Ingest.RebuildAccount
import TtLedger.Store.SqlLaws

/-!
# The link steps of the SQL store

Each statement that links rows, or moves them between groups, is a rewriting of the in-memory
store's table (`Agrees.linkOrdersToGroups` to `Agrees.moveTransactionsToGroup`). The subquery over
the account's transactions finds the group on which they agree (`find?_agreedGroups`), and updates
of one row each, in turn, leave what the link step writes at once. A closed position takes the
group of its closing order when the order is the account's; the in-memory store does not look at
the order's account, so the stores stay in agreement over that step exactly when no closing order
is another account's (`agrees_linkClosedPositionsToGroups_iff`).
-/

namespace TtLedger

section Links

variable {s : InMemoryStore} {db : SqlDatabase}

/-! ## Linking -/

theorem minHavingOne_eq_some {column : List ℕ} {pk : ℕ} :
    SqlDatabase.minHavingOne column = some pk ↔ column.eraseDups = [pk] := by
  have hmin : ∀ {a : ℕ}, column.eraseDups = [a] → column.min? = some a := by
    intro a ha
    have hmem : ∀ b, b ∈ column ↔ b = a := by
      intro b
      rw [← List.mem_eraseDups, ha, List.mem_singleton]
    exact List.min?_eq_some_iff.mpr ⟨(hmem a).mpr rfl, fun b hb => ((hmem b).mp hb).ge⟩
  unfold SqlDatabase.minHavingOne
  split
  · rename_i hlength
    obtain ⟨a, ha⟩ := List.length_eq_one_iff.mp hlength
    rw [hmin ha, ha, Option.some.injEq, List.singleton_inj]
  · rename_i hlength
    constructor
    · rintro ⟨⟩
    · intro ha
      exact absurd (by rw [ha]; rfl) hlength

/-- The group the subquery gives an order is the one group its transactions agree on. -/
theorem find?_agreedGroups (h : Agrees s db) {account k : String} {pk : ℕ} :
    ((db.agreedGroups account).find? fun e => e.1 = k).map Prod.snd = some pk ↔
      s.groupsOfOrder account k = [pk] := by
  -- an order that no transaction of the account names has no row in the subquery
  have hbind : ∀ (d : Dict String (List (ℕ × TxnRow))) (g : List (ℕ × TxnRow) → Option ℕ),
      g [] = none →
      ((d.entries.find? fun e => e.1 = k).bind fun e => g e.2) = g ((d.get? k).getD []) := by
    intro d g hg
    rw [Dict.get?, show (fun e : String × List (ℕ × TxnRow) => decide (e.1 = k)) =
      fun e => e.1 == k from rfl]
    cases d.entries.find? fun e => e.1 == k with
    | none => exact hg.symm
    | some e => rfl
  have hgroups : (((db.transactions.filter fun p =>
      p.2.account = account && p.2.tradeGroupId.isSome).filter fun p =>
        p.2.ttOrderId = some k).filterMap fun p => p.2.tradeGroupId) =
      (s.transactions.values.filter fun txn =>
        txn.account = account ∧ txn.ttOrderId = some k).filterMap TxnRow.tradeGroupId := by
    rw [h.transactions.rows, Table.values, ← List.filterMap_eq_filter, ← List.filterMap_eq_filter,
      ← List.filterMap_eq_filter]
    simp only [List.filterMap_map, List.filterMap_filterMap]
    refine List.filterMap_congr fun p _ => ?_
    cases hpk : p.2.tradeGroupId <;> by_cases ha : p.2.account = account <;>
      by_cases hk : p.2.ttOrderId = some k <;>
        simp [Option.guard, TxnRow.stored, TxnRow.heldIn, hpk, ha, hk]
  rw [SqlDatabase.agreedGroups, Rows.find?_subquery (Dict.keys_nodup _),
    hbind _ (fun l => SqlDatabase.minHavingOne (l.filterMap fun p => p.2.tradeGroupId)) rfl,
    getD_get?_groupBy, hgroups, minHavingOne_eq_some, InMemoryStore.groupsOfOrder]

/-- A link as an entry under its transaction. -/
def linkEntry (l : PositionLink) : String × Option ℕ × Option ℕ :=
  (l.ttTransactionId, l.positionId, l.closedPositionId)

theorem get?_linksById (links : List PositionLink) (k : String) :
    (InMemoryStore.linksById links).get? k = Dict.lastUnder (links.map linkEntry) k := by
  have hset : InMemoryStore.linksById links = Dict.empty.setAll (links.map linkEntry) := by
    rw [Dict.setAll, List.foldl_map]
    rfl
  rw [hset, Dict.get?_setAll, Dict.get?_empty, Option.or_none]

theorem groupForOrder_eq_some_iff {account : String} {o : OrderRow} {pk : ℕ}
    (ho : o.ttOrderId ≠ some "") :
    s.groupForOrder account o = some pk ↔ (o.account = account ∧ o.tradeGroupId = none) ∧
      ∃ k, o.ttOrderId = some k ∧ s.groupsOfOrder account k = [pk] := by
  rw [InMemoryStore.groupForOrder]
  cases hk : o.ttOrderId with
  | none => simp [truthy]
  | some k =>
    have htruthy : truthy (some k) = true := by
      rw [hk] at ho
      simpa [truthy] using ho
    split
    · rename_i hown
      rw [Option.map_some]
      split
      · rename_i pk' hpk
        rw [Option.some.injEq] at hpk
        simp [hown, hpk]
      · rename_i hpk
        constructor
        · rintro ⟨⟩
        · rintro ⟨-, k', hk', hpk'⟩
          obtain rfl := Option.some.inj hk'
          exact absurd (by rw [hpk']) (hpk pk)
    · rename_i hown
      simp only [htruthy, and_true] at hown
      simp [hown]

namespace Agrees

theorem linkOrdersToGroups (h : Agrees s db) (account : String) :
    (db.linkOrdersToGroups account).1 = (s.linkOrdersToGroups account).1 ∧
      Agrees (s.linkOrdersToGroups account).2 (db.linkOrdersToGroups account).2 := by
  let partner (p : ℕ × OrderRow) : Option ℕ :=
    if p.2.account = account ∧ p.2.tradeGroupId = none then
      ((db.agreedGroups account).find? fun e => p.2.ttOrderId = some e.1).map Prod.snd else none
  have hfound : ∀ p ∈ s.orders.rows, partner (p.1, p.2.stored) = s.groupForOrder account p.2 := by
    intro p hp
    have hnamed := h.named p.2 (List.mem_map.mpr ⟨p, hp, rfl⟩)
    refine Option.ext fun pk => ?_
    rw [groupForOrder_eq_some_iff hnamed]
    show (if p.2.account = account ∧ p.2.tradeGroupId = none then
      ((db.agreedGroups account).find? fun e => p.2.ttOrderId = some e.1).map Prod.snd
      else none) = some pk ↔ _
    split
    · rename_i hown
      cases hk : p.2.ttOrderId with
      | none =>
        rw [List.find?_eq_none.mpr (by simp)]
        simp
      | some k =>
        simp only [Option.some.injEq, hown, and_self, true_and, exists_eq_left']
        rw [← find?_agreedGroups h]
        simp only [eq_comm]
    · rename_i hown
      simp [hown]
  let link (o : OrderRow) : OrderRow :=
    { o with tradeGroupId := o.tradeGroupId <|> s.groupForOrder account o }
  let setGroup (pk : ℕ) (o : OrderRow) : OrderRow := { o with tradeGroupId := some pk }
  have hset : ∀ o, (link o).stored =
      ((s.groupForOrder account o).map fun pk => setGroup pk o.stored).getD o.stored := by
    intro o
    simp only [link]
    cases hpk : s.groupForOrder account o with
    | none =>
      have hkeep : (o.tradeGroupId <|> none) = o.tradeGroupId := by simp
      rw [hkeep]
      rfl
    | some pk =>
      have hnone : o.tradeGroupId = none := by
        rw [InMemoryStore.groupForOrder] at hpk
        split at hpk
        · rename_i hown
          exact hown.2.1
        · cases hpk
      rw [hnone]
      rfl
  obtain ⟨hcount, hrep⟩ := h.orders.updateFrom (f := link) (fun _ => rfl) hfound hset
  refine ⟨hcount, { h with orders := hrep, named := fun o ho => ?_ }⟩
  obtain ⟨p, hp, rfl⟩ := List.mem_map.mp ho
  obtain ⟨q, hq, rfl⟩ := List.mem_map.mp hp
  exact h.named q.2 (List.mem_map.mpr ⟨q, hq, rfl⟩)

/-- The subquery of the statement gives a closed position the group of its closing order when the
order is the account's. -/
theorem linkClosedPositionsToGroups (h : Agrees s db) (account : String) :
    (db.linkClosedPositionsToGroups account).1 =
        (SqlLedgerStore.linkClosedPositionsToGroups s account).1 ∧
      Agrees (SqlLedgerStore.linkClosedPositionsToGroups s account).2
        (db.linkClosedPositionsToGroups account).2 := by
  let sub := db.orders.filterMap fun p =>
    (if p.2.account = account then p.2.tradeGroupId else none).map fun pk => (p.1, pk)
  have hsub : (db.orders.filterMap fun p =>
      if p.2.account = account then p.2.tradeGroupId.map fun pk => (p.1, pk) else none) = sub :=
    List.filterMap_congr fun p _ => by split <;> simp_all
  have hlook : ∀ i, (sub.find? fun e => e.1 = i).map Prod.snd =
      (s.orders.get i).bind fun o => if o.account = account then o.tradeGroupId else none := by
    intro i
    have hids : (db.orders.map Prod.fst).Nodup := by
      rw [h.orders.rows, List.map_map]
      exact s.orders.ids_nodup
    rw [Rows.find?_subquery hids, h.orders.rows, List.find?_map, Table.get]
    simp only [Function.comp_def]
    rw [show (fun p : ℕ × OrderRow => decide (p.1 = i)) = fun p => p.1 == i from rfl]
    cases s.orders.rows.find? fun p => p.1 == i <;> rfl
  let partner (p : ℕ × ClosedPositionRow) : Option ℕ :=
    if p.2.account = account ∧ p.2.tradeGroupId = none then
      (sub.find? fun e => p.2.closingOrderId = some e.1).map Prod.snd else none
  have hfound : ∀ p ∈ s.closedPositions.rows, partner (p.1, p.2.stored) =
      SqlLedgerStore.groupForClosedPosition s account p.2 := by
    intro p _
    show (if p.2.account = account ∧ p.2.tradeGroupId = none then
      (sub.find? fun e => p.2.closingOrderId = some e.1).map Prod.snd else none) = _
    rw [SqlLedgerStore.groupForClosedPosition]
    split
    · cases hi : p.2.closingOrderId with
      | none =>
        rw [List.find?_eq_none.mpr (by simp)]
        rfl
      | some i =>
        rw [Option.bind_some, ← hlook]
        simp only [Option.some.injEq, eq_comm]
    · rfl
  let link (cp : ClosedPositionRow) : ClosedPositionRow :=
    { cp with
      tradeGroupId := cp.tradeGroupId <|> SqlLedgerStore.groupForClosedPosition s account cp }
  let setGroup (pk : ℕ) (cp : ClosedPositionRow) : ClosedPositionRow :=
    { cp with tradeGroupId := some pk }
  have hset : ∀ cp, (link cp).stored = ((SqlLedgerStore.groupForClosedPosition s account cp).map
      fun pk => setGroup pk cp.stored).getD cp.stored := by
    intro cp
    simp only [link]
    cases hpk : SqlLedgerStore.groupForClosedPosition s account cp with
    | none =>
      have hkeep : (cp.tradeGroupId <|> none) = cp.tradeGroupId := by simp
      rw [hkeep]
      rfl
    | some pk =>
      have hnone : cp.tradeGroupId = none := by
        rw [SqlLedgerStore.groupForClosedPosition] at hpk
        split at hpk
        · rename_i hown
          exact hown.2
        · cases hpk
      rw [hnone]
      rfl
  have hrep := h.closedPositions.updateFrom (f := link) (fun _ => rfl) hfound hset
  rw [SqlDatabase.linkClosedPositionsToGroups, hsub]
  exact ⟨hrep.1, { h with closedPositions := hrep.2 }⟩

/-- The order a transaction names, when it is the account's: look-up by the store's keys. -/
theorem orderOf_eq_some {account k : String} {txn : TxnRow} (htxn : txn.ttOrderId = some k)
    {i : ℕ} : s.orderOf account txn = some i ↔
      ∃ o, (i, o) ∈ s.orders.rows ∧ o.ttOrderId = some k ∧ o.account = account := by
  rw [InMemoryStore.orderOf, htxn]
  simp only []
  cases ho : s.orders.getByKey k with
  | none =>
    simp only [reduceCtorEq, false_iff]
    rintro ⟨o, ho', hk, -⟩
    exact Table.getByKey_eq_none.mp ho (i, o) ho' hk
  | some o =>
    obtain ⟨⟨j, hj⟩, hkey⟩ := Table.getByKey_eq_some.mp ho
    simp only []
    split
    · rename_i hown
      rw [Table.idOf_eq_some]
      constructor
      · rintro ⟨o', ho', hk'⟩
        have he := Table.eq_of_mem_of_key hj ho' hkey hk'
        obtain rfl : o = o' := congrArg Prod.snd he
        exact ⟨o, ho', hk', hown⟩
      · rintro ⟨o', ho', hk', -⟩
        exact ⟨o', ho', hk'⟩
    · rename_i hown
      simp only [reduceCtorEq, false_iff]
      rintro ⟨o', ho', hk', hown'⟩
      have he := Table.eq_of_mem_of_key hj ho' hkey hk'
      obtain rfl : o = o' := congrArg Prod.snd he
      exact hown hown'

theorem get?_idByTtOrderId (h : Agrees s db) {account k : String} {ttIds : List String}
    (hk : k ∈ ttIds) {txn : TxnRow} (htxn : txn.ttOrderId = some k) :
    (db.idByTtOrderId account ttIds).get? k = s.orderOf account txn := by
  -- the natural keys of the orders selected are distinct
  have hnodup : ((db.orders.filterMap fun p =>
      if p.2.account = account ∧ p.2.ttOrderId.any ttIds.contains then
        p.2.ttOrderId.map fun ttOrderId => (ttOrderId, p.1) else none).map Prod.fst).Nodup := by
    rw [h.orders.rows, List.filterMap_map, List.map_filterMap]
    refine s.orders.keys_nodup.sublist (Rows.sublist_filterMap (fun p k' hk' => ?_) _)
    simp only [Function.comp_apply, OrderRow.stored, OrderRow.heldIn] at hk'
    split at hk'
    · simpa using hk'
    · cases hk'
  refine Option.ext fun i => ?_
  rw [SqlDatabase.idByTtOrderId, Dict.get?_setAll, Dict.get?_empty, Option.or_none,
    Rows.lastUnder_eq_some hnodup, orderOf_eq_some htxn, h.orders.rows, List.filterMap_map,
    List.mem_filterMap]
  constructor
  · rintro ⟨p, hp, hpk⟩
    simp only [Function.comp_def, OrderRow.stored, OrderRow.heldIn] at hpk
    split at hpk
    · rename_i hown
      obtain ⟨k', hk', he⟩ := Option.map_eq_some_iff.mp hpk
      obtain ⟨rfl, rfl⟩ := Prod.mk.inj he
      exact ⟨p.2, hp, hk', hown.1⟩
    · cases hpk
  · rintro ⟨o, ho, hko, hown⟩
    exact ⟨(i, o), ho, by simp [OrderRow.stored, OrderRow.heldIn, hown, hko, hk]⟩

/-- The rows one update each writes are the transactions that take an order. -/
theorem linkTransactionsToOrders (h : Agrees s db) (account : String) :
    (db.linkTransactionsToOrders account).1 = (s.linkTransactionsToOrders account).1 ∧
      Agrees (s.linkTransactionsToOrders account).2 (db.linkTransactionsToOrders account).2 := by
  let target (txn : TxnRow) : Option ℕ :=
    if s.linksTransaction account txn then s.orderOf account txn else none
  let pending := db.pendingTransactions account
  let ids := db.idByTtOrderId account (pending.map Prod.snd)
  let updates := pending.filterMap fun p => (ids.get? p.2).map fun orderId => (p.1, orderId)
  have hpending : ∀ p ∈ s.transactions.rows, ∀ k, p.2.ttOrderId = some k →
      p.2.account = account → p.2.orderId = none → (p.1, k) ∈ pending := by
    intro p hp k hk hown hnone
    refine List.mem_filterMap.mpr ⟨(p.1, p.2.stored), ?_, ?_⟩
    · rw [h.transactions.rows]
      exact List.mem_map.mpr ⟨p, hp, rfl⟩
    · simp [TxnRow.stored, TxnRow.heldIn, hown, hnone, hk]
  have hupdates : updates = s.transactions.rows.filterMap fun p =>
      (target p.2).map fun orderId => (p.1, orderId) := by
    show (db.transactions.filterMap _).filterMap _ = _
    rw [h.transactions.rows, List.filterMap_map, List.filterMap_filterMap]
    refine List.filterMap_congr fun p hp => ?_
    simp only [Function.comp_def, TxnRow.stored, TxnRow.heldIn, target,
      InMemoryStore.linksTransaction]
    by_cases hown : p.2.account = account ∧ p.2.orderId = none
    · rw [if_pos hown]
      cases hk : p.2.ttOrderId with
      | none => simp [InMemoryStore.orderOf, hk]
      | some k =>
        have hmem : k ∈ pending.map Prod.snd :=
          List.mem_map.mpr ⟨(p.1, k), hpending p hp k hk hown.1 hown.2, rfl⟩
        simp only [Option.map_some, Option.bind_some]
        rw [show ids.get? k = _ from get?_idByTtOrderId h hmem hk]
        simp only [hown.1, hown.2, decide_true, Option.isNone_none, Bool.true_and]
        split
        · rfl
        · rename_i hno
          rw [Option.not_isSome_iff_eq_none.mp hno]
    · rw [if_neg hown]
      have hskip : (decide (p.2.account = account) && p.2.orderId.isNone) = false := by
        simpa [Option.isSome_iff_ne_none] using hown
      simp [hskip]
  have hkeys : (updates.map Prod.fst).Nodup := by
    rw [hupdates, List.map_filterMap]
    have hids : (s.transactions.rows.filterMap fun p => some p.1).Nodup := by
      rw [show (fun p : ℕ × TxnRow => some p.1) = some ∘ Prod.fst from rfl,
        List.filterMap_eq_map]
      exact s.transactions.ids_nodup
    refine hids.sublist (Rows.sublist_filterMap (fun p k hk => ?_) _)
    obtain ⟨e, he, rfl⟩ := Option.map_eq_some_iff.mp hk
    obtain ⟨i, -, rfl⟩ := Option.map_eq_some_iff.mp he
    rfl
  have hlast : ∀ p ∈ s.transactions.rows, Dict.lastUnder updates p.1 = target p.2 := by
    intro p hp
    refine Option.ext fun i => ?_
    rw [Rows.lastUnder_eq_some hkeys, hupdates, List.mem_filterMap]
    constructor
    · rintro ⟨q, hq, hqi⟩
      obtain ⟨j, hj, he⟩ := Option.map_eq_some_iff.mp hqi
      obtain ⟨hid, rfl⟩ := Prod.mk.inj he
      rwa [← Table.eq_of_mem_of_id hq hp hid]
    · intro hi
      exact ⟨p, hp, by rw [hi]; rfl⟩
  let setOrder (i : ℕ) (txn : TxnRow) : TxnRow := { txn with orderId := some i }
  let link (txn : TxnRow) : TxnRow := if s.linksTransaction account txn then
    { txn with orderId := s.orderOf account txn } else txn
  have hset : ∀ txn, (link txn).stored =
      ((target txn).map fun i => setOrder i txn.stored).getD txn.stored := by
    intro txn
    simp only [link, target]
    split
    · rename_i hlinks
      rw [InMemoryStore.linksTransaction, Bool.and_eq_true] at hlinks
      obtain ⟨i, hi⟩ := Option.isSome_iff_exists.mp hlinks.2
      rw [hi]
      rfl
    · rfl
  have hwrite : (db.linkTransactionsToOrders account).2.transactions = db.transactions.map fun p =>
      (p.1, ((Dict.lastUnder updates p.1).map fun i => setOrder i p.2).getD p.2) :=
    Rows.foldl_update Prod.fst setOrder (fun _ _ => rfl) (fun _ _ _ => rfl) updates _
  have hrep := h.transactions.map (f := link) (fun _ => by simp only [link]; split <;> rfl)
    (g := fun p => (p.1, ((Dict.lastUnder updates p.1).map fun i => setOrder i p.2).getD p.2))
    fun p hp => by rw [hlast p hp, hset]
  refine ⟨?_, { h with transactions := hwrite ▸ hrep }⟩
  show updates.length = s.transactions.values.countP (s.linksTransaction account)
  rw [hupdates, List.length_filterMap_eq_countP, Table.values, List.countP_map]
  refine List.countP_congr fun p _ => ?_
  simp only [Option.isSome_map, target, Function.comp_apply]
  split
  · rename_i hlinks
    have horder := hlinks
    rw [InMemoryStore.linksTransaction, Bool.and_eq_true] at horder
    exact ⟨fun _ => hlinks, fun _ => horder.2⟩
  · rename_i hlinks
    simp [hlinks]

/-- One update after the other leaves a transaction with the last of its links. -/
theorem linkTransactionsToPositions (h : Agrees s db) (links : List PositionLink) :
    Agrees (s.linkTransactionsToPositions links).2 (db.linkTransactionsToPositions links).2 := by
  let updates := links.map linkEntry
  let setLinks (ends : Option ℕ × Option ℕ) (txn : TxnRow) : TxnRow :=
    { txn with positionId := ends.1, closedPositionId := ends.2 }
  have hwrite : (db.linkTransactionsToPositions links).2.transactions = db.transactions.map fun p =>
      (p.1, ((Dict.lastUnder updates p.2.ttTransactionId).map fun ends =>
        setLinks ends p.2).getD p.2) := by
    rw [← Rows.foldl_update (fun p : ℕ × TxnRow => p.2.ttTransactionId) setLinks
      (fun _ _ => rfl) (fun _ _ _ => rfl) updates db.transactions, List.foldl_map]
    rfl
  have hset : ∀ txn, (InMemoryStore.relink links txn).stored =
      ((Dict.lastUnder updates txn.ttTransactionId).map fun ends =>
        setLinks ends txn.stored).getD txn.stored := by
    intro txn
    rw [InMemoryStore.relink, show Dict.lastUnder updates txn.ttTransactionId = _ from
      (get?_linksById links _).symm]
    cases (InMemoryStore.linksById links).get? txn.ttTransactionId <;> rfl
  have hrep := h.transactions.map (f := InMemoryStore.relink links)
    (fun txn => congrArg some (InMemoryStore.ttTransactionId_relink links txn))
    (g := fun p => (p.1, ((Dict.lastUnder updates p.2.ttTransactionId).map fun ends =>
      setLinks ends p.2).getD p.2)) fun p _ => by rw [hset]; rfl
  exact { h with transactions := hwrite ▸ hrep }

theorem attachTransactionsToTradeGroup (h : Agrees s db) (ids : List String) (pk : ℕ) :
    (db.attachTransactionsToTradeGroup ids pk).1 = (s.attachTransactionsToTradeGroup ids pk).1 ∧
      Agrees (s.attachTransactionsToTradeGroup ids pk).2
        (db.attachTransactionsToTradeGroup ids pk).2 := by
  let setGroup (txn : TxnRow) : TxnRow := { txn with tradeGroupId := some pk }
  let attach (txn : TxnRow) : TxnRow := if txn.ttTransactionId ∈ ids then setGroup txn else txn
  let named (p : ℕ × TxnRow) : Bool := ids.contains p.2.ttTransactionId
  have hset : ∀ txn, (attach txn).stored =
      if ids.contains txn.ttTransactionId then setGroup txn.stored else txn.stored := by
    intro txn
    simp only [attach, List.contains_iff_mem]
    split <;> rfl
  have hwrite : db.attachTransactionsToTradeGroup ids pk =
      ((db.transactions.update named setGroup).1,
        { db with transactions := (db.transactions.update named setGroup).2 }) := by
    rw [SqlDatabase.attachTransactionsToTradeGroup]
    cases ids with
    | nil =>
      rw [show db.transactions.update named setGroup = (0, db.transactions) from
        Rows.update_of_forall (fun _ _ => rfl) _]
      rfl
    | cons id ids => rfl
  have hrep := h.transactions.update (f := attach) (fun _ => by simp only [attach]; split <;> rfl)
    named setGroup (fun txn => ids.contains txn.ttTransactionId) (fun _ _ => rfl) hset
  rw [hwrite]
  exact ⟨hrep.1, { h with transactions := hrep.2 }⟩

/-- A transaction's id and its natural key name the same row. -/
theorem moveTransactionsToGroup (h : Agrees s db) (ids : List ℕ) (pk : Option ℕ) :
    (db.moveTransactionsToGroup ids pk).1 = (s.moveTransactionsToGroup ids pk).1 ∧
      Agrees (s.moveTransactionsToGroup ids pk).2 (db.moveTransactionsToGroup ids pk).2 := by
  let keys := (s.transactions.rows.filter fun p => ids.contains p.1).map fun p =>
    p.2.ttTransactionId
  let setGroup (txn : TxnRow) : TxnRow := { txn with tradeGroupId := pk }
  let move (txn : TxnRow) : TxnRow := if txn.ttTransactionId ∈ keys then setGroup txn else txn
  let named (p : ℕ × TxnRow) : Bool := ids.contains p.1
  have hset : ∀ txn, (move txn).stored =
      if keys.contains txn.ttTransactionId then setGroup txn.stored else txn.stored := by
    intro txn
    simp only [move, List.contains_iff_mem]
    split <;> rfl
  have hhit : ∀ p ∈ s.transactions.rows,
      named (p.1, p.2.stored) = keys.contains p.2.ttTransactionId := by
    intro p hp
    show ids.contains p.1 = keys.contains p.2.ttTransactionId
    rw [Bool.eq_iff_iff]
    simp only [List.contains_iff_mem]
    constructor
    · intro hin
      exact List.mem_map.mpr ⟨p, List.mem_filter.mpr ⟨hp, by simpa using hin⟩, rfl⟩
    · intro hin
      obtain ⟨q, hq, hk⟩ := List.mem_map.mp hin
      obtain ⟨hq, hin⟩ := List.mem_filter.mp hq
      have hkey : TxnRow.key q.2 = some p.2.ttTransactionId := congrArg some hk
      rw [← Table.eq_of_mem_of_key hq hp hkey rfl]
      simpa using hin
  have hwrite : db.moveTransactionsToGroup ids pk = ((db.transactions.update named setGroup).1,
      { db with transactions := (db.transactions.update named setGroup).2 }) := by
    rw [SqlDatabase.moveTransactionsToGroup]
    cases ids with
    | nil =>
      rw [show db.transactions.update named setGroup = (0, db.transactions) from
        Rows.update_of_forall (fun _ _ => rfl) _]
      rfl
    | cons i ids => rfl
  have hrep := h.transactions.update (f := move) (fun _ => by simp only [move]; split <;> rfl)
    named setGroup (fun txn => keys.contains txn.ttTransactionId) hhit hset
  rw [hwrite]
  have hcount : (s.moveTransactionsToGroup ids pk).1 =
      s.transactions.values.countP fun txn => keys.contains txn.ttTransactionId := by
    show ((s.transactions.rows.filter fun p => ids.contains p.1).map _).length = _
    rw [List.length_map, ← List.countP_eq_length_filter, Table.values, List.countP_map]
    exact List.countP_congr fun p hp => by rw [Function.comp_apply, ← hhit p hp]
  exact ⟨hrep.1.trans hcount.symm, { h with transactions := hrep.2 }⟩

end Agrees

end Links

end TtLedger
