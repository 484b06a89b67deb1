import TtLedger.Ingest.Membership
import TtLedger.Store.SqlReads

/-!
# Two stores, one ledger

The in-memory store and the SQL store on SQLite answer the calls of the ledger alike. `Alike s op`
leaves out the calls on which the two have a different opinion of what to do: an order under the
empty id, a closed position without a closing time, a link for a transaction that is not stored (the
stores count such links differently), and a closed position whose closing order is in a group and is
another account's. A call is portable when, besides, SQLite's driver takes what it binds
(`Portable`).

Over every sequence of portable calls, at any instants, the SQL store keeps the rows of the
in-memory store, as its columns store them, and returns what the in-memory store returns
(`runs_agree`). The closed-position condition is exact
(`agrees_linkClosedPositionsToGroups_iff`).
-/

namespace TtLedger

/-! ## Closing orders within the account -/

/-- The account's closed positions without a group were closed by orders of the account, as far as
their orders are stored in a group. -/
def ClosersWithin (s : InMemoryStore) (account : String) : Prop :=
  ∀ cp ∈ s.closedPositions.values, cp.account = account → cp.tradeGroupId = none →
    ∀ i, cp.closingOrderId = some i → ∀ order, s.orders.get i = some order →
      order.tradeGroupId ≠ none → order.account = account

section Closers

variable {s : InMemoryStore} {db : SqlDatabase} {account : String}

/-- The two stores find the same group for a closed position, or the in-memory store finds one in
an order of another account. -/
theorem groupForClosedPosition_eq_iff (cp : ClosedPositionRow) :
    SqlLedgerStore.groupForClosedPosition s account cp = s.groupForClosedPosition account cp ↔
      (cp.account = account → cp.tradeGroupId = none → ∀ i, cp.closingOrderId = some i →
        ∀ order, s.orders.get i = some order → order.tradeGroupId ≠ none →
          order.account = account) := by
  rw [SqlLedgerStore.groupForClosedPosition, InMemoryStore.groupForClosedPosition]
  by_cases hown : cp.account = account ∧ cp.tradeGroupId = none
  · rw [if_pos hown, if_pos hown]
    cases hi : cp.closingOrderId with
    | none => simp
    | some i =>
      cases ho : s.orders.get i with
      | none => simp [ho]
      | some order =>
        by_cases ha : order.account = account
        · simp [ho, ha]
        · simp only [ho, hown, ha, if_false, Option.bind_some, Option.some.injEq, forall_eq',
            forall_const, imp_false, not_not]
          exact eq_comm
  · rw [if_neg hown, if_neg hown]
    simp only [true_iff]
    exact fun ha hg => absurd ⟨ha, hg⟩ hown

theorem closersWithin_iff : ClosersWithin s account ↔ ∀ cp ∈ s.closedPositions.values,
    SqlLedgerStore.groupForClosedPosition s account cp = s.groupForClosedPosition account cp := by
  simp only [groupForClosedPosition_eq_iff]
  exact Iff.rfl

/-- With the closing orders within the account, the two statements rewrite the table alike. -/
theorem Agrees.linkClosedPositionsToGroups_of_closersWithin (h : Agrees s db)
    (hclosers : ClosersWithin s account) :
    Agrees (s.linkClosedPositionsToGroups account).2
      (db.linkClosedPositionsToGroups account).2 := by
  have htables : (SqlLedgerStore.linkClosedPositionsToGroups s account).2 =
      (s.linkClosedPositionsToGroups account).2 := by
    simp only [SqlLedgerStore.linkClosedPositionsToGroups,
      InMemoryStore.linkClosedPositionsToGroups]
    congr 1
    exact Table.modify_congr _ _ _ fun cp hcp => by rw [closersWithin_iff.mp hclosers cp hcp]
  rw [← htables]
  exact (h.linkClosedPositionsToGroups account).2

/-- **The link step of the closed positions** leaves the two stores with the same rows exactly when
no closing order that is in a group, of the account's ungrouped closed positions, is another
account's. -/
theorem agrees_linkClosedPositionsToGroups_iff (h : Agrees s db) :
    Agrees (s.linkClosedPositionsToGroups account).2 (db.linkClosedPositionsToGroups account).2 ↔
      ClosersWithin s account := by
  refine ⟨fun hmem => closersWithin_iff.mpr fun cp hcp => ?_,
    h.linkClosedPositionsToGroups_of_closersWithin⟩
  -- the two rewritings are stored alike, and the group is stored as it is
  obtain ⟨p, hp, rfl⟩ := List.mem_map.mp hcp
  have hsql := (h.linkClosedPositionsToGroups account).2
  have hrows := hsql.closedPositions.rows.symm.trans hmem.closedPositions.rows
  simp only [SqlLedgerStore.linkClosedPositionsToGroups,
    InMemoryStore.linkClosedPositionsToGroups, Table.modify, List.map_map] at hrows
  have hgroup := congrArg (fun q : ℕ × ClosedPositionRow => q.2.tradeGroupId)
    (List.map_inj_left.mp hrows p hp)
  simp only [Function.comp_apply, ClosedPositionRow.stored, ClosedPositionRow.heldIn] at hgroup
  cases hnone : p.2.tradeGroupId with
  | none => simpa [hnone] using hgroup
  | some pk =>
    simp [SqlLedgerStore.groupForClosedPosition, InMemoryStore.groupForClosedPosition, hnone]

/-- The number of rows linked is then the same too. -/
theorem linkClosedPositionsToGroups_fst (hclosers : ClosersWithin s account) :
    (SqlLedgerStore.linkClosedPositionsToGroups s account).1 =
      (s.linkClosedPositionsToGroups account).1 :=
  List.countP_congr fun cp hcp => by rw [closersWithin_iff.mp hclosers cp hcp]

end Closers

namespace ForeignCloser

/-- A position of `main` closed by an order of `spare` that is in a group. -/
def order : OrderRow := { OrderRow.placed "spare" "O-1" with tradeGroupId := some 1 }

def closed : ClosedPositionRow where
  account := "main"
  securityId := "equity:AAPL"
  quantity := 1
  quantityDirection := "Long"
  closingOrderId := some 1
  openedAt := some 0
  closedAt := some 1

def store : InMemoryStore :=
  (((InMemoryStore.empty 0).upsertOrders [order]).2.upsertClosedPosition closed).2

def database : SqlDatabase :=
  ((({} : SqlDatabase).upsertOrders [order]).2.upsertClosedPosition closed).2

theorem agrees : Agrees store database := by
  have horder : ∀ row ∈ [order], row.ttOrderId ≠ some "" := by decide
  exact (((agrees_empty 0).upsertOrders horder).2.upsertClosedPosition rfl).2

/-- The in-memory store puts the position in the other account's group, and the SQL store does
not. -/
theorem not_agrees_link : ¬ Agrees (store.linkClosedPositionsToGroups "main").2
    (database.linkClosedPositionsToGroups "main").2 := by
  rw [agrees_linkClosedPositionsToGroups_iff agrees]
  intro hclosers
  have howner := hclosers closed (by decide) rfl rfl 1 rfl order rfl (by decide)
  exact absurd howner (by decide)

end ForeignCloser

/-! ## Batches -/

/-- **A batch of orders**: however many statements it is cut into, it returns one id for each row,
in the order of the rows, and each is the id of the row stored under that row's order id; the
orders that were stored keep their ids and order ids. A batch with a number that does not fit its
column raises and changes nothing. -/
theorem ids_upsertOrders {s : InMemoryStore} {db : SqlDatabase} (h : Agrees s db)
    {rows : List OrderRow} (hrows : ∀ row ∈ rows, row.ttOrderId ≠ some "") {now : Datetime}
    {r : Except String (List ℕ)} {db' : SqlDatabase}
    (hr : db.Answers now (.upsertOrders rows) r db') :
    ((∀ row ∈ rows, ∀ n ∈ row.bound, Money.FitsInt64 n) → ∃ ids, r = .ok ids ∧
      List.Forall₂ (fun row i =>
        ∃ order, (i, order) ∈ db'.orders ∧ order.ttOrderId = row.ttOrderId) rows ids ∧
      ∀ p ∈ db.orders, ∃ order, (p.1, order) ∈ db'.orders ∧ order.ttOrderId = p.2.ttOrderId) ∧
    ((∃ row ∈ rows, ∃ n ∈ row.bound, ¬Money.FitsInt64 n) → (∃ e, r = .error e) ∧ db' = db) := by
  constructor
  · intro hfits
    have haccepted : (LedgerOp.upsertOrders rows).Accepted db.pendingOrderIds := by
      refine ⟨fun n hn => ?_, Nat.zero_le _, by simp [LedgerOp.stops]⟩
      obtain ⟨row, hrow, hn⟩ := List.mem_flatMap.mp hn
      exact hfits row hrow n hn
    obtain ⟨rfl, rfl⟩ := hr.1 haccepted
    refine ⟨_, rfl, ?_⟩
    obtain ⟨hids, hagree⟩ := h.upsertOrders hrows
    obtain ⟨hbatch, hkept⟩ := Represents.ids_upsertMerged s.orders rows key_preserveOrder
    rw [hids, hagree.orders.rows, h.orders.rows, upsertOrders_eq_merged hrows]
    constructor
    · refine hbatch.imp fun row i => ?_
      rintro ⟨order, horder, hkey⟩
      exact ⟨order.stored, List.mem_map.mpr ⟨(i, order), Table.get_eq_some.mp horder, rfl⟩, hkey⟩
    · intro p hp
      obtain ⟨q, hq, rfl⟩ := List.mem_map.mp hp
      obtain ⟨order, horder, hkey⟩ := hkept q.1 q.2 (Table.get_eq_some.mpr hq)
      exact ⟨order.stored, List.mem_map.mpr ⟨(q.1, order), Table.get_eq_some.mp horder, rfl⟩, hkey⟩
  · rintro ⟨row, hrow, n, hn, hnot⟩
    exact hr.2 fun haccepted => hnot (haccepted.integers n (List.mem_flatMap.mpr ⟨row, hrow, hn⟩))

namespace TwoResyncs

/-- A batch that names an order twice, at two prices. -/
def rows : List OrderRow :=
  [{ OrderRow.placed "main" "O-1" with price := some 1 }, .placed "main" "O-2",
    { OrderRow.placed "main" "O-1" with price := some 2 }]

/-- The ids of the batch on an empty database. -/
theorem ids : List.Forall₂ (fun row i => ∃ order,
      (i, order) ∈ (({} : SqlDatabase).upsertOrders rows).2.orders ∧
        order.ttOrderId = row.ttOrderId) rows (({} : SqlDatabase).upsertOrders rows).1 := by
  have hrows : ∀ row ∈ rows, row.ttOrderId ≠ some "" := by decide
  have hfits : ∀ row ∈ rows, ∀ n ∈ row.bound, Money.FitsInt64 n := by decide +kernel
  have haccepted : (LedgerOp.upsertOrders rows).Accepted ({} : SqlDatabase).pendingOrderIds := by
    decide +kernel
  have hr : ({} : SqlDatabase).Answers 0 (.upsertOrders rows)
      (.ok (({} : SqlDatabase).upsertOrders rows).1) (({} : SqlDatabase).upsertOrders rows).2 :=
    ⟨fun _ => ⟨rfl, rfl⟩, fun hnot => absurd haccepted hnot⟩
  obtain ⟨ids, hok, hbatch, -⟩ := (ids_upsertOrders (agrees_empty 0) hrows hr).1 hfits
  rwa [← Except.ok.inj hok] at hbatch

end TwoResyncs

/-! ## Replies -/

/-- What a call returned on the in-memory store and on the SQL store: the same, as the columns store
it, and a list of rows in an order of its own. The members of a group come dated first in the one
store and last in the other; their times are in one order. -/
def Matches : (op : LedgerOp) → op.Reply → Except String op.Reply → Prop
  | .getOrder _, m, r => r = .ok (m.map OrderRow.stored)
  | .queryOrders _, m, r => ∃ l, r = .ok l ∧ l.Perm (m.map OrderRow.stored)
  | .getPosition _ _, m, r => r = .ok (m.map PositionRow.stored)
  | .getSecurity _, m, r => r = .ok (m.map SecurityRow.stored)
  | .getTradeGroup _, m, r => r = .ok (m.map TradeGroupRow.stored)
  | .getTradeGroupById _, m, r => r = .ok (m.map TradeGroupRow.stored)
  | .getTransactionsById _, m, r => ∃ l, r = .ok l ∧ l.Perm (m.map TxnRow.stored)
  | .getGroupTransactions _, m, r => ∃ l, r = .ok l ∧ l.Perm (m.map TxnRow.stored) ∧
      l.filterMap TxnRow.executedAt = m.filterMap TxnRow.executedAt
  | .unifiedTrades _, m, r => ∃ l, r = .ok l ∧ l.Perm (m.map TradeGroupRow.stored)
  | .accountActivity _, m, r => ∃ l, r = .ok l ∧ l.Perm (m.map ActivityRow.stored)
  | _, m, r => r = .ok m

/-- The order ids that the account's transactions without an order name. -/
def InMemoryStore.pendingOrderIds (s : InMemoryStore) (account : String) : List String :=
  (s.transactions.values.filter fun txn =>
    txn.account = account ∧ txn.orderId = none).filterMap TxnRow.ttOrderId

/-- The calls that the two stores understand alike in a state. -/
def Alike (s : InMemoryStore) : LedgerOp → Prop
  | .upsertOrders rows => ∀ row ∈ rows, row.ttOrderId ≠ some ""
  | .upsertClosedPosition row => row.closedAt.isSome
  | .linkClosedPositionsToGroups account => ClosersWithin s account
  | .linkTransactionsToPositions links =>
    (links.map PositionLink.ttTransactionId).Nodup ∧
      ∀ l ∈ links, ∃ txn ∈ s.transactions.values, txn.ttTransactionId = l.ttTransactionId
  | .uuid4 => False
  | .now => False
  | _ => True

/-- The calls that the two stores understand alike, and whose parameters SQLite's driver takes. -/
structure Portable (s : InMemoryStore) (op : LedgerOp) : Prop where
  alike : Alike s op
  accepted : op.Accepted s.pendingOrderIds

section Step

variable {s : InMemoryStore} {db : SqlDatabase}

theorem Agrees.pendingOrderIds_eq (h : Agrees s db) : db.pendingOrderIds = s.pendingOrderIds := by
  funext account
  rw [SqlDatabase.pendingOrderIds, SqlDatabase.pendingTransactions, InMemoryStore.pendingOrderIds,
    h.transactions.rows, Table.values, ← List.filterMap_eq_filter]
  simp only [List.map_filterMap, List.filterMap_map, List.filterMap_filterMap]
  refine List.filterMap_congr fun p _ => ?_
  by_cases ha : p.2.account = account <;> by_cases ho : p.2.orderId = none <;>
    simp [Option.guard, TxnRow.stored, TxnRow.heldIn, ha, ho]

theorem Agrees.setClock (h : Agrees s db) (now : Datetime) : Agrees { s with clock := now } db :=
  { h with }

/-- Links of distinct stored transactions are counted alike. -/
theorem countP_links {links : List PositionLink}
    (hlinks : (links.map PositionLink.ttTransactionId).Nodup)
    (hstored : ∀ l ∈ links, ∃ txn ∈ s.transactions.values,
      txn.ttTransactionId = l.ttTransactionId) :
    (s.linkTransactionsToPositions links).1 = links.length := by
  have hnamed : ∀ txn : TxnRow,
      ((InMemoryStore.linksById links).get? txn.ttTransactionId).isSome =
        decide (txn.ttTransactionId ∈ links.map PositionLink.ttTransactionId) := by
    intro txn
    rw [get?_linksById, Dict.lastUnder, Option.isSome_map, Bool.eq_iff_iff, List.find?_isSome,
      decide_eq_true_eq]
    simp [linkEntry]
  -- the transactions counted and the links have the same identifiers, each once
  have hperm : ((s.transactions.values.filter fun txn =>
      txn.ttTransactionId ∈ links.map PositionLink.ttTransactionId).map
        TxnRow.ttTransactionId).Perm (links.map PositionLink.ttTransactionId) := by
    refine (List.perm_ext_iff_of_nodup ?_ hlinks).mpr fun id => ?_
    · exact s.nodup_ids.sublist (List.filter_sublist.map _)
    · simp only [List.mem_map, List.mem_filter, decide_eq_true_eq]
      constructor
      · rintro ⟨txn, ⟨-, hl⟩, rfl⟩
        exact hl
      · rintro ⟨l, hl, rfl⟩
        obtain ⟨txn, htxn, hid⟩ := hstored l hl
        exact ⟨txn, ⟨htxn, l, hl, hid.symm⟩, hid⟩
  rw [InMemoryStore.linkTransactionsToPositions]
  simp only [hnamed]
  rw [List.countP_eq_length_filter]
  simpa using hperm.length_eq

/-- The times of a group's members are in one order on both stores. -/
theorem filterMap_executedAt {l : List TxnRow} {pk : ℕ}
    (hperm : l.Perm ((s.getGroupTransactions pk).map TxnRow.stored))
    (hsorted : l.Pairwise fun a b => SqlDatabase.nullsFirst a.executedAt ≤
      SqlDatabase.nullsFirst b.executedAt) :
    l.filterMap TxnRow.executedAt = (s.getGroupTransactions pk).filterMap TxnRow.executedAt := by
  have htimes : (l.filterMap TxnRow.executedAt).Perm
      ((s.getGroupTransactions pk).filterMap TxnRow.executedAt) := by
    refine (hperm.filterMap _).trans (.of_eq ?_)
    rw [List.filterMap_map]
    rfl
  have hl : (l.filterMap TxnRow.executedAt).Pairwise (· ≤ ·) :=
    List.pairwise_filterMap.mpr (hsorted.imp fun {a b} hab t ht t' ht' => by
      rw [ht, ht'] at hab
      exact WithBot.coe_le_coe.mp hab)
  have hm : ((s.getGroupTransactions pk).filterMap TxnRow.executedAt).Pairwise (· ≤ ·) :=
    List.pairwise_filterMap.mpr ((pairwise_sortOn _ _).imp fun {a b} hab t ht t' ht' => by
      rw [ht, ht'] at hab
      exact WithTop.coe_le_coe.mp hab)
  exact htimes.eq_of_pairwise (fun _ _ _ _ => le_antisymm) hl hm

/-- **One call**: on a portable call, whatever the SQL store answers matches the in-memory store's
answer, and the stores stay in agreement. -/
theorem Agrees.step (h : Agrees s db) {now : Datetime} {op : LedgerOp}
    (hportable : Portable { s with clock := now } op) {r : Except String op.Reply}
    {db' : SqlDatabase} (hanswer : db.Answers now op r db') :
    Matches op (InMemoryStore.step op { s with clock := now }).1 r ∧
      Agrees (InMemoryStore.step op { s with clock := now }).2 db' := by
  have hs := h.setClock now
  have hop := hportable.alike
  have hr := hanswer.1 (hs.pendingOrderIds_eq ▸ hportable.accepted)
  cases op with
  | upsertOrders rows =>
    obtain ⟨rfl, rfl⟩ := hr
    obtain ⟨hids, hagree⟩ := hs.upsertOrders hop
    exact ⟨congrArg Except.ok hids, hagree⟩
  | upsertTransactions rows =>
    obtain ⟨rfl, rfl⟩ := hr
    exact ⟨rfl, hs.upsertTransactions rows⟩
  | upsertSecurity sec =>
    obtain ⟨rfl, rfl⟩ := hr
    exact ⟨rfl, hs.upsertSecurity sec⟩
  | upsertPositions rows =>
    obtain ⟨rfl, rfl⟩ := hr
    exact ⟨rfl, hs.upsertPositions rows⟩
  | upsertClosedPosition row =>
    obtain ⟨rfl, rfl⟩ := hr
    exact hs.upsertClosedPosition hop
  | linkTransactionsToOrders account =>
    obtain ⟨rfl, rfl⟩ := hr
    obtain ⟨hcount, hagree⟩ := hs.linkTransactionsToOrders account
    exact ⟨congrArg Except.ok hcount, hagree⟩
  | linkOrdersToGroups account =>
    obtain ⟨rfl, rfl⟩ := hr
    obtain ⟨hcount, hagree⟩ := hs.linkOrdersToGroups account
    exact ⟨congrArg Except.ok hcount, hagree⟩
  | linkClosedPositionsToGroups account =>
    obtain ⟨rfl, rfl⟩ := hr
    have hcount := (hs.linkClosedPositionsToGroups account).1.trans
      (linkClosedPositionsToGroups_fst hop)
    exact ⟨congrArg Except.ok hcount, hs.linkClosedPositionsToGroups_of_closersWithin hop⟩
  | upsertTradeGroup tg =>
    obtain ⟨rfl, rfl⟩ := hr
    obtain ⟨hid, hagree⟩ := hs.upsertTradeGroup tg
    exact ⟨congrArg Except.ok hid, hagree⟩
  | addTradeGroupEvent ev =>
    obtain ⟨rfl, rfl⟩ := hr
    exact ⟨rfl, h.addTradeGroupEvent now ev⟩
  | attachTransactionsToTradeGroup ids pk =>
    obtain ⟨rfl, rfl⟩ := hr
    obtain ⟨hcount, hagree⟩ := hs.attachTransactionsToTradeGroup ids pk
    exact ⟨congrArg Except.ok hcount, hagree⟩
  | moveTransactionsToGroup ids pk =>
    obtain ⟨rfl, rfl⟩ := hr
    obtain ⟨hcount, hagree⟩ := hs.moveTransactionsToGroup ids pk
    exact ⟨congrArg Except.ok hcount, hagree⟩
  | linkTransactionsToPositions links =>
    obtain ⟨rfl, rfl⟩ := hr
    exact ⟨congrArg Except.ok (countP_links hop.1 hop.2).symm, hs.linkTransactionsToPositions links⟩
  | getOrder k =>
    obtain ⟨rfl, rfl⟩ := hr
    exact ⟨congrArg Except.ok (hs.getOrder k), hs⟩
  | queryOrders f =>
    obtain ⟨⟨l, rfl, hl⟩, rfl⟩ := hr
    exact ⟨⟨l, rfl, hl.trans (hs.queryOrders f)⟩, hs⟩
  | getPosition account sid =>
    obtain ⟨rfl, rfl⟩ := hr
    exact ⟨congrArg Except.ok (hs.positionAt account sid).1, hs⟩
  | getPositionId account sid =>
    obtain ⟨rfl, rfl⟩ := hr
    exact ⟨congrArg Except.ok (hs.positionAt account sid).2, hs⟩
  | getSecurity k =>
    obtain ⟨rfl, rfl⟩ := hr
    exact ⟨congrArg Except.ok (hs.getSecurity k), hs⟩
  | getTradeGroup k =>
    obtain ⟨rfl, rfl⟩ := hr
    exact ⟨congrArg Except.ok (hs.getTradeGroup k), hs⟩
  | getTradeGroupById pk =>
    obtain ⟨rfl, rfl⟩ := hr
    exact ⟨congrArg Except.ok (hs.getTradeGroupById pk), hs⟩
  | getTradeGroupId k =>
    obtain ⟨rfl, rfl⟩ := hr
    exact ⟨congrArg Except.ok (hs.getTradeGroupId k), hs⟩
  | getTransactionsById ids =>
    obtain ⟨⟨l, rfl, hl⟩, rfl⟩ := hr
    exact ⟨⟨l, rfl, hl.trans (.of_eq (hs.getTransactionsById ids))⟩, hs⟩
  | getGroupTransactions pk =>
    obtain ⟨⟨l, rfl, hl, hsorted⟩, rfl⟩ := hr
    have hperm := hl.trans (hs.getGroupTransactions pk)
    exact ⟨⟨l, rfl, hperm, filterMap_executedAt hperm hsorted⟩, hs⟩
  | unifiedTrades f =>
    obtain ⟨⟨l, rfl, hl⟩, rfl⟩ := hr
    exact ⟨⟨l, rfl, hl.trans (.of_eq (hs.unifiedTrades f))⟩, hs⟩
  | accountActivity f =>
    obtain ⟨⟨l, rfl, hl⟩, rfl⟩ := hr
    exact ⟨⟨l, rfl, hl.trans (.of_eq (hs.accountActivity f))⟩, hs⟩
  | uuid4 => exact absurd hop id
  | now => exact absurd hop id

/-- The SQL store has an answer to a portable call. -/
theorem Agrees.exists_answers (h : Agrees s db) {now : Datetime} {op : LedgerOp}
    (hop : Portable { s with clock := now } op) : ∃ r db', db.Answers now op r db' := by
  have haccepted : op.Accepted db.pendingOrderIds :=
    (h.setClock now).pendingOrderIds_eq ▸ hop.accepted
  have hexecutes : ∃ r db', db.Executes now op r db' := by
    cases op with
    | queryOrders f => exact ⟨_, db, ⟨_, rfl, .refl _⟩, rfl⟩
    | getTransactionsById ids => exact ⟨_, db, ⟨_, rfl, .refl _⟩, rfl⟩
    | unifiedTrades f => exact ⟨_, db, ⟨_, rfl, .refl _⟩, rfl⟩
    | accountActivity f => exact ⟨_, db, ⟨_, rfl, .refl _⟩, rfl⟩
    | getGroupTransactions pk =>
      exact ⟨_, db, ⟨_, rfl, perm_sortOn (fun txn : TxnRow =>
        SqlDatabase.nullsFirst txn.executedAt) _, pairwise_sortOn _ _⟩, rfl⟩
    | uuid4 => exact absurd hop.alike id
    | now => exact absurd hop.alike id
    | _ => exact ⟨_, _, rfl, rfl⟩
  obtain ⟨r, db', hr⟩ := hexecutes
  exact ⟨r, db', fun _ => hr, fun hnot => absurd haccepted hnot⟩

end Step

/-! ## Runs -/

/-- A call and the instant at which it is issued. -/
structure StoreCall where
  now : Datetime
  op : LedgerOp

/-- The in-memory store's answers to calls, one after the other, and the store after them. -/
def InMemoryStore.runCalls : List StoreCall → InMemoryStore →
    List (Σ op : LedgerOp, op.Reply) × InMemoryStore
  | [], s => ([], s)
  | c :: calls, s =>
    let r := InMemoryStore.step c.op { s with clock := c.now }
    let rest := InMemoryStore.runCalls calls r.2
    (⟨c.op, r.1⟩ :: rest.1, rest.2)

/-- The SQL store answers calls, one after the other. -/
inductive SqlDatabase.Runs : SqlDatabase → List StoreCall →
    List (Σ op : LedgerOp, Except String op.Reply) → SqlDatabase → Prop
  | nil (db : SqlDatabase) : Runs db [] [] db
  | cons {db db' db'' : SqlDatabase} {c : StoreCall} {calls : List StoreCall}
      {r : Except String c.op.Reply} {replies : List (Σ op : LedgerOp, Except String op.Reply)}
      (answers : db.Answers c.now c.op r db') (rest : Runs db' calls replies db'') :
      Runs db (c :: calls) (⟨c.op, r⟩ :: replies) db''

/-- Every call is portable in the state in which it is issued. -/
def PortableRun : List StoreCall → InMemoryStore → Prop
  | [], _ => True
  | c :: calls, s =>
    Portable { s with clock := c.now } c.op ∧
      PortableRun calls (InMemoryStore.step c.op { s with clock := c.now }).2

/-- Two answers to one call match. -/
def Replied (m : Σ op : LedgerOp, op.Reply) (r : Σ op : LedgerOp, Except String op.Reply) : Prop :=
  ∃ (op : LedgerOp) (a : op.Reply) (b : Except String op.Reply),
    m = ⟨op, a⟩ ∧ r = ⟨op, b⟩ ∧ Matches op a b

/-- **Two stores, one ledger**: over every sequence of portable calls on stores that hold the same
rows, the SQL store has answers, and whichever it gives match the in-memory store's answers call by
call and leave it with the in-memory store's rows. -/
theorem runs_agree {s : InMemoryStore} {db : SqlDatabase} (h : Agrees s db)
    {calls : List StoreCall} (hcalls : PortableRun calls s) :
    (∃ replies db', db.Runs calls replies db') ∧
      ∀ replies db', db.Runs calls replies db' →
        List.Forall₂ Replied (s.runCalls calls).1 replies ∧ Agrees (s.runCalls calls).2 db' := by
  induction calls generalizing s db with
  | nil =>
    refine ⟨⟨[], db, .nil db⟩, fun replies db' hruns => ?_⟩
    cases hruns
    exact ⟨.nil, h⟩
  | cons c calls ih =>
    obtain ⟨hop, hrest⟩ := hcalls
    constructor
    · obtain ⟨r, db', hr⟩ := h.exists_answers hop
      obtain ⟨⟨replies, db'', hruns⟩, -⟩ := ih (h.step hop hr).2 hrest
      exact ⟨_, _, .cons hr hruns⟩
    · intro replies db'' hruns
      cases hruns with
      | cons hr hruns =>
        obtain ⟨hmatch, hagree⟩ := h.step hop hr
        obtain ⟨hreplies, hend⟩ := (ih hagree hrest).2 _ _ hruns
        exact ⟨.cons ⟨_, _, _, rfl, rfl, hmatch⟩ hreplies, hend⟩

/-! ## A first day -/

namespace FirstDay

/-- An order with two fills, its group, and the link steps. -/
def calls : List StoreCall :=
  [⟨0, .upsertOrders [.placed "main" "O-1"]⟩,
    ⟨0, .upsertTransactions [.fill "main" "T-1" "O-1" "Buy to Open" "equity:AAPL" 1 0,
      .fill "main" "T-2" "O-1" "Buy to Open" "equity:AAPL" 2 1]⟩,
    ⟨0, .upsertTradeGroup { groupId := "G-1", account := "main", origin := .broker }⟩,
    ⟨1, .attachTransactionsToTradeGroup ["T-1", "T-2"] 1⟩,
    ⟨2, .linkOrdersToGroups "main"⟩,
    ⟨2, .linkTransactionsToOrders "main"⟩,
    ⟨2, .linkClosedPositionsToGroups "main"⟩,
    ⟨3, .getGroupTransactions 1⟩,
    ⟨3, .accountActivity { account := some "main" }⟩]

theorem portableRun : PortableRun calls (InMemoryStore.empty 0) := by
  have horders : ∀ row ∈ [OrderRow.placed "main" "O-1"], row.ttOrderId ≠ some "" := by decide
  refine ⟨⟨horders, by decide +kernel⟩, ⟨trivial, by decide +kernel⟩, ⟨trivial, by decide +kernel⟩,
    ⟨trivial, by decide +kernel⟩, ⟨trivial, by decide +kernel⟩, ⟨trivial, by decide +kernel⟩,
    ⟨?_, by decide +kernel⟩, ⟨trivial, by decide +kernel⟩, ⟨trivial, by decide +kernel⟩, trivial⟩
  intro cp hcp
  cases hcp

/-- The SQL store can answer that day, and whatever it answers, it ends with the in-memory store's
rows. -/
theorem run_agrees : (∃ replies db', ({} : SqlDatabase).Runs calls replies db') ∧
    ∀ replies db', ({} : SqlDatabase).Runs calls replies db' →
      List.Forall₂ Replied ((InMemoryStore.empty 0).runCalls calls).1 replies ∧
        Agrees ((InMemoryStore.empty 0).runCalls calls).2 db' :=
  runs_agree (agrees_empty 0) portableRun

end FirstDay

end TtLedger
