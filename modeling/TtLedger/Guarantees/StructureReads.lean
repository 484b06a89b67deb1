import TtLedger.Guarantees.StoreAgreement
import TtLedger.Store.Structure

/-!
# What the structure reads return

`order_details` and `trade_structure` read all legs and all fills of many orders at once and group
them by order. What an order gets is what reading it alone would give: its stored legs by place, its
stored fills by time (`orderDetails_eq`), and together the details hold every leg and every fill of
the orders once. Reading a group's structure is reading the details of the orders in it. The SQL
store returns the same lists (`structure_agrees`).
-/

namespace TtLedger

/-! ## Reading one order -/

namespace HistoryStore

/-- The legs of an order, by place. -/
def legsOf (h : HistoryStore) (orderPk : ℕ) : List LegDetailRow :=
  sortOn LegDetailRow.legIndex
    ((h.legs.rows.filter fun p => p.2.orderId = orderPk).map fun p => p.2.detail p.1)

/-- The fills of an order, by time. -/
def fillsOf (h : HistoryStore) (orderPk : ℕ) : List FillRow :=
  (sortOn (fun p => oldestFirst p.2.filledAt p.1)
    (h.fills.rows.filter fun p => p.2.orderId = some orderPk)).map Prod.snd

/-- The detail of one order. -/
def detailOf (h : HistoryStore) (p : ℕ × OrderRow) : OrderDetail :=
  ⟨p.1, p.2, h.legsOf p.1, h.fillsOf p.1⟩

end HistoryStore

section Grouped

/-- Grouping gives each order the rows that name it. -/
theorem withStructure_eq (orders : List (ℕ × OrderRow)) (legs : List LegDetailRow)
    (fills : List FillRow) :
    withStructure orders legs fills = orders.map fun p =>
      ⟨p.1, p.2, legs.filter fun leg => leg.orderId = p.1,
        fills.filter fun fill => fill.orderId = some p.1⟩ := by
  unfold withStructure
  simp only [getD_get?_groupBy, Option.some.injEq]

variable (h : HistoryStore)

/-- The legs that a read of many orders has of one of them. -/
theorem filter_getLegsForOrders {orderIds : List ℕ} {pk : ℕ} (hpk : pk ∈ orderIds) :
    ((h.getLegsForOrders orderIds).filter fun leg => leg.orderId = pk) = h.legsOf pk := by
  have hrows : ((h.legs.rows.filter fun p => orderIds.contains p.2.orderId).map fun p =>
      p.2.detail p.1).filter (fun leg => leg.orderId = pk) =
      (h.legs.rows.filter fun p => p.2.orderId = pk).map fun p => p.2.detail p.1 := by
    rw [List.filter_map, List.filter_filter]
    congr 1
    refine List.filter_congr fun p _ => ?_
    by_cases hp : p.2.orderId = pk
    · simp [LegRow.detail, hp, hpk]
    · simp [LegRow.detail, hp]
  rw [HistoryStore.getLegsForOrders, filter_sortOn, hrows, HistoryStore.legsOf]
  refine sortOn_congr fun a ha b hb => ?_
  have horder : ∀ leg ∈ (h.legs.rows.filter fun p => p.2.orderId = pk).map
      (fun p => p.2.detail p.1), leg.orderId = pk := by
    intro leg hleg
    obtain ⟨p, hp, rfl⟩ := List.mem_map.mp hleg
    exact of_decide_eq_true (List.mem_filter.mp hp).2
  rw [LegDetailRow.place, LegDetailRow.place, horder a ha, horder b hb, Prod.Lex.toLex_le_toLex]
  simp

theorem filter_getFillsForOrders {orderIds : List ℕ} {pk : ℕ} (hpk : pk ∈ orderIds) :
    ((h.getFillsForOrders orderIds).filter fun fill => fill.orderId = some pk) =
      h.fillsOf pk := by
  rw [HistoryStore.getFillsForOrders, List.filter_map, filter_sortOn, List.filter_filter,
    HistoryStore.fillsOf]
  congr 2
  refine List.filter_congr fun p _ => ?_
  by_cases hp : p.2.orderId = some pk
  · simp [hp, hpk]
  · simp [hp]

theorem withStructure_eq_map (orders : List (ℕ × OrderRow)) :
    withStructure orders (h.getLegsForOrders (orders.map Prod.fst))
      (h.getFillsForOrders (orders.map Prod.fst)) = orders.map h.detailOf := by
  rw [withStructure_eq]
  refine List.map_congr_left fun p hp => ?_
  have hpk := List.mem_map_of_mem (f := Prod.fst) hp
  rw [filter_getLegsForOrders h hpk, filter_getFillsForOrders h hpk, HistoryStore.detailOf]

end Grouped

/-! ## Reading many orders -/

section Many

/-- The rows under distinct keys, key by key, are the rows under any of them. -/
theorem perm_flatMap_filter {α κ : Type} [DecidableEq κ] (key : α → Option κ) (l : List α)
    {ks : List κ} (hks : ks.Nodup) :
    (ks.flatMap fun k => l.filter fun a => key a = some k).Perm
      (l.filter fun a => (key a).any ks.contains) := by
  induction ks with
  | nil =>
    rw [List.flatMap_nil]
    refine List.Perm.of_eq (Eq.symm (List.filter_eq_nil_iff.mpr fun a _ => ?_))
    cases key a <;> simp
  | cons k ks ih =>
    obtain ⟨hk, hks⟩ := List.nodup_cons.mp hks
    rw [List.flatMap_cons]
    refine ((ih hks).append_left _).trans ?_
    -- the rows under the first key and the others among the rows under any of them
    have hparts := List.filter_append_perm (fun a => decide (key a = some k))
      (l.filter fun a => (key a).any (k :: ks).contains)
    rw [List.filter_filter, List.filter_filter] at hparts
    refine (List.Perm.of_eq ?_).trans hparts
    congr 1
    · refine List.filter_congr fun a _ => ?_
      by_cases ha : key a = some k
      · simp [ha]
      · simp [ha]
    · refine List.filter_congr fun a _ => ?_
      cases ha : key a with
      | none => simp
      | some k' =>
        by_cases hkk : k' = k
        · subst hkk
          simp [hk]
        · simp [hkk]

variable (h : HistoryStore) (f : OrderFilter)

/-- The ids of the orders that a filter keeps. -/
theorem nodup_queryOrdersWithIds (s : InMemoryStore) :
    ((s.queryOrdersWithIds f).map Prod.fst).Nodup := by
  refine (((perm_sortOn _ _).map Prod.fst).nodup_iff).mpr ?_
  exact s.orders.ids_nodup.sublist (List.filter_sublist.map _)

theorem mem_queryOrdersWithIds (s : InMemoryStore) {p : ℕ × OrderRow} :
    p ∈ s.queryOrdersWithIds f ↔ s.orders.get p.1 = some p.2 ∧ f.keeps p.2 = true := by
  rw [InMemoryStore.queryOrdersWithIds, mem_sortOn, List.mem_filter, Table.get_eq_some]

theorem contains_queryOrdersWithIds (s : InMemoryStore) (pk : ℕ) :
    ((s.queryOrdersWithIds f).map Prod.fst).contains pk = (s.orders.get pk).any f.keeps := by
  rw [Bool.eq_iff_iff, List.contains_iff_mem, List.mem_map, Option.any_eq_true]
  constructor
  · rintro ⟨p, hp, rfl⟩
    obtain ⟨horder, hkeeps⟩ := (mem_queryOrdersWithIds f s).mp hp
    exact ⟨p.2, horder, hkeeps⟩
  · rintro ⟨order, horder, hkeeps⟩
    exact ⟨(pk, order), (mem_queryOrdersWithIds f s).mpr ⟨horder, hkeeps⟩, rfl⟩

theorem orderDetails_eq : h.orderDetails f = (h.store.queryOrdersWithIds f).map h.detailOf :=
  withStructure_eq_map h _

/-- All legs of the details, order by order. -/
theorem perm_legs_orderDetails :
    ((h.orderDetails f).flatMap OrderDetail.legs).Perm
      ((h.legs.rows.filter fun p => (h.store.orders.get p.2.orderId).any f.keeps).map fun p =>
        p.2.detail p.1) := by
  have hrows := perm_flatMap_filter (fun p : ℕ × LegRow => some p.2.orderId) h.legs.rows
    (nodup_queryOrdersWithIds f h.store)
  rw [orderDetails_eq, List.flatMap_map]
  have hparts : ((h.store.queryOrdersWithIds f).flatMap fun p => h.legsOf p.1).Perm
      ((((h.store.queryOrdersWithIds f).map Prod.fst).flatMap fun k =>
        h.legs.rows.filter fun p => some p.2.orderId = some k).map fun p => p.2.detail p.1) := by
    rw [List.map_flatMap, List.flatMap_map]
    refine List.Perm.flatMap_left _ fun p _ => ?_
    simp only [Option.some.injEq]
    exact perm_sortOn _ _
  refine hparts.trans ((hrows.map _).trans (.of_eq ?_))
  simp only [Option.any_some, contains_queryOrdersWithIds]

theorem perm_fills_orderDetails :
    ((h.orderDetails f).flatMap OrderDetail.fills).Perm
      (h.fills.values.filter fun fill => (fill.orderId.bind h.store.orders.get).any f.keeps) := by
  have hrows := perm_flatMap_filter (fun p : ℕ × FillRow => p.2.orderId) h.fills.rows
    (nodup_queryOrdersWithIds f h.store)
  rw [orderDetails_eq, List.flatMap_map]
  have hparts : ((h.store.queryOrdersWithIds f).flatMap fun p => h.fillsOf p.1).Perm
      ((((h.store.queryOrdersWithIds f).map Prod.fst).flatMap fun k =>
        h.fills.rows.filter fun p => p.2.orderId = some k).map Prod.snd) := by
    rw [List.map_flatMap, List.flatMap_map]
    exact List.Perm.flatMap_left _ fun p _ => (perm_sortOn _ _).map _
  refine hparts.trans ((hrows.map _).trans (.of_eq ?_))
  rw [Table.values, List.filter_map]
  congr 1
  refine List.filter_congr fun p _ => ?_
  cases hp : p.2.orderId with
  | none => simp [hp]
  | some pk => simp only [Function.comp_apply, hp, Option.any_some, Option.bind_some,
      contains_queryOrdersWithIds]

/-- The structure of a group is that of the orders in it. -/
theorem tradeStructure_eq {groupId : String} {pk : ℕ}
    (hpk : h.store.getTradeGroupId groupId = some pk) :
    h.tradeStructure groupId = h.orderDetails { tradeGroupId := some pk } := by
  have hkeeps : ∀ order : OrderRow, ({ tradeGroupId := some pk } : OrderFilter).keeps order =
      decide (order.tradeGroupId = some pk) := by
    intro order
    cases hat : order.submittedAt <;> simp [OrderFilter.keeps, inRange, hat]
  have hgroup : h.store.queryOrdersWithIds { tradeGroupId := some pk } =
      h.store.getGroupOrdersWithIds pk := by
    simp only [InMemoryStore.queryOrdersWithIds, InMemoryStore.getGroupOrdersWithIds, hkeeps]
  rw [HistoryStore.tradeStructure, hpk, HistoryStore.orderDetails, hgroup]

/-- **Orders with their structure**: reading many orders at once gives, for each order that the
filter keeps, what reading it alone would give; no order comes twice, and together the details hold
each leg and each fill of these orders once. The structure of a group is that of its orders. -/
theorem structure_complete :
    h.orderDetails f = (h.store.queryOrdersWithIds f).map h.detailOf ∧
      ((h.orderDetails f).map OrderDetail.orderPk).Nodup ∧
      (∀ pk order, (∃ d ∈ h.orderDetails f, d.orderPk = pk ∧ d.order = order) ↔
        h.store.orders.get pk = some order ∧ f.keeps order = true) ∧
      ((h.orderDetails f).flatMap OrderDetail.legs).Perm
        ((h.legs.rows.filter fun p => (h.store.orders.get p.2.orderId).any f.keeps).map fun p =>
          p.2.detail p.1) ∧
      ((h.orderDetails f).flatMap OrderDetail.fills).Perm
        (h.fills.values.filter fun fill => (fill.orderId.bind h.store.orders.get).any f.keeps) ∧
      ∀ groupId pk, h.store.getTradeGroupId groupId = some pk →
        h.tradeStructure groupId = h.orderDetails { tradeGroupId := some pk } := by
  refine ⟨orderDetails_eq h f, ?_, fun pk order => ?_, perm_legs_orderDetails h f,
    perm_fills_orderDetails h f, fun _ _ hpk => tradeStructure_eq h hpk⟩
  · rw [orderDetails_eq, List.map_map]
    exact nodup_queryOrdersWithIds f h.store
  · simp only [orderDetails_eq, List.mem_map]
    constructor
    · rintro ⟨_, ⟨p, hp, rfl⟩, rfl, rfl⟩
      exact (mem_queryOrdersWithIds f h.store).mp hp
    · intro horder
      exact ⟨_, ⟨(pk, order), (mem_queryOrdersWithIds f h.store).mpr horder, rfl⟩, rfl, rfl⟩

end Many

/-! ## The SQL store -/

/-- A leg and an order as the columns store them. -/
def LegDetailRow.stored (r : LegDetailRow) : LegDetailRow :=
  { r with
    quantity := r.quantity.map Money.stored
    remainingQuantity := r.remainingQuantity.map Money.stored
    price := r.price.map Money.stored
    fillPrice := r.fillPrice.map Money.stored }

def OrderDetail.stored (d : OrderDetail) : OrderDetail where
  orderPk := d.orderPk
  order := d.order.stored
  legs := d.legs.map LegDetailRow.stored
  fills := d.fills.map FillRow.stored

/-- The database holds the rows of the ledger with its legs and fills. -/
structure HistoryAgrees (h : HistoryStore) (sql : SqlHistory) : Prop where
  ledger : Agrees h.store sql.db
  legs : Represents LegRow.stored h.legs sql.legs
  fills : Represents FillRow.stored h.fills sql.fills

/-- Nothing that is bound is too large. -/
theorem any_not_fits {T : Type} {bound : T → List ℤ} {rows : List T}
    (hfits : ∀ row ∈ rows, ∀ n ∈ bound row, Money.FitsInt64 n) :
    (rows.any fun row => (bound row).any fun n => ¬Money.FitsInt64 n) = false := by
  simpa [List.any_eq_false] using hfits

namespace HistoryAgrees

variable {h : HistoryStore} {sql : SqlHistory} (hh : HistoryAgrees h sql)
include hh

/-! ### Writes -/

theorem upsertLegs {rows : List LegRow}
    (hfits : ∀ leg ∈ rows, ∀ n ∈ leg.bound, Money.FitsInt64 n) :
    ∃ sql', sql.upsertLegs rows = .ok ((h.upsertLegs rows).1, sql') ∧
      HistoryAgrees (h.upsertLegs rows).2 sql' := by
  obtain ⟨hids, hrep⟩ := hh.legs.upsertInto (fun _ => rfl) 12 rows
  have hwrite : sql.upsertLegs rows = .ok ((SqlDatabase.upsertInto LegRow.key
      SqlDatabase.takeExcluded 12 sql.legs (rows.map LegRow.stored)).1, { sql with
        legs := (SqlDatabase.upsertInto LegRow.key SqlDatabase.takeExcluded 12 sql.legs
          (rows.map LegRow.stored)).2 }) := by
    rw [SqlHistory.upsertLegs, any_not_fits hfits]
    rfl
  rw [hids] at hwrite
  exact ⟨_, hwrite, { hh with legs := hrep }⟩

theorem upsertFills {rows : List FillRow}
    (hfits : ∀ fill ∈ rows, ∀ n ∈ fill.bound, Money.FitsInt64 n)
    (hrows : ∀ fill ∈ rows, fill.orderId.isSome = true) :
    ∃ sql', sql.upsertFills rows = .ok sql' ∧ HistoryAgrees (h.upsertFills rows) sql' := by
  have hnull : (rows.any fun fill => fill.orderId.isNone) = false := by
    rw [List.any_eq_false]
    intro fill hfill
    simpa using Option.isSome_iff_ne_none.mp (hrows fill hfill)
  have hrep := (hh.fills.upsertInto (fun _ => rfl) 11 rows).2
  rw [upsertEach_snd] at hrep
  unfold SqlHistory.upsertFills
  rw [any_not_fits hfits, hnull]
  exact ⟨_, rfl, { hh with fills := hrep }⟩

/-! ### Reads -/

theorem queryOrdersWithIds {f : OrderFilter} {pending : String → List String}
    (hf : (LedgerOp.queryOrders f).Accepted pending) :
    sql.queryOrdersWithIds f =
      .ok ((h.store.queryOrdersWithIds f).map fun p => (p.1, p.2.stored)) := by
  have hstop : f.stop.any (LedgerOp.lastDay ≤ ·) = false := by
    rw [Option.any_eq_false]
    intro stop hstop
    simpa using hf.stops stop (by simp [LedgerOp.stops, hstop])
  have hgroup : (f.tradeGroupId.any fun pk : ℕ => ¬Money.FitsInt64 pk) = false := by
    rw [Option.any_eq_false]
    intro pk hpk
    simpa using hf.integers pk (by simp [LedgerOp.bound, bindings, hpk, List.reduceOption])
  rw [SqlHistory.queryOrdersWithIds, hstop, hgroup, hh.ledger.orders.rows,
    select_eq (all_orderConditions f), sortOn_map, InMemoryStore.queryOrdersWithIds]
  rfl

theorem getGroupOrdersWithIds (pk : ℕ) :
    sql.getGroupOrdersWithIds pk =
      (h.store.getGroupOrdersWithIds pk).map fun p => (p.1, p.2.stored) := by
  have hstored : ∀ order : OrderRow, order.stored.tradeGroupId = order.tradeGroupId := fun _ => rfl
  rw [SqlHistory.getGroupOrdersWithIds, hh.ledger.orders.rows, select_eq (all_column hstored pk),
    sortOn_map, InMemoryStore.getGroupOrdersWithIds]
  rfl

theorem getLegsForOrders {orderIds : List ℕ} (hfew : orderIds.length ≤ LedgerOp.maxParameters) :
    sql.getLegsForOrders orderIds =
      .ok ((h.getLegsForOrders orderIds).map LegDetailRow.stored) := by
  have hcond : ∀ leg : LegRow, (([fun leg : LegRow => Truth.test orderIds.contains
      (some leg.orderId)].map fun condition => condition leg.stored).all Truth.holds) =
      orderIds.contains leg.orderId := by
    intro leg
    simp [LegRow.stored]
  unfold SqlHistory.getLegsForOrders SqlHistory.forOrders HistoryStore.getLegsForOrders
  rw [hh.legs.rows, select_eq hcond, if_neg (not_lt.mpr hfew)]
  split
  · rename_i hempty
    obtain rfl := List.isEmpty_iff.mp hempty
    simp
  · rw [List.map_map, sortOn_map, sortOn_map, List.map_map]
    rfl

theorem getFillsForOrders {orderIds : List ℕ} (hfew : orderIds.length ≤ LedgerOp.maxParameters) :
    sql.getFillsForOrders orderIds = .ok ((h.getFillsForOrders orderIds).map FillRow.stored) := by
  have hcond : ∀ fill : FillRow, (([fun fill : FillRow => Truth.test orderIds.contains
      fill.orderId].map fun condition => condition fill.stored).all Truth.holds) =
      fill.orderId.any orderIds.contains := by
    intro fill
    simp [FillRow.stored]
  unfold SqlHistory.getFillsForOrders SqlHistory.forOrders HistoryStore.getFillsForOrders
  rw [hh.fills.rows, select_eq hcond, if_neg (not_lt.mpr hfew)]
  split
  · rename_i hempty
    obtain rfl := List.isEmpty_iff.mp hempty
    have hnone : ∀ column : Option ℕ, column.any ([] : List ℕ).contains = false := by
      intro column
      cases column <;> rfl
    simp [hnone]
  · rw [sortOn_map, List.map_map, List.map_map]
    rfl

omit hh in
/-- Grouping what the columns store is storing what is grouped. -/
theorem withStructure_stored (orders : List (ℕ × OrderRow)) (legs : List LegDetailRow)
    (fills : List FillRow) :
    withStructure (orders.map fun p => (p.1, p.2.stored)) (legs.map LegDetailRow.stored)
      (fills.map FillRow.stored) = (withStructure orders legs fills).map OrderDetail.stored := by
  rw [withStructure_eq, withStructure_eq, List.map_map, List.map_map]
  refine List.map_congr_left fun p _ => ?_
  simp only [Function.comp_apply, OrderDetail.stored, List.filter_map]
  rfl

theorem readStructure {pairs : List (ℕ × OrderRow)}
    (hfew : pairs.length ≤ LedgerOp.maxParameters) :
    sql.readStructure (pairs.map fun p => (p.1, p.2.stored)) =
      .ok ((withStructure pairs (h.getLegsForOrders (pairs.map Prod.fst))
        (h.getFillsForOrders (pairs.map Prod.fst))).map OrderDetail.stored) := by
  have hids : (pairs.map fun p => (p.1, p.2.stored)).map Prod.fst = pairs.map Prod.fst :=
    List.map_map
  have hfew' : (pairs.map Prod.fst).length ≤ LedgerOp.maxParameters := by simpa using hfew
  rw [SqlHistory.readStructure, hids, hh.getLegsForOrders hfew', hh.getFillsForOrders hfew',
    ← withStructure_stored]
  rfl

theorem orderDetails {f : OrderFilter} {pending : String → List String}
    (hf : (LedgerOp.queryOrders f).Accepted pending)
    (hfew : (h.orderDetails f).length ≤ LedgerOp.maxParameters) :
    sql.orderDetails f = .ok ((h.orderDetails f).map OrderDetail.stored) := by
  rw [SqlHistory.orderDetails, hh.queryOrdersWithIds hf]
  exact hh.readStructure (by simpa [HistoryStore.orderDetails, withStructure] using hfew)

theorem tradeStructure {groupId : String}
    (hfew : (h.tradeStructure groupId).length ≤ LedgerOp.maxParameters) :
    sql.tradeStructure groupId = .ok ((h.tradeStructure groupId).map OrderDetail.stored) := by
  unfold SqlHistory.tradeStructure HistoryStore.tradeStructure
  unfold HistoryStore.tradeStructure at hfew
  rw [hh.ledger.getTradeGroupId]
  cases hpk : h.store.getTradeGroupId groupId with
  | none => rfl
  | some pk =>
    rw [hpk] at hfew
    simp only [hh.getGroupOrdersWithIds]
    exact hh.readStructure (by simpa [withStructure] using hfew)

end HistoryAgrees

/-! ## Runs -/

/-- A call of the ledger, or a batch of legs or fills. -/
inductive HistoryCall
  | ledger (call : StoreCall)
  | legs (rows : List LegRow)
  | fills (rows : List FillRow)

/-- The in-memory store after a call. -/
def HistoryStore.after (h : HistoryStore) : HistoryCall → HistoryStore
  | .ledger c => { h with store := (InMemoryStore.step c.op { h.store with clock := c.now }).2 }
  | .legs rows => (h.upsertLegs rows).2
  | .fills rows => h.upsertFills rows

/-- The calls that the two stores understand alike, and whose parameters SQLite's driver takes. -/
def HistoryCall.Portable (h : HistoryStore) : HistoryCall → Prop
  | .ledger c => TtLedger.Portable { h.store with clock := c.now } c.op
  | .legs rows => ∀ leg ∈ rows, ∀ n ∈ leg.bound, Money.FitsInt64 n
  | .fills rows =>
    (∀ fill ∈ rows, ∀ n ∈ fill.bound, Money.FitsInt64 n) ∧
      ∀ fill ∈ rows, fill.orderId.isSome = true

/-- What a call can do to the database; one that raises does nothing. -/
def SqlHistory.Steps (sql : SqlHistory) : HistoryCall → SqlHistory → Prop
  | .ledger c, sql' => ∃ r db', sql.db.Answers c.now c.op r db' ∧ sql' = { sql with db := db' }
  | .legs rows, sql' => sql' = ((sql.upsertLegs rows).toOption.map Prod.snd).getD sql
  | .fills rows, sql' => sql' = ((sql.upsertFills rows).toOption).getD sql

inductive SqlHistory.Runs : SqlHistory → List HistoryCall → SqlHistory → Prop
  | nil (sql : SqlHistory) : Runs sql [] sql
  | cons {sql sql' sql'' : SqlHistory} {c : HistoryCall} {calls : List HistoryCall}
      (step : sql.Steps c sql') (rest : Runs sql' calls sql'') : Runs sql (c :: calls) sql''

/-- Every call is portable in the state in which it is issued. -/
def PortableHistory : List HistoryCall → HistoryStore → Prop
  | [], _ => True
  | c :: calls, h => c.Portable h ∧ PortableHistory calls (h.after c)

section Runs

variable {h : HistoryStore} {sql : SqlHistory}

theorem HistoryAgrees.step (hh : HistoryAgrees h sql) {c : HistoryCall} (hc : c.Portable h) :
    (∃ sql', sql.Steps c sql') ∧ ∀ sql', sql.Steps c sql' → HistoryAgrees (h.after c) sql' := by
  cases c with
  | ledger c =>
    refine ⟨?_, ?_⟩
    · obtain ⟨r, db', hr⟩ := hh.ledger.exists_answers hc
      exact ⟨_, r, db', hr, rfl⟩
    · rintro _ ⟨r, db', hr, rfl⟩
      exact { hh with ledger := (hh.ledger.step hc hr).2 }
  | legs rows =>
    refine ⟨⟨_, rfl⟩, ?_⟩
    rintro _ rfl
    obtain ⟨sql', hwrite, hagree⟩ := hh.upsertLegs hc
    rw [hwrite]
    exact hagree
  | fills rows =>
    refine ⟨⟨_, rfl⟩, ?_⟩
    rintro _ rfl
    obtain ⟨sql', hwrite, hagree⟩ := hh.upsertFills hc.1 hc.2
    rw [hwrite]
    exact hagree

/-- **The structure reads of the two stores**: after every sequence of portable calls and batches of
legs and fills, the SQL store returns the details that the in-memory store does, as the columns
store them and in the same order, whenever the driver takes the filter and the orders are no more
than the parameters of a statement. -/
theorem structure_agrees (hh : HistoryAgrees h sql) {calls : List HistoryCall}
    (hcalls : PortableHistory calls h) :
    (∃ sql', sql.Runs calls sql') ∧ ∀ sql', sql.Runs calls sql' →
      (∀ f, (LedgerOp.queryOrders f).Accepted
          (calls.foldl HistoryStore.after h).store.pendingOrderIds →
        ((calls.foldl HistoryStore.after h).orderDetails f).length ≤ LedgerOp.maxParameters →
        sql'.orderDetails f =
          .ok (((calls.foldl HistoryStore.after h).orderDetails f).map OrderDetail.stored)) ∧
      ∀ groupId,
        ((calls.foldl HistoryStore.after h).tradeStructure groupId).length ≤
            LedgerOp.maxParameters →
        sql'.tradeStructure groupId =
          .ok (((calls.foldl HistoryStore.after h).tradeStructure groupId).map
            OrderDetail.stored) := by
  induction calls generalizing h sql with
  | nil =>
    refine ⟨⟨sql, .nil sql⟩, fun sql' hruns => ?_⟩
    cases hruns
    exact ⟨fun f => hh.orderDetails, fun groupId => hh.tradeStructure⟩
  | cons c calls ih =>
    obtain ⟨hc, hrest⟩ := hcalls
    obtain ⟨⟨sql₁, hstep⟩, hkeeps⟩ := hh.step hc
    constructor
    · obtain ⟨⟨sql', hruns⟩, -⟩ := ih (hkeeps sql₁ hstep) hrest
      exact ⟨sql', .cons hstep hruns⟩
    · intro sql' hruns
      cases hruns with
      | cons hstep' hruns => exact (ih (hkeeps _ hstep') hrest).2 sql' hruns

end Runs

namespace TwoLegs

def legs : List LegRow :=
  [⟨1, 0, "option:A", none, some 1, none, none, none, none⟩,
    ⟨1, 1, "option:B", none, some 2, none, none, none, none⟩]

def fills : List FillRow := [{ fillId := "F-1", orderId := some 1, orderLegId := some 2 }]

/-- An order with two legs, one of them filled. -/
def calls : List HistoryCall :=
  [.ledger ⟨0, .upsertOrders [.placed "main" "O-1"]⟩, .legs legs, .fills fills]

/-- The SQL store can answer these calls, and whatever it answers, it reads the order with its
structure as the in-memory store does. -/
theorem details_agree : (∃ sql', (⟨{}, [], []⟩ : SqlHistory).Runs calls sql') ∧
    ∀ sql', (⟨{}, [], []⟩ : SqlHistory).Runs calls sql' →
      sql'.orderDetails {} = .ok (((calls.foldl HistoryStore.after
        ⟨InMemoryStore.empty 0, .empty _, .empty _⟩).orderDetails {}).map OrderDetail.stored) := by
  have horders : ∀ row ∈ [OrderRow.placed "main" "O-1"], row.ttOrderId ≠ some "" := by decide
  have hagree : HistoryAgrees ⟨InMemoryStore.empty 0, .empty _, .empty _⟩ ⟨{}, [], []⟩ :=
    ⟨agrees_empty 0, .empty, .empty⟩
  have hlegs : ∀ leg ∈ legs, ∀ n ∈ leg.bound, Money.FitsInt64 n := by decide +kernel
  have hfits : ∀ fill ∈ fills, ∀ n ∈ fill.bound, Money.FitsInt64 n := by decide +kernel
  have hfills : ∀ fill ∈ fills, fill.orderId.isSome = true := by decide
  have hcalls : PortableHistory calls ⟨InMemoryStore.empty 0, .empty _, .empty _⟩ :=
    ⟨⟨horders, by decide +kernel⟩, hlegs, ⟨hfits, hfills⟩, trivial⟩
  obtain ⟨hanswered, hreads⟩ := structure_agrees hagree hcalls
  exact ⟨hanswered, fun sql' hruns =>
    (hreads sql' hruns).1 {} (by decide +kernel) (by decide +kernel)⟩

end TwoLegs

end TtLedger
