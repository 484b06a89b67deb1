import TtLedger.Store.SqlLinks

/-!
# The reads of the SQL store

What a statement selects from a database that holds the in-memory store's rows is what the
in-memory store returns, as the columns store it, up to the order of the rows. A look-up by a
natural key finds the row under it. The conditions of a filter are the in-memory store's tests
(`all_onDays`: a calendar window as an interval of instants), and an outer join on a primary key is
a look-up by id (`filter_primaryKey`).
-/

namespace TtLedger

section Reads

variable {s : InMemoryStore} {db : SqlDatabase}

/-! ## Conditions -/

theorem select_eq {T : Type} {store : T → T} {rows : List (ℕ × T)} {conditions : List (T → Truth)}
    {keeps : T → Bool}
    (h : ∀ r, ((conditions.map fun condition => condition (store r)).all Truth.holds) = keeps r) :
    SqlDatabase.select (rows.map fun p => (p.1, store p.2)) conditions =
      (rows.filter fun p => keeps p.2).map fun p => (p.1, store p.2) := by
  rw [SqlDatabase.select, List.filter_map]
  congr 1
  refine List.filter_congr fun p _ => ?_
  rw [Function.comp_apply, Truth.holds_all, h]

@[simp] theorem all_given {T β : Type} (filter : Option β) (condition : β → T → Truth) (r : T) :
    ((SqlDatabase.given filter condition).map fun c => c r).all Truth.holds =
      filter.all fun b => (condition b r).holds := by
  cases filter <;> simp [SqlDatabase.given]

/-- Calendar days, both inclusive, are an interval of instants. -/
@[simp] theorem all_onDays {T : Type} (column : T → Option Datetime) (start stop : Option Date)
    (r : T) : ((SqlDatabase.onDays column start stop).map fun c => c r).all Truth.holds =
      inRange (column r) start stop := by
  rw [SqlDatabase.onDays, List.map_append, List.all_append, all_given, all_given]
  simp only [Truth.holds_test]
  cases column r <;> cases start <;> cases stop <;>
    simp [inRange, dayStart_le_iff, lt_dayStart_add_day_iff]

/-- A condition that a flag asks for: the column is null. -/
@[simp] theorem all_flag {T β : Type} (flag : Bool) (column : T → Option β) (r : T) :
    ((if flag then [fun r : T => some (column r).isNone] else []).map fun c => c r).all
      Truth.holds = !(flag && (column r).isSome) := by
  cases flag <;> cases h : column r <;> simp [Truth.holds, h]

/-- A test of a column without nulls, and of one with. -/
theorem any_eq_all {β : Type} [DecidableEq β] (filter column : Option β) :
    (filter.all fun b => column.any fun a => decide (a = b)) =
      filter.all fun b => decide (column = some b) := by
  cases filter <;> cases column <;> simp

theorem all_orderConditions (f : OrderFilter) (o : OrderRow) :
    ((SqlDatabase.orderConditions f).map fun c => c o.stored).all Truth.holds =
      (f.origin.all (o.origin = ·) && f.account.all (o.account = ·) &&
        f.status.all (o.omsStatus = some ·) && f.underlying.all (o.underlying = some ·) &&
        f.tradeGroupId.all (o.tradeGroupId = some ·) &&
        f.omsOrderId.all (o.omsOrderId = some ·) &&
        !(f.unlinked && o.tradeGroupId.isSome) && inRange o.submittedAt f.start f.stop) := by
  rw [SqlDatabase.orderConditions]
  simp only [List.map_append, List.all_append, all_given, all_onDays, Truth.holds_test,
    all_flag _ OrderRow.tradeGroupId, Option.any_some]
  simp only [any_eq_all]
  rfl

theorem all_tradeConditions (f : TradeFilter) (tg : TradeGroupRow) :
    ((SqlDatabase.tradeConditions f).map fun c => c tg.stored).all Truth.holds =
      (f.origin.all (tg.origin = ·) && f.reviewStatus.all (tg.reviewStatus = ·) &&
        f.status.all (tg.status = ·) && f.account.all (tg.account = ·) &&
        f.underlying.all (tg.underlying = some ·) && inRange tg.executedAt f.start f.stop) := by
  rw [SqlDatabase.tradeConditions]
  simp only [List.map_append, List.all_append, all_given, all_onDays, Truth.holds_test,
    Option.any_some]
  simp only [any_eq_all]
  rfl

theorem all_activityConditions (f : ActivityFilter) (txn : TxnRow) :
    ((SqlDatabase.activityConditions f).map fun c => c txn.stored).all Truth.holds =
      (f.account.all (txn.account = ·) && inRange txn.executedAt f.start f.stop &&
        !(f.unreconciledOnly && txn.orderId.isSome)) := by
  rw [SqlDatabase.activityConditions]
  simp only [List.map_append, List.all_append, all_given, all_onDays, Truth.holds_test,
    all_flag _ TxnRow.orderId, Option.any_some]
  rfl

/-! ## Look-ups -/

/-- The first row whose columns have the values of a natural key is the row under it. -/
theorem Represents.lookup {T κ : Type} [DecidableEq κ] {key : T → Option κ} {store : T → T}
    {t : Table key} {rel : Rows T} (h : Represents store t rel) {conditions : List (T → Truth)}
    {k : κ} (hcond : ∀ r, ((conditions.map fun condition => condition (store r)).all Truth.holds) =
      decide (key r = some k)) :
    (SqlDatabase.select rel conditions).head?.map Prod.snd = (t.getByKey k).map store ∧
      (SqlDatabase.select rel conditions).head?.map Prod.fst = t.idOf k := by
  have hkey : (fun p : ℕ × T => decide (key p.2 = some k)) = fun p => key p.2 == some k := by
    funext p
    rw [beq_eq_decide]
  rw [h.rows, select_eq hcond, List.head?_map, List.head?_filter, hkey, Table.getByKey, Table.idOf]
  cases t.rows.find? fun p => key p.2 == some k <;> exact ⟨rfl, rfl⟩

/-- A condition on a column that the encoding leaves alone. -/
theorem all_column {T β : Type} [DecidableEq β] {column : T → Option β} {store : T → T}
    (hstore : ∀ r, column (store r) = column r) (value : β) (r : T) :
    (([fun r : T => Truth.test (· = value) (column r)].map fun condition =>
      condition (store r)).all Truth.holds) = decide (column r = some value) := by
  simp only [List.map_cons, List.map_nil, List.all_cons, List.all_nil, Bool.and_true,
    Truth.holds_test, hstore]
  cases column r <;> simp

/-- The rows that a join on a primary key finds are the row under it. -/
theorem filter_primaryKey {T κ : Type} {key : T → Option κ} (t : Table key) (store : T → T)
    (column : Option ℕ) :
    ((t.rows.map fun p => (p.1, store p.2)).filter fun p => decide (column = some p.1)) =
      (column.bind fun i => (t.get i).map fun r => (i, store r)).toList := by
  cases column with
  | none => simp
  | some i =>
    have hkey : ((fun p : ℕ × T => decide (some i = some p.1)) ∘ fun p : ℕ × T =>
        (p.1, store p.2)) = fun p => p.1 == i := by
      funext p
      simp [beq_eq_decide, eq_comm]
    rw [List.filter_map, hkey, Rows.filter_primaryKey t.ids_nodup, Option.bind_some, Table.get]
    cases hp : t.rows.find? fun p => p.1 == i with
    | none => rfl
    | some p =>
      have hi : p.1 = i := by simpa using List.find?_some hp
      simp [hi]

namespace Agrees

theorem getOrder (h : Agrees s db) (k : String) :
    (SqlDatabase.first db.orders OrderRow.ttOrderId k).map Prod.snd =
      (s.getOrder k).map OrderRow.stored :=
  (h.orders.lookup (all_column (fun _ => rfl) k)).1

theorem getSecurity (h : Agrees s db) (k : String) :
    (SqlDatabase.first db.securities SecurityRow.key k).map Prod.snd =
      (s.getSecurity k).map SecurityRow.stored :=
  (h.securities.lookup (all_column (fun _ => rfl) k)).1

theorem getTradeGroup (h : Agrees s db) (k : String) :
    (SqlDatabase.first db.tradeGroups TradeGroupRow.key k).map Prod.snd =
      (s.getTradeGroup k).map TradeGroupRow.stored :=
  (h.tradeGroups.lookup (all_column (fun _ => rfl) k)).1

theorem getTradeGroupId (h : Agrees s db) (k : String) :
    (SqlDatabase.first db.tradeGroups TradeGroupRow.key k).map Prod.fst =
      s.getTradeGroupId k :=
  (h.tradeGroups.lookup (all_column (fun _ => rfl) k)).2

theorem getTradeGroupById (h : Agrees s db) (pk : ℕ) :
    (db.tradeGroups.find? fun p => p.1 = pk).map Prod.snd =
      (s.getTradeGroupById pk).map TradeGroupRow.stored := by
  rw [h.tradeGroups.rows, List.find?_map, InMemoryStore.getTradeGroupById, Table.get]
  rw [show ((fun p : ℕ × TradeGroupRow => decide (p.1 = pk)) ∘
    fun p : ℕ × TradeGroupRow => (p.1, p.2.stored)) = fun p => p.1 == pk from rfl]
  cases s.tradeGroups.rows.find? fun p => p.1 == pk <;> rfl

theorem positionAt (h : Agrees s db) (account sid : String) :
    (db.positionAt account sid).map Prod.snd =
        (s.getPosition account sid).map PositionRow.stored ∧
      (db.positionAt account sid).map Prod.fst = s.getPositionId account sid := by
  refine h.positions.lookup fun r => ?_
  rw [Bool.eq_iff_iff]
  simp [PositionRow.key, PositionRow.stored, PositionRow.heldIn]

theorem queryOrders (h : Agrees s db) (f : OrderFilter) :
    (db.queryOrders f).Perm ((s.queryOrders f).map OrderRow.stored) := by
  rw [SqlDatabase.queryOrders, h.orders.rows, select_eq (all_orderConditions f),
    InMemoryStore.queryOrders]
  refine List.Perm.trans ?_ ((perm_sortOn _ _).symm.map _)
  rw [Table.values, List.filter_map, List.map_map, List.map_map]
  exact List.Perm.refl _

theorem unifiedTrades (h : Agrees s db) (f : TradeFilter) :
    db.unifiedTrades f = (s.unifiedTrades f).map TradeGroupRow.stored := by
  rw [SqlDatabase.unifiedTrades, h.tradeGroups.rows, select_eq (all_tradeConditions f),
    InMemoryStore.unifiedTrades, Table.values, List.filter_map, List.map_map, List.map_map]
  rfl

theorem getTransactionsById (h : Agrees s db) (ids : List ℕ) :
    db.getTransactionsById ids = (s.getTransactionsById ids).map TxnRow.stored := by
  rw [SqlDatabase.getTransactionsById, h.transactions.rows, List.filter_map,
    InMemoryStore.getTransactionsById, List.map_map, List.map_map]
  rfl

theorem getGroupTransactions (h : Agrees s db) (pk : ℕ) :
    (db.getGroupTransactions pk).Perm ((s.getGroupTransactions pk).map TxnRow.stored) := by
  have hstored : ∀ txn : TxnRow, txn.stored.tradeGroupId = txn.tradeGroupId := fun _ => rfl
  rw [SqlDatabase.getGroupTransactions, h.transactions.rows, select_eq (all_column hstored pk),
    InMemoryStore.getGroupTransactions]
  refine List.Perm.trans ?_ ((perm_sortOn _ _).symm.map _)
  rw [InMemoryStore.members, Table.values, List.filter_map, List.map_map, List.map_map]
  exact List.Perm.refl _

theorem accountActivity (h : Agrees s db) (f : ActivityFilter) :
    db.accountActivity f = (s.accountActivity f).map ActivityRow.stored := by
  let orderAt (i : ℕ) := (s.orders.get i).map fun order => (i, order.stored)
  let groupAt (i : ℕ) := (s.tradeGroups.get i).map fun group => (i, group.stored)
  have horders : ∀ p : ℕ × TxnRow, (db.orders.filter fun order =>
      decide (p.2.orderId = some order.1)) = (p.2.orderId.bind orderAt).toList := by
    intro p
    rw [h.orders.rows]
    exact filter_primaryKey s.orders OrderRow.stored _
  have hgroups : ∀ j : (ℕ × TxnRow) × Option (ℕ × OrderRow), (db.tradeGroups.filter fun group =>
      decide (j.1.2.tradeGroupId = some group.1)) = (j.1.2.tradeGroupId.bind groupAt).toList := by
    intro j
    rw [h.tradeGroups.rows]
    exact filter_primaryKey s.tradeGroups TradeGroupRow.stored _
  rw [SqlDatabase.accountActivity, h.transactions.rows, select_eq (all_activityConditions f)]
  simp only []
  rw [outerJoin_eq_map fun p _ => horders p, outerJoin_eq_map fun j _ => hgroups j,
    InMemoryStore.accountActivity, Table.values, List.filter_map]
  simp only [List.map_map]
  refine List.map_congr_left fun p _ => ?_
  have horigin : (p.2.orderId.bind orderAt).map (fun order => order.2.origin) =
      (p.2.orderId.bind s.orders.get).map OrderRow.origin := by
    simp only [Option.map_bind]
    refine Option.bind_congr fun i _ => ?_
    simp only [Function.comp_apply, orderAt, Option.map_map]
    rfl
  have hgroup : ((p.2.orderId.bind orderAt).bind fun order => order.2.tradeGroupId) =
      (p.2.orderId.bind s.orders.get).bind OrderRow.tradeGroupId := by
    simp only [Option.bind_assoc]
    refine Option.bind_congr fun i _ => ?_
    simp only [orderAt, Option.bind_map]
    rfl
  have hreview : (p.2.tradeGroupId.bind groupAt).map (fun group => group.2.reviewStatus) =
      (p.2.tradeGroupId.bind s.tradeGroups.get).map TradeGroupRow.reviewStatus := by
    simp only [Option.map_bind]
    refine Option.bind_congr fun i _ => ?_
    simp only [Function.comp_apply, groupAt, Option.map_map]
    rfl
  simp only [Function.comp_apply, InMemoryStore.activityRow, ActivityRow.stored]
  rw [← horigin, ← hgroup, ← hreview]
  rfl

end Agrees

end Reads

end TtLedger
