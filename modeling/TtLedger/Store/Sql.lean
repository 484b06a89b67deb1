import TtLedger.Foundations.Statements
import TtLedger.Store.Bands
import TtLedger.Store.Calls
import TtLedger.Store.Columns
import Mathlib.Data.Int.ConditionallyCompleteOrder

/-!
# The SQL store

`SqlLedgerStore` (`store/sql.py`) on SQLite, its default backend. A `SqlDatabase` is one stored
table for each model; the methods are the statements they execute. What an upsert, an update or a
link step does is a function of the database. A read is what its statement selects: without
`ORDER BY` the rows come in any order, and with it in any order that agrees with it (`Executes`).

SQLite stores a `Money` value in micro-units (`Money.stored`), takes no foreign key into account
and gives a row the primary key one above the largest. Its driver binds integers of 64 bits only and
at most so many parameters to a statement; a call that asks for more raises, and its transaction is
rolled back (`Answers`). Instants are in UTC.
-/

namespace TtLedger

/-! ## What the columns hold -/

def SecurityRow.stored (r : SecurityRow) : SecurityRow := r.heldIn .sqlite

def OrderRow.stored (r : OrderRow) : OrderRow := r.heldIn .sqlite

def TxnRow.stored (r : TxnRow) : TxnRow := r.heldIn .sqlite

def PositionRow.stored (r : PositionRow) : PositionRow := r.heldIn .sqlite

def ClosedPositionRow.stored (r : ClosedPositionRow) : ClosedPositionRow := r.heldIn .sqlite

def TradeGroupRow.stored (r : TradeGroupRow) : TradeGroupRow := r.heldIn .sqlite

def EventRow.stored (r : EventRow) : EventRow := r.heldIn .sqlite

/-- The activity of a stored transaction. -/
def ActivityRow.stored (r : ActivityRow) : ActivityRow :=
  { r with toTxnRow := r.toTxnRow.stored }

/-! ## What the statements bind -/

/-- The integer that a decimal is bound as. -/
def Money.bound (value : Option ℚ) : Option ℤ :=
  (processBindParam moneyScale "sqlite" value).bind Stored.integer?

/-- The integers bound for amounts, numbers and ids. -/
def bindings (amounts : List (Option ℚ)) (numbers : List (Option ℤ)) (ids : List (Option ℕ)) :
    List ℤ :=
  (amounts.map Money.bound ++ numbers ++ ids.map (Option.map Int.ofNat)).reduceOption

def SecurityRow.bound (r : SecurityRow) : List ℤ := bindings [r.strike] [r.multiplier] []

def OrderRow.bound (r : OrderRow) : List ℤ :=
  bindings [r.price, r.stopTrigger, r.averageFillPrice, r.filledQuantity, r.remainingQuantity] []
    [r.strategyId, r.tradeGroupId, r.marketContextId]

def TxnRow.bound (r : TxnRow) : List ℤ :=
  bindings [r.quantity, r.price, r.value, r.netValue, r.commission, r.clearingFees,
      r.regulatoryFees, r.proprietaryIndexOptionFees] []
    [r.orderId, r.orderLegId, r.positionId, r.closedPositionId, r.tradeGroupId]

def PositionRow.bound (r : PositionRow) : List ℤ :=
  bindings [some r.quantity, r.averageOpenPrice, r.markPrice, r.closePrice, r.unrealizedPnl,
      r.realizedDayGain] [some r.multiplier]
    [r.strategyId, r.openingOrderId, r.tradeGroupId]

def ClosedPositionRow.bound (r : ClosedPositionRow) : List ℤ :=
  bindings [some r.quantity, r.averageOpenPrice, r.averageClosePrice, r.realizedPnl, r.fees,
      r.pnlNet] [r.holdingPeriodDays]
    [r.openingOrderId, r.closingOrderId, r.tradeGroupId]

def TradeGroupRow.bound (r : TradeGroupRow) : List ℤ :=
  bindings [r.totalPremium, r.quantity, r.totalFees, r.realizedPnl, r.maxProfit, r.maxLoss,
      r.initialRisk] [] [some r.legCount, r.strategyId]

def EventRow.bound (r : EventRow) : List ℤ :=
  bindings [some r.quantityChange, some r.premiumChange] []
    [some r.tradeGroupId, r.rolledToGroupId, r.orderId]

namespace LedgerOp

/-- The integers that the statements of a call bind. -/
def bound : LedgerOp → List ℤ
  | upsertOrders rows => rows.flatMap OrderRow.bound
  | upsertTransactions rows => rows.flatMap TxnRow.bound
  | upsertSecurity sec => sec.bound
  | upsertPositions rows => rows.flatMap PositionRow.bound
  | upsertClosedPosition row => row.bound
  | upsertTradeGroup tg => tg.bound
  | addTradeGroupEvent ev => ev.bound
  | attachTransactionsToTradeGroup ids pk => if ids.isEmpty then [] else [(pk : ℤ)]
  | moveTransactionsToGroup ids pk =>
    if ids.isEmpty then [] else bindings [] [] (pk :: ids.map some)
  | linkTransactionsToPositions links =>
    bindings [] [] (links.flatMap fun l => [l.positionId, l.closedPositionId])
  | queryOrders f => bindings [] [] [f.tradeGroupId]
  | getTradeGroupById pk => [(pk : ℤ)]
  | getTransactionsById ids => bindings [] [] (ids.map some)
  | getGroupTransactions pk => [(pk : ℤ)]
  | _ => []

/-- The most parameters that a statement of a call binds, when it binds one for each member of a
list; `pending` is what the transactions of an account without an order name. The rows of an upsert
are cut into statements. -/
def parameters (pending : String → List String) : LedgerOp → ℕ
  | linkTransactionsToOrders account => (pending account).eraseDups.length + 1
  | attachTransactionsToTradeGroup ids _ => ids.length + 1
  | moveTransactionsToGroup ids _ => ids.length + 1
  | getTransactionsById ids => ids.length
  | _ => 0

/-- The last days of a call's filter, whose successors it forms. -/
def stops : LedgerOp → List Date
  | queryOrders f => f.stop.toList
  | unifiedTrades f => f.stop.toList
  | accountActivity f => f.stop.toList
  | _ => []

/-- The most parameters of one statement of SQLite. -/
def maxParameters : ℕ := 32766

/-- 9999-12-31 -/
def lastDay : Date := 2932896

/-- The driver takes what a call binds. -/
structure Accepted (pending : String → List String) (op : LedgerOp) : Prop where
  integers : ∀ n ∈ op.bound, Money.FitsInt64 n
  parameters : op.parameters pending ≤ maxParameters
  stops : ∀ stop ∈ op.stops, stop < lastDay

instance (pending : String → List String) (op : LedgerOp) : Decidable (op.Accepted pending) :=
  decidable_of_iff ((∀ n ∈ op.bound, Money.FitsInt64 n) ∧
      op.parameters pending ≤ maxParameters ∧ ∀ stop ∈ op.stops, stop < lastDay)
    ⟨fun h => ⟨h.1, h.2.1, h.2.2⟩, fun h => ⟨h.integers, h.parameters, h.stops⟩⟩

end LedgerOp

/-! ## The database -/

structure SqlDatabase where
  orders : Rows OrderRow := []
  transactions : Rows TxnRow := []
  securities : Rows SecurityRow := []
  positions : Rows PositionRow := []
  closedPositions : Rows ClosedPositionRow := []
  tradeGroups : Rows TradeGroupRow := []
  tradeGroupEvents : Rows EventRow := []

namespace SqlDatabase

/-! ## Upserts -/

/-- Comfortably under the bind-parameter cap of a statement. -/
def maxBindParams : ℕ := 30000

/-- `COALESCE(excluded.c, c)`. -/
def coalesce {α : Type} (excluded present : Option α) : Option α :=
  match excluded with
  | some a => some a
  | none => present

/-- Every column takes the incoming value. -/
def takeExcluded {T : Type} (_ excluded : T) : T := excluded

/-- The linkage columns of an order survive where the incoming row has none. -/
def updateOrder (present excluded : OrderRow) : OrderRow :=
  { excluded with
    omsOrderId := coalesce excluded.omsOrderId present.omsOrderId
    clientOrderId := coalesce excluded.clientOrderId present.clientOrderId
    signalId := coalesce excluded.signalId present.signalId
    traceId := coalesce excluded.traceId present.traceId
    strategyId := coalesce excluded.strategyId present.strategyId
    tradeGroupId := coalesce excluded.tradeGroupId present.tradeGroupId
    marketContextId := coalesce excluded.marketContextId present.marketContextId }

/-- The linkage columns of a transaction survive where the incoming row has none. -/
def updateTransaction (present excluded : TxnRow) : TxnRow :=
  { excluded with
    orderId := coalesce excluded.orderId present.orderId
    orderLegId := coalesce excluded.orderLegId present.orderLegId
    positionId := coalesce excluded.positionId present.positionId
    closedPositionId := coalesce excluded.closedPositionId present.closedPositionId
    tradeGroupId := coalesce excluded.tradeGroupId present.tradeGroupId }

/-- Upsert rows into a table of so many columns, and return their ids in the order of the rows. -/
def upsertInto {T κ : Type} [DecidableEq κ] (key : T → Option κ) (doUpdate : T → T → T)
    (columns : ℕ) (rel : Rows T) (rows : List T) : List ℕ × Rows T :=
  if rows.isEmpty then ([], rel)
  else Rows.insertChunks key doUpdate (max 1 (maxBindParams / max columns 1)) rel rows

variable (db : SqlDatabase)

def upsertOrders (rows : List OrderRow) : List ℕ × SqlDatabase :=
  let u := upsertInto OrderRow.key updateOrder 36 db.orders (rows.map OrderRow.stored)
  (u.1, { db with orders := u.2 })

def upsertTransactions (rows : List TxnRow) : SqlDatabase :=
  { db with transactions :=
      (upsertInto TxnRow.key updateTransaction 32 db.transactions (rows.map TxnRow.stored)).2 }

def upsertSecurity (sec : SecurityRow) : SqlDatabase :=
  { db with securities :=
      (upsertInto SecurityRow.key takeExcluded 17 db.securities [sec.stored]).2 }

def upsertPositions (rows : List PositionRow) : SqlDatabase :=
  { db with positions :=
      (upsertInto PositionRow.key takeExcluded 18 db.positions (rows.map PositionRow.stored)).2 }

/-- There is no unique index: the row is looked up first. `closed_at` must not be null. -/
def upsertClosedPosition (row : ClosedPositionRow) : Except String ℕ × SqlDatabase :=
  match db.closedPositions.find? fun p => p.2.account = row.account &&
      p.2.securityId = row.securityId && p.2.openedAt = row.openedAt &&
      p.2.closedAt = row.closedAt with
  | some p =>
    (.ok p.1, { db with closedPositions :=
      (db.closedPositions.update (fun q => q.1 = p.1) fun _ => row.stored).2 })
  | none =>
    if row.closedAt.isNone then
      (.error "NOT NULL constraint failed: closed_positions.closed_at", db)
    else
      let u := db.closedPositions.insert row.stored
      (.ok u.1, { db with closedPositions := u.2 })

/-- The id of the one row upserted. -/
def upsertTradeGroup (tg : TradeGroupRow) : ℕ × SqlDatabase :=
  let u := upsertInto TradeGroupRow.key takeExcluded 34 db.tradeGroups [tg.stored]
  (u.1.headD 0, { db with tradeGroups := u.2 })

def addTradeGroupEvent (now : Datetime) (ev : EventRow) : SqlDatabase :=
  { db with tradeGroupEvents :=
      (db.tradeGroupEvents.insert
        { ev with eventAt := some (ev.eventAt.getD now) }.stored).2 }

/-! ## Linking and grouping -/

/-- `MIN` of a column, `HAVING` one distinct value. -/
def minHavingOne (column : List ℕ) : Option ℕ :=
  if column.eraseDups.length = 1 then column.min? else none

/-- The orders that the account's transactions put in one group only, with that group. -/
def agreedGroups (account : String) : List (String × ℕ) :=
  let members := db.transactions.filter fun p =>
    p.2.account = account && p.2.tradeGroupId.isSome
  (groupBy (fun p : ℕ × TxnRow => p.2.ttOrderId) members).entries.filterMap fun e =>
    (minHavingOne (e.2.filterMap fun p => p.2.tradeGroupId)).map fun pk => (e.1, pk)

def linkOrdersToGroups (account : String) : ℕ × SqlDatabase :=
  let sub := agreedGroups db account
  let u := db.orders.updateFrom
    (fun p => if p.2.account = account ∧ p.2.tradeGroupId = none then
      (sub.find? fun e => p.2.ttOrderId = some e.1).map Prod.snd else none)
    fun pk order => { order with tradeGroupId := some pk }
  (u.1, { db with orders := u.2 })

def linkClosedPositionsToGroups (account : String) : ℕ × SqlDatabase :=
  let sub := db.orders.filterMap fun p =>
    if p.2.account = account then p.2.tradeGroupId.map fun pk => (p.1, pk) else none
  let u := db.closedPositions.updateFrom
    (fun p => if p.2.account = account ∧ p.2.tradeGroupId = none then
      (sub.find? fun e => p.2.closingOrderId = some e.1).map Prod.snd else none)
    fun pk cp => { cp with tradeGroupId := some pk }
  (u.1, { db with closedPositions := u.2 })

/-- The account's transactions that name an order and are not linked to one. -/
def pendingTransactions (account : String) : List (ℕ × String) :=
  db.transactions.filterMap fun p =>
    if p.2.account = account ∧ p.2.orderId = none then
      p.2.ttOrderId.map fun ttOrderId => (p.1, ttOrderId)
    else none

/-- The keys of the account's orders among those named. -/
def idByTtOrderId (account : String) (ttIds : List String) : Dict String ℕ :=
  Dict.empty.setAll (db.orders.filterMap fun p =>
    if p.2.account = account ∧ p.2.ttOrderId.any ttIds.contains then
      p.2.ttOrderId.map fun ttOrderId => (ttOrderId, p.1)
    else none)

def linkTransactionsToOrders (account : String) : ℕ × SqlDatabase :=
  let pending := pendingTransactions db account
  let ids := idByTtOrderId db account (pending.map Prod.snd)
  let updates := pending.filterMap fun p => (ids.get? p.2).map fun orderId => (p.1, orderId)
  let setOrder (rel : Rows TxnRow) (u : ℕ × ℕ) : Rows TxnRow :=
    (rel.update (fun p => p.1 = u.1) fun txn => { txn with orderId := some u.2 }).2
  (updates.length, { db with transactions := updates.foldl setOrder db.transactions })

/-- One update for each link, in turn. -/
def linkTransactionsToPositions (links : List PositionLink) : ℕ × SqlDatabase :=
  let setLinks (rel : Rows TxnRow) (l : PositionLink) : Rows TxnRow :=
    (rel.update (fun p => p.2.ttTransactionId = l.ttTransactionId) fun txn =>
      { txn with positionId := l.positionId, closedPositionId := l.closedPositionId }).2
  (links.length, { db with transactions := links.foldl setLinks db.transactions })

def attachTransactionsToTradeGroup (ttTransactionIds : List String) (tradeGroupId : ℕ) :
    ℕ × SqlDatabase :=
  if ttTransactionIds.isEmpty then (0, db)
  else
    let u := db.transactions.update (fun p => ttTransactionIds.contains p.2.ttTransactionId)
      fun txn => { txn with tradeGroupId := some tradeGroupId }
    (u.1, { db with transactions := u.2 })

def moveTransactionsToGroup (txnIds : List ℕ) (tradeGroupId : Option ℕ) : ℕ × SqlDatabase :=
  if txnIds.isEmpty then (0, db)
  else
    let u := db.transactions.update (fun p => txnIds.contains p.1)
      fun txn => { txn with tradeGroupId }
    (u.1, { db with transactions := u.2 })

/-! ## Reads -/

/-- The rows a conjunction of conditions is true of. -/
def select {T : Type} (rel : Rows T) (conditions : List (T → Truth)) : Rows T :=
  rel.filter fun p => (Truth.all (conditions.map fun condition => condition p.2)).holds

/-- The condition of a filter, when the filter is given. -/
def given {T β : Type} (filter : Option β) (condition : β → T → Truth) : List (T → Truth) :=
  filter.toList.map condition

/-- A column is within calendar days, both inclusive. -/
def onDays {T : Type} (column : T → Option Datetime) (start stop : Option Date) :
    List (T → Truth) :=
  given start (fun start r => .test (dayStart start ≤ ·) (column r)) ++
    given stop (fun stop r => .test (· < dayStart stop + day) (column r))

def orderConditions (f : OrderFilter) : List (OrderRow → Truth) :=
  given f.origin (fun origin o => .test (· = origin) (some o.origin)) ++
  given f.account (fun account o => .test (· = account) (some o.account)) ++
  given f.status (fun status o => .test (· = status) o.omsStatus) ++
  given f.underlying (fun underlying o => .test (· = underlying) o.underlying) ++
  given f.tradeGroupId (fun tradeGroupId o => .test (· = tradeGroupId) o.tradeGroupId) ++
  given f.omsOrderId (fun omsOrderId o => .test (· = omsOrderId) o.omsOrderId) ++
  (if f.unlinked then [fun o => some o.tradeGroupId.isNone] else []) ++
  onDays OrderRow.submittedAt f.start f.stop

def tradeConditions (f : TradeFilter) : List (TradeGroupRow → Truth) :=
  given f.origin (fun origin tg => .test (· = origin) (some tg.origin)) ++
  given f.reviewStatus (fun status tg => .test (· = status) (some tg.reviewStatus)) ++
  given f.status (fun status tg => .test (· = status) (some tg.status)) ++
  given f.account (fun account tg => .test (· = account) (some tg.account)) ++
  given f.underlying (fun underlying tg => .test (· = underlying) tg.underlying) ++
  onDays TradeGroupRow.executedAt f.start f.stop

def activityConditions (f : ActivityFilter) : List (TxnRow → Truth) :=
  given f.account (fun account txn => .test (· = account) (some txn.account)) ++
  onDays TxnRow.executedAt f.start f.stop ++
  (if f.unreconciledOnly then [fun txn => some txn.orderId.isNone] else [])

def queryOrders (f : OrderFilter) : List OrderRow :=
  (select db.orders (orderConditions f)).map Prod.snd

def unifiedTrades (f : TradeFilter) : List TradeGroupRow :=
  (select db.tradeGroups (tradeConditions f)).map Prod.snd

/-- The transactions, outer-joined to their orders and to their groups. -/
def accountActivity (f : ActivityFilter) : List ActivityRow :=
  let withOrders := outerJoin
    (fun (p : ℕ × TxnRow) (order : ℕ × OrderRow) => decide (p.2.orderId = some order.1))
    (select db.transactions (activityConditions f)) db.orders
  let joined := outerJoin
    (fun (j : (ℕ × TxnRow) × Option (ℕ × OrderRow)) (group : ℕ × TradeGroupRow) =>
      decide (j.1.2.tradeGroupId = some group.1)) withOrders db.tradeGroups
  joined.map fun j =>
    { j.1.1.2 with
      origin := j.1.2.map fun order => order.2.origin
      orderTradeGroupId := j.1.2.bind fun order => order.2.tradeGroupId
      reviewStatus := j.2.map fun group => group.2.reviewStatus }

def getGroupTransactions (tradeGroupId : ℕ) : List TxnRow :=
  (select db.transactions
    [fun txn => .test (· = tradeGroupId) txn.tradeGroupId]).map Prod.snd

def getTransactionsById (txnIds : List ℕ) : List TxnRow :=
  (db.transactions.filter fun p => txnIds.contains p.1).map Prod.snd

/-- The first row that a look-up by a column finds. -/
def first {T β : Type} [DecidableEq β] (rel : Rows T) (column : T → Option β) (value : β) :
    Option (ℕ × T) :=
  (select rel [fun r => .test (· = value) (column r)]).head?

def positionAt (account securityId : String) : Option (ℕ × PositionRow) :=
  (select db.positions [fun r => .test (· = account) (some r.account),
    fun r => .test (· = securityId) (some r.securityId)]).head?

/-- SQLite orders a null before every value. -/
def nullsFirst (executedAt : Option Datetime) : WithBot Datetime := executedAt

/-- What a call whose parameters are accepted may return at the instant `now`, and the database
after it. Identifiers and the clock are not the store's. -/
def Executes (now : Datetime) : (op : LedgerOp) → Except String op.Reply → SqlDatabase → Prop
  | .upsertOrders rows, r, db' =>
    r = .ok (upsertOrders db rows).1 ∧ db' = (upsertOrders db rows).2
  | .upsertTransactions rows, r, db' => r = .ok () ∧ db' = upsertTransactions db rows
  | .upsertSecurity sec, r, db' => r = .ok () ∧ db' = upsertSecurity db sec
  | .upsertPositions rows, r, db' => r = .ok () ∧ db' = upsertPositions db rows
  | .upsertClosedPosition row, r, db' =>
    r = (upsertClosedPosition db row).1 ∧ db' = (upsertClosedPosition db row).2
  | .linkTransactionsToOrders account, r, db' =>
    r = .ok (linkTransactionsToOrders db account).1 ∧
      db' = (linkTransactionsToOrders db account).2
  | .linkOrdersToGroups account, r, db' =>
    r = .ok (linkOrdersToGroups db account).1 ∧ db' = (linkOrdersToGroups db account).2
  | .linkClosedPositionsToGroups account, r, db' =>
    r = .ok (linkClosedPositionsToGroups db account).1 ∧
      db' = (linkClosedPositionsToGroups db account).2
  | .upsertTradeGroup tg, r, db' =>
    r = .ok (upsertTradeGroup db tg).1 ∧ db' = (upsertTradeGroup db tg).2
  | .addTradeGroupEvent ev, r, db' => r = .ok () ∧ db' = addTradeGroupEvent db now ev
  | .attachTransactionsToTradeGroup ids pk, r, db' =>
    r = .ok (attachTransactionsToTradeGroup db ids pk).1 ∧
      db' = (attachTransactionsToTradeGroup db ids pk).2
  | .moveTransactionsToGroup ids pk, r, db' =>
    r = .ok (moveTransactionsToGroup db ids pk).1 ∧
      db' = (moveTransactionsToGroup db ids pk).2
  | .linkTransactionsToPositions links, r, db' =>
    r = .ok (linkTransactionsToPositions db links).1 ∧
      db' = (linkTransactionsToPositions db links).2
  | .getOrder k, r, db' =>
    r = .ok ((first db.orders OrderRow.ttOrderId k).map Prod.snd) ∧ db' = db
  | .queryOrders f, r, db' => (∃ l, r = .ok l ∧ l.Perm (queryOrders db f)) ∧ db' = db
  | .getPosition account sid, r, db' =>
    r = .ok ((positionAt db account sid).map Prod.snd) ∧ db' = db
  | .getPositionId account sid, r, db' =>
    r = .ok ((positionAt db account sid).map Prod.fst) ∧ db' = db
  | .getSecurity k, r, db' =>
    r = .ok ((first db.securities SecurityRow.key k).map Prod.snd) ∧ db' = db
  | .getTradeGroup k, r, db' =>
    r = .ok ((first db.tradeGroups TradeGroupRow.key k).map Prod.snd) ∧ db' = db
  | .getTradeGroupById pk, r, db' =>
    r = .ok ((db.tradeGroups.find? fun p => p.1 = pk).map Prod.snd) ∧ db' = db
  | .getTradeGroupId k, r, db' =>
    r = .ok ((first db.tradeGroups TradeGroupRow.key k).map Prod.fst) ∧ db' = db
  | .getTransactionsById ids, r, db' =>
    (∃ l, r = .ok l ∧ l.Perm (getTransactionsById db ids)) ∧ db' = db
  | .getGroupTransactions pk, r, db' =>
    (∃ l, r = .ok l ∧ l.Perm (getGroupTransactions db pk) ∧
      l.Pairwise fun a b => nullsFirst a.executedAt ≤ nullsFirst b.executedAt) ∧ db' = db
  | .unifiedTrades f, r, db' => (∃ l, r = .ok l ∧ l.Perm (unifiedTrades db f)) ∧ db' = db
  | .accountActivity f, r, db' => (∃ l, r = .ok l ∧ l.Perm (accountActivity db f)) ∧ db' = db
  | .uuid4, _, _ => False
  | .now, _, _ => False

/-- The order ids that the account's transactions without an order name. -/
def pendingOrderIds (account : String) : List String :=
  (pendingTransactions db account).map Prod.snd

/-- What a call may return, and the database after it; a call that the driver does not accept
raises and is rolled back. -/
def Answers (now : Datetime) (op : LedgerOp) (r : Except String op.Reply) (db' : SqlDatabase) :
    Prop :=
  (op.Accepted db.pendingOrderIds → db.Executes now op r db') ∧
    (¬op.Accepted db.pendingOrderIds → (∃ e, r = .error e) ∧ db' = db)

end SqlDatabase

end TtLedger
