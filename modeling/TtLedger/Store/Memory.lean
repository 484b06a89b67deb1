import TtLedger.Foundations.Table
import TtLedger.Foundations.StableSort
import TtLedger.Foundations.Dict
import TtLedger.Rows
import Mathlib.Algebra.Order.Ring.Rat
import Mathlib.Algebra.BigOperators.Group.List.Basic
import Mathlib.Order.WithBot
import Mathlib.Data.Int.Order.Basic

/-!
# The in-memory store

`InMemoryStore` is the ledger's state: one table for each entity, and beside them the two outside
sources the code draws on, the wall clock and the identifiers `uuid4` has handed out. The
definitions below are the methods of the store, as functions from a state to a reply and a state.
Rows read from the store are values: what a caller later does to the store does not change them.
-/

namespace TtLedger

/-! ## Natural keys -/

abbrev OrderRow.key (r : OrderRow) : Option String := r.ttOrderId

abbrev TxnRow.key (r : TxnRow) : Option String := some r.ttTransactionId

abbrev SecurityRow.key (r : SecurityRow) : Option String := some r.securityId

abbrev PositionRow.key (r : PositionRow) : Option (String × String) :=
  some (r.account, r.securityId)

abbrev ClosedPositionRow.key (r : ClosedPositionRow) :
    Option (String × String × Option Datetime × Option Datetime) :=
  some (r.account, r.securityId, r.openedAt, r.closedAt)

abbrev TradeGroupRow.key (r : TradeGroupRow) : Option String := some r.groupId

/-- Events have no natural key: every event is a new row. -/
abbrev EventRow.key (_ : EventRow) : Option Empty := none

structure InMemoryStore where
  orders : Table OrderRow.key
  transactions : Table TxnRow.key
  securities : Table SecurityRow.key
  positions : Table PositionRow.key
  closedPositions : Table ClosedPositionRow.key
  tradeGroups : Table TradeGroupRow.key
  events : Table EventRow.key
  /-- What `datetime.now(UTC)` reads. -/
  clock : Datetime
  /-- Length bound of the identifiers drawn so far. -/
  drawn : ℕ

/-- The time order of rows: undated rows last. -/
def timeKey (executedAt : Option Datetime) : WithTop Datetime := executedAt

/-- `start` and `stop` are calendar days, both inclusive; an undated row is in the open range
only. -/
def inRange (value : Option Datetime) (start stop : Option Date) : Bool :=
  match value with
  | none => start.isNone && stop.isNone
  | some t => start.all (· ≤ Datetime.date t) && stop.all (Datetime.date t ≤ ·)

@[simp] theorem inRange_none (value : Option Datetime) : inRange value none none = true := by
  cases value <;> rfl

namespace InMemoryStore

/-- The store of a new ledger. -/
def empty (clock : Datetime) : InMemoryStore where
  orders := .empty _
  transactions := .empty _
  securities := .empty _
  positions := .empty _
  closedPositions := .empty _
  tradeGroups := .empty _
  events := .empty _
  clock := clock
  drawn := 0

/-! ## Writes -/

/-- A resync of an order keeps the host's enrichment columns it does not set. -/
def preserveOrder (existing row : OrderRow) : OrderRow :=
  { row with
    omsOrderId := row.omsOrderId <|> existing.omsOrderId
    clientOrderId := row.clientOrderId <|> existing.clientOrderId
    signalId := row.signalId <|> existing.signalId
    traceId := row.traceId <|> existing.traceId
    strategyId := row.strategyId <|> existing.strategyId
    tradeGroupId := row.tradeGroupId <|> existing.tradeGroupId
    marketContextId := row.marketContextId <|> existing.marketContextId }

def upsertOrder (s : InMemoryStore) (row : OrderRow) : ℕ × InMemoryStore :=
  let existing := if truthy row.ttOrderId then row.ttOrderId.bind s.orders.getByKey else none
  let row := match existing with
    | some existing => preserveOrder existing row
    | none => row
  let r := s.orders.upsert row
  (r.1, { s with orders := r.2 })

def upsertOrders (s : InMemoryStore) (rows : List OrderRow) : List ℕ × InMemoryStore :=
  rows.foldl (fun r row => let u := upsertOrder r.2 row; (r.1 ++ [u.1], u.2)) ([], s)

/-- A re-imported transaction keeps the linkage columns it does not set. -/
def preserveTransaction (existing row : TxnRow) : TxnRow :=
  { row with
    orderId := row.orderId <|> existing.orderId
    orderLegId := row.orderLegId <|> existing.orderLegId
    positionId := row.positionId <|> existing.positionId
    closedPositionId := row.closedPositionId <|> existing.closedPositionId
    tradeGroupId := row.tradeGroupId <|> existing.tradeGroupId }

def upsertTransaction (s : InMemoryStore) (row : TxnRow) : InMemoryStore :=
  let row := match s.transactions.getByKey row.ttTransactionId with
    | some existing => preserveTransaction existing row
    | none => row
  { s with transactions := (s.transactions.upsert row).2 }

def upsertTransactions (s : InMemoryStore) (rows : List TxnRow) : InMemoryStore :=
  rows.foldl upsertTransaction s

def upsertSecurity (s : InMemoryStore) (sec : SecurityRow) : InMemoryStore :=
  { s with securities := (s.securities.upsert sec).2 }

def upsertPositions (s : InMemoryStore) (rows : List PositionRow) : InMemoryStore :=
  { s with positions := rows.foldl (fun positions row => (positions.upsert row).2) s.positions }

def upsertClosedPosition (s : InMemoryStore) (row : ClosedPositionRow) : ℕ × InMemoryStore :=
  let r := s.closedPositions.upsert row
  (r.1, { s with closedPositions := r.2 })

def upsertTradeGroup (s : InMemoryStore) (tg : TradeGroupRow) : ℕ × InMemoryStore :=
  let r := s.tradeGroups.upsert tg
  (r.1, { s with tradeGroups := r.2 })

def addTradeGroupEvent (s : InMemoryStore) (ev : EventRow) : InMemoryStore :=
  let ev := { ev with eventAt := some (ev.eventAt.getD s.clock) }
  { s with events := (s.events.upsert ev).2 }

/-! ## Linking and grouping -/

/-- The surrogate id of the order a transaction of `account` names, when that order is the
account's too. -/
def orderOf (s : InMemoryStore) (account : String) (txn : TxnRow) : Option ℕ :=
  match txn.ttOrderId with
  | none => none
  | some ttOrderId =>
    match s.orders.getByKey ttOrderId with
    | none => none
    | some order => if order.account = account then s.orders.idOf ttOrderId else none

/-- Whether the link step gives the transaction its order. -/
def linksTransaction (s : InMemoryStore) (account : String) (txn : TxnRow) : Bool :=
  txn.account = account && txn.orderId.isNone && (s.orderOf account txn).isSome

def linkTransactionsToOrders (s : InMemoryStore) (account : String) : ℕ × InMemoryStore :=
  (s.transactions.values.countP (s.linksTransaction account),
    { s with
      transactions := s.transactions.modify
        (fun txn => if s.linksTransaction account txn then
          { txn with orderId := s.orderOf account txn } else txn)
        (fun txn => by split <;> rfl) })

/-- The distinct groups of the account's transactions that name an order. -/
def groupsOfOrder (s : InMemoryStore) (account ttOrderId : String) : List ℕ :=
  ((s.transactions.values.filter fun txn =>
    txn.account = account ∧ txn.ttOrderId = some ttOrderId).filterMap TxnRow.tradeGroupId).eraseDups

/-- The one group an order without a group takes from its transactions. -/
def groupForOrder (s : InMemoryStore) (account : String) (order : OrderRow) : Option ℕ :=
  if order.account = account ∧ order.tradeGroupId = none ∧ truthy order.ttOrderId then
    match order.ttOrderId.map (s.groupsOfOrder account) with
    | some [pk] => some pk
    | _ => none
  else none

def linkOrdersToGroups (s : InMemoryStore) (account : String) : ℕ × InMemoryStore :=
  (s.orders.values.countP fun order => (s.groupForOrder account order).isSome,
    { s with
      orders := s.orders.modify
        (fun order => { order with
          tradeGroupId := order.tradeGroupId <|> s.groupForOrder account order })
        (fun _ => rfl) })

/-- The group a closed position without one takes from its closing order. -/
def groupForClosedPosition (s : InMemoryStore) (account : String) (cp : ClosedPositionRow) :
    Option ℕ :=
  if cp.account = account ∧ cp.tradeGroupId = none then
    (cp.closingOrderId.bind s.orders.get).bind OrderRow.tradeGroupId
  else none

def linkClosedPositionsToGroups (s : InMemoryStore) (account : String) : ℕ × InMemoryStore :=
  (s.closedPositions.values.countP fun cp => (s.groupForClosedPosition account cp).isSome,
    { s with
      closedPositions := s.closedPositions.modify
        (fun cp => { cp with
          tradeGroupId := cp.tradeGroupId <|> s.groupForClosedPosition account cp })
        (fun _ => rfl) })

def attachTransactionsToTradeGroup (s : InMemoryStore) (ttTransactionIds : List String)
    (tradeGroupId : ℕ) : ℕ × InMemoryStore :=
  (s.transactions.values.countP fun txn => ttTransactionIds.contains txn.ttTransactionId,
    { s with
      transactions := s.transactions.modify
        (fun txn => if txn.ttTransactionId ∈ ttTransactionIds then
          { txn with tradeGroupId := some tradeGroupId } else txn)
        (fun txn => by split <;> rfl) })

/-- The rows under the given surrogate ids take a group, or lose theirs. -/
def moveTransactionsToGroup (s : InMemoryStore) (txnIds : List ℕ) (tradeGroupId : Option ℕ) :
    ℕ × InMemoryStore :=
  let ids := (s.transactions.rows.filter fun p => txnIds.contains p.1).map fun p =>
    p.2.ttTransactionId
  (ids.length,
    { s with
      transactions := s.transactions.modify
        (fun txn => if txn.ttTransactionId ∈ ids then { txn with tradeGroupId } else txn)
        (fun txn => by split <;> rfl) })

/-- The links by transaction; the last one of a transaction counts. -/
def linksById (links : List PositionLink) : Dict String (Option ℕ × Option ℕ) :=
  links.foldl (fun d l => d.set l.ttTransactionId (l.positionId, l.closedPositionId)) .empty

/-- A transaction with the links of its id. -/
def relink (links : List PositionLink) (txn : TxnRow) : TxnRow :=
  match (linksById links).get? txn.ttTransactionId with
  | some (positionId, closedPositionId) => { txn with positionId, closedPositionId }
  | none => txn

theorem ttTransactionId_relink (links : List PositionLink) (txn : TxnRow) :
    (relink links txn).ttTransactionId = txn.ttTransactionId := by
  unfold relink
  split <;> rfl

def linkTransactionsToPositions (s : InMemoryStore) (links : List PositionLink) :
    ℕ × InMemoryStore :=
  (s.transactions.values.countP fun txn => ((linksById links).get? txn.ttTransactionId).isSome,
    { s with
      transactions := s.transactions.modify (relink links) fun txn => by
        rw [TxnRow.key, TxnRow.key, ttTransactionId_relink] })

/-! ## Reads -/

def getOrder (s : InMemoryStore) (ttOrderId : String) : Option OrderRow :=
  s.orders.getByKey ttOrderId

def getPosition (s : InMemoryStore) (account securityId : String) : Option PositionRow :=
  s.positions.getByKey (account, securityId)

def getPositionId (s : InMemoryStore) (account securityId : String) : Option ℕ :=
  s.positions.idOf (account, securityId)

def getSecurity (s : InMemoryStore) (securityId : String) : Option SecurityRow :=
  s.securities.getByKey securityId

def getTradeGroup (s : InMemoryStore) (groupId : String) : Option TradeGroupRow :=
  s.tradeGroups.getByKey groupId

def getTradeGroupById (s : InMemoryStore) (tradeGroupId : ℕ) : Option TradeGroupRow :=
  s.tradeGroups.get tradeGroupId

def getTradeGroupId (s : InMemoryStore) (groupId : String) : Option ℕ :=
  s.tradeGroups.idOf groupId

def getTransactionsById (s : InMemoryStore) (txnIds : List ℕ) : List TxnRow :=
  (s.transactions.rows.filter fun p => txnIds.contains p.1).map Prod.snd

/-- The members of a group, in the order of the table. -/
def members (s : InMemoryStore) (tradeGroupId : ℕ) : List TxnRow :=
  s.transactions.values.filter fun txn => txn.tradeGroupId = some tradeGroupId

def getGroupTransactions (s : InMemoryStore) (tradeGroupId : ℕ) : List TxnRow :=
  sortOn (fun txn => timeKey txn.executedAt) (s.members tradeGroupId)

/-- The orders a filter selects, in the order they were received. -/
def queryOrders (s : InMemoryStore) (f : OrderFilter) : List OrderRow :=
  sortOn (fun order => timeKey order.receivedAt) (s.orders.values.filter fun order =>
    f.origin.all (order.origin = ·) && f.account.all (order.account = ·) &&
      f.status.all (order.omsStatus = some ·) && f.underlying.all (order.underlying = some ·) &&
      f.tradeGroupId.all (order.tradeGroupId = some ·) &&
      f.omsOrderId.all (order.omsOrderId = some ·) &&
      !(f.unlinked && order.tradeGroupId.isSome) && inRange order.submittedAt f.start f.stop)

/-- The groups a filter selects; the rows stand for their read shapes. -/
def unifiedTrades (s : InMemoryStore) (f : TradeFilter) : List TradeGroupRow :=
  s.tradeGroups.values.filter fun tg =>
    f.origin.all (tg.origin = ·) && f.reviewStatus.all (tg.reviewStatus = ·) &&
      f.status.all (tg.status = ·) && f.account.all (tg.account = ·) &&
      f.underlying.all (tg.underlying = some ·) && inRange tg.executedAt f.start f.stop

/-- A transaction with what its order and its group add. -/
def activityRow (s : InMemoryStore) (txn : TxnRow) : ActivityRow :=
  let order := txn.orderId.bind s.orders.get
  { txn with
    origin := order.map OrderRow.origin
    orderTradeGroupId := order.bind OrderRow.tradeGroupId
    reviewStatus := (txn.tradeGroupId.bind s.tradeGroups.get).map TradeGroupRow.reviewStatus }

def accountActivity (s : InMemoryStore) (f : ActivityFilter) : List ActivityRow :=
  (s.transactions.values.filter fun txn =>
    f.account.all (txn.account = ·) && inRange txn.executedAt f.start f.stop &&
      !(f.unreconciledOnly && txn.orderId.isSome)).map s.activityRow

/-- An account's activity is its transactions. -/
theorem toTxnRow_accountActivity (s : InMemoryStore) (account : String) :
    (s.accountActivity { account := some account }).map ActivityRow.toTxnRow =
      s.transactions.values.filter fun txn => txn.account = account := by
  rw [accountActivity, List.map_map]
  simp only [Option.all_some, inRange_none, Bool.and_true, Bool.false_and, Bool.not_false]
  exact List.map_id _

/-- The sum of `value` over an account's transactions. -/
def transactionValueTotal (s : InMemoryStore) (account : String) : ℚ :=
  ((s.transactions.values.filter fun txn => txn.account = account).filterMap TxnRow.value).sum

/-! ## Outside sources -/

/-- An identifier no group has and that has not been drawn before. -/
def freshGroupId (s : InMemoryStore) : String :=
  String.ofList (List.replicate
    (s.tradeGroups.values.foldl (fun n tg => max n tg.groupId.length) s.drawn + 1) 'x')

def uuid4 (s : InMemoryStore) : String × InMemoryStore :=
  (s.freshGroupId, { s with drawn := s.freshGroupId.length })

/-! ## Seeded stores -/

/-- The store of a ledger whose securities, orders and transactions are in place. -/
def seeded (securities : List SecurityRow) (orders : List OrderRow) (fills : List TxnRow) :
    InMemoryStore :=
  (((securities.foldl upsertSecurity (empty 0)).upsertOrders orders).2).upsertTransactions fills

end InMemoryStore

/-- A broker order of an account. -/
def OrderRow.placed (account ttOrderId : String) : OrderRow where
  ttOrderId := some ttOrderId
  account
  origin := .broker
  ingest := .orderHistory

/-- A trade of an account under an order. -/
def TxnRow.fill (account ttTransactionId ttOrderId action securityId : String) (quantity : ℚ)
    (executedAt : Datetime) : TxnRow where
  ttTransactionId
  ttOrderId := some ttOrderId
  account
  transactionType := some "Trade"
  action := some action
  securityId := some securityId
  quantity := some quantity
  netValue := some 0
  executedAt := some executedAt

end TtLedger
