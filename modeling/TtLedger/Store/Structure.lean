import TtLedger.Ingest.OrderHistory
import TtLedger.Store.SqlReads

/-!
# Orders with their structure

`LedgerClient.order_details` and `LedgerClient.trade_structure` (`sdk.py`) read orders with their
legs and fills: the orders under their ids, all legs and all fills of these orders in one read each,
and the two grouped by order. The reads are those of the two stores; every `ORDER BY` ends with a
unique column, so there is one arrangement of the rows. On SQLite a read of the legs or fills of
more orders than a statement binds parameters raises.
-/

namespace TtLedger

/-! ## Read shapes -/

/-- A stored leg with its id. -/
structure LegDetailRow where
  id : ℕ
  orderId : ℕ
  legIndex : ℕ
  securityId : String
  action : Option String := none
  quantity : Option ℚ := none
  remainingQuantity : Option ℚ := none
  quantityDirection : Option String := none
  price : Option ℚ := none
  fillPrice : Option ℚ := none

def LegRow.detail (id : ℕ) (leg : LegRow) : LegDetailRow where
  id
  orderId := leg.orderId
  legIndex := leg.legIndex
  securityId := leg.securityId
  action := leg.action
  quantity := leg.quantity
  remainingQuantity := leg.remainingQuantity
  quantityDirection := leg.quantityDirection
  price := leg.price
  fillPrice := leg.fillPrice

/-- An order with its legs and fills. -/
structure OrderDetail where
  orderPk : ℕ
  order : OrderRow
  legs : List LegDetailRow
  fills : List FillRow

/-- Oldest first, undated last, then by id. -/
def oldestFirst (at_ : Option Datetime) (id : ℕ) : WithTop Datetime ×ₗ ℕ := toLex (timeKey at_, id)

/-- By order, then by place in the order. -/
def LegDetailRow.place (leg : LegDetailRow) : ℕ ×ₗ ℕ := toLex (leg.orderId, leg.legIndex)

/-! ## The in-memory store -/

/-- The orders that a filter keeps. -/
def OrderFilter.keeps (f : OrderFilter) (order : OrderRow) : Bool :=
  f.origin.all (order.origin = ·) && f.account.all (order.account = ·) &&
    f.status.all (order.omsStatus = some ·) && f.underlying.all (order.underlying = some ·) &&
    f.tradeGroupId.all (order.tradeGroupId = some ·) &&
    f.omsOrderId.all (order.omsOrderId = some ·) &&
    !(f.unlinked && order.tradeGroupId.isSome) && inRange order.submittedAt f.start f.stop

namespace InMemoryStore

def queryOrdersWithIds (s : InMemoryStore) (f : OrderFilter) : List (ℕ × OrderRow) :=
  sortOn (fun p => oldestFirst p.2.receivedAt p.1) (s.orders.rows.filter fun p => f.keeps p.2)

def getGroupOrdersWithIds (s : InMemoryStore) (tradeGroupId : ℕ) : List (ℕ × OrderRow) :=
  sortOn (fun p => oldestFirst p.2.receivedAt p.1)
    (s.orders.rows.filter fun p => p.2.tradeGroupId = some tradeGroupId)

end InMemoryStore

namespace HistoryStore

def getLegsForOrders (h : HistoryStore) (orderIds : List ℕ) : List LegDetailRow :=
  sortOn LegDetailRow.place
    ((h.legs.rows.filter fun p => orderIds.contains p.2.orderId).map fun p => p.2.detail p.1)

def getFillsForOrders (h : HistoryStore) (orderIds : List ℕ) : List FillRow :=
  (sortOn (fun p => oldestFirst p.2.filledAt p.1)
    (h.fills.rows.filter fun p => p.2.orderId.any orderIds.contains)).map Prod.snd

end HistoryStore

/-! ## The client -/

/-- Orders with the legs and fills that are theirs. -/
def withStructure (orders : List (ℕ × OrderRow)) (legs : List LegDetailRow)
    (fills : List FillRow) : List OrderDetail :=
  let legsByOrder := groupBy (fun leg : LegDetailRow => some leg.orderId) legs
  let fillsByOrder := groupBy FillRow.orderId fills
  orders.map fun p =>
    ⟨p.1, p.2, (legsByOrder.get? p.1).getD [], (fillsByOrder.get? p.1).getD []⟩

namespace HistoryStore

def orderDetails (h : HistoryStore) (f : OrderFilter) : List OrderDetail :=
  let pairs := h.store.queryOrdersWithIds f
  withStructure pairs (h.getLegsForOrders (pairs.map Prod.fst))
    (h.getFillsForOrders (pairs.map Prod.fst))

def tradeStructure (h : HistoryStore) (groupId : String) : List OrderDetail :=
  match h.store.getTradeGroupId groupId with
  | none => []
  | some pk =>
    let orders := h.store.getGroupOrdersWithIds pk
    withStructure orders (h.getLegsForOrders (orders.map Prod.fst))
      (h.getFillsForOrders (orders.map Prod.fst))

end HistoryStore

/-! ## The SQL store -/

def LegRow.stored (r : LegRow) : LegRow :=
  { r with
    quantity := r.quantity.map Money.stored
    remainingQuantity := r.remainingQuantity.map Money.stored
    price := r.price.map Money.stored
    fillPrice := r.fillPrice.map Money.stored }

def FillRow.stored (r : FillRow) : FillRow :=
  { r with
    quantity := r.quantity.map Money.stored
    fillPrice := r.fillPrice.map Money.stored }

def LegRow.bound (r : LegRow) : List ℤ :=
  bindings [r.quantity, r.remainingQuantity, r.price, r.fillPrice] []
    [some r.orderId, some r.legIndex]

def FillRow.bound (r : FillRow) : List ℤ :=
  bindings [r.quantity, r.fillPrice] [] [r.orderId, r.orderLegId]

/-- The database with its tables of legs and fills. -/
structure SqlHistory where
  db : SqlDatabase
  legs : Rows LegRow
  fills : Rows FillRow

namespace SqlHistory

variable (h : SqlHistory)

/-- What `sqlite3` says of an integer of more than 64 bits. -/
def tooLarge : String := "Python int too large to convert to SQLite INTEGER"

def queryOrdersWithIds (f : OrderFilter) : Except String (List (ℕ × OrderRow)) :=
  if f.stop.any (LedgerOp.lastDay ≤ ·) then .error "date value out of range"
  else if f.tradeGroupId.any fun pk : ℕ => ¬Money.FitsInt64 pk then .error tooLarge
  else .ok (sortOn (fun p => oldestFirst p.2.receivedAt p.1)
    (SqlDatabase.select h.db.orders (SqlDatabase.orderConditions f)))

def getGroupOrdersWithIds (tradeGroupId : ℕ) : List (ℕ × OrderRow) :=
  sortOn (fun p => oldestFirst p.2.receivedAt p.1)
    (SqlDatabase.select h.db.orders [fun o => .test (· = tradeGroupId) o.tradeGroupId])

/-- A read of the rows of some orders: none for no orders, and no more than one statement takes. -/
def forOrders {α : Type} (orderIds : List ℕ) (rows : List α) : Except String (List α) :=
  if orderIds.isEmpty then .ok []
  else if LedgerOp.maxParameters < orderIds.length then .error "too many SQL variables"
  else .ok rows

def getLegsForOrders (orderIds : List ℕ) : Except String (List LegDetailRow) :=
  forOrders orderIds (sortOn LegDetailRow.place
    ((SqlDatabase.select h.legs [fun leg => .test orderIds.contains (some leg.orderId)]).map
      fun p => p.2.detail p.1))

def getFillsForOrders (orderIds : List ℕ) : Except String (List FillRow) :=
  forOrders orderIds ((sortOn (fun p => oldestFirst p.2.filledAt p.1)
    (SqlDatabase.select h.fills [fun fill => .test orderIds.contains fill.orderId])).map Prod.snd)

def upsertLegs (rows : List LegRow) : Except String (List ℕ × SqlHistory) :=
  if rows.any fun leg => leg.bound.any fun n => ¬Money.FitsInt64 n then .error tooLarge
  else
    let u := SqlDatabase.upsertInto LegRow.key SqlDatabase.takeExcluded 12 h.legs
      (rows.map LegRow.stored)
    .ok (u.1, { h with legs := u.2 })

/-- The order of a fill must not be null. -/
def upsertFills (rows : List FillRow) : Except String SqlHistory :=
  if rows.any fun fill => fill.bound.any fun n => ¬Money.FitsInt64 n then .error tooLarge
  else if rows.any fun fill => fill.orderId.isNone then
    .error "NOT NULL constraint failed: order_fills.order_id"
  else .ok { h with fills := (SqlDatabase.upsertInto FillRow.key SqlDatabase.takeExcluded 11 h.fills
      (rows.map FillRow.stored)).2 }

/-- The orders with their legs and fills, read. -/
def readStructure (pairs : List (ℕ × OrderRow)) : Except String (List OrderDetail) := do
  let legs ← h.getLegsForOrders (pairs.map Prod.fst)
  let fills ← h.getFillsForOrders (pairs.map Prod.fst)
  pure (withStructure pairs legs fills)

def orderDetails (f : OrderFilter) : Except String (List OrderDetail) := do
  h.readStructure (← h.queryOrdersWithIds f)

def tradeStructure (groupId : String) : Except String (List OrderDetail) :=
  match (SqlDatabase.first h.db.tradeGroups TradeGroupRow.key groupId).map Prod.fst with
  | none => .ok []
  | some pk => h.readStructure (h.getGroupOrdersWithIds pk)

end SqlHistory

end TtLedger
