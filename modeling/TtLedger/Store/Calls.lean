import TtLedger.Foundations.Prog
import TtLedger.Store.Memory

/-!
# The calls of the ledger

The ingest code is written against the store protocol: every `await store.…` is one call, at which
another task may run and which may fail. `LedgerOp` lists these calls, `LedgerProg` is the type of
the programs that issue them, `InMemoryStore.step` is the in-memory store's meaning of each call
and `memory` the handler it gives; the in-memory store itself never fails.
-/

namespace TtLedger

/-- The store calls the ingest code awaits, and the identifiers and clock it reads. -/
inductive LedgerOp
  | upsertOrders (rows : List OrderRow)
  | upsertTransactions (rows : List TxnRow)
  | upsertSecurity (sec : SecurityRow)
  | upsertPositions (rows : List PositionRow)
  | upsertClosedPosition (row : ClosedPositionRow)
  | linkTransactionsToOrders (account : String)
  | linkOrdersToGroups (account : String)
  | linkClosedPositionsToGroups (account : String)
  | upsertTradeGroup (tg : TradeGroupRow)
  | addTradeGroupEvent (ev : EventRow)
  | attachTransactionsToTradeGroup (ttTransactionIds : List String) (tradeGroupId : ℕ)
  | moveTransactionsToGroup (txnIds : List ℕ) (tradeGroupId : Option ℕ)
  | linkTransactionsToPositions (links : List PositionLink)
  | getOrder (ttOrderId : String)
  | queryOrders (f : OrderFilter)
  | getPosition (account securityId : String)
  | getPositionId (account securityId : String)
  | getSecurity (securityId : String)
  | getTradeGroup (groupId : String)
  | getTradeGroupById (tradeGroupId : ℕ)
  | getTradeGroupId (groupId : String)
  | getTransactionsById (txnIds : List ℕ)
  | getGroupTransactions (tradeGroupId : ℕ)
  | unifiedTrades (f : TradeFilter)
  | accountActivity (f : ActivityFilter)
  | uuid4
  | now

namespace LedgerOp

/-- What a call returns. -/
@[reducible] def Reply : LedgerOp → Type
  | upsertOrders _ => List ℕ
  | upsertTransactions _ => Unit
  | upsertSecurity _ => Unit
  | upsertPositions _ => Unit
  | upsertClosedPosition _ => ℕ
  | linkTransactionsToOrders _ => ℕ
  | linkOrdersToGroups _ => ℕ
  | linkClosedPositionsToGroups _ => ℕ
  | upsertTradeGroup _ => ℕ
  | addTradeGroupEvent _ => Unit
  | attachTransactionsToTradeGroup _ _ => ℕ
  | moveTransactionsToGroup _ _ => ℕ
  | linkTransactionsToPositions _ => ℕ
  | getOrder _ => Option OrderRow
  | queryOrders _ => List OrderRow
  | getPosition _ _ => Option PositionRow
  | getPositionId _ _ => Option ℕ
  | getSecurity _ => Option SecurityRow
  | getTradeGroup _ => Option TradeGroupRow
  | getTradeGroupById _ => Option TradeGroupRow
  | getTradeGroupId _ => Option ℕ
  | getTransactionsById _ => List TxnRow
  | getGroupTransactions _ => List TxnRow
  | unifiedTrades _ => List TradeGroupRow
  | accountActivity _ => List ActivityRow
  | uuid4 => String
  | now => Datetime

end LedgerOp

/-- Programs of the ingest code; a failure is its message. -/
abbrev LedgerProg (α : Type) := Prog LedgerOp LedgerOp.Reply String α

/-! ## The calls as programs -/

namespace LedgerStore

/-- Issue one call. -/
abbrev issue (op : LedgerOp) : LedgerProg op.Reply := Prog.invoke op

abbrev upsertOrders (rows : List OrderRow) : LedgerProg (List ℕ) := issue (.upsertOrders rows)

abbrev upsertTransactions (rows : List TxnRow) : LedgerProg Unit :=
  issue (.upsertTransactions rows)

abbrev upsertSecurity (sec : SecurityRow) : LedgerProg Unit := issue (.upsertSecurity sec)

abbrev upsertPositions (rows : List PositionRow) : LedgerProg Unit := issue (.upsertPositions rows)

abbrev upsertClosedPosition (row : ClosedPositionRow) : LedgerProg ℕ :=
  issue (.upsertClosedPosition row)

abbrev linkTransactionsToOrders (account : String) : LedgerProg ℕ :=
  issue (.linkTransactionsToOrders account)

abbrev linkOrdersToGroups (account : String) : LedgerProg ℕ := issue (.linkOrdersToGroups account)

abbrev linkClosedPositionsToGroups (account : String) : LedgerProg ℕ :=
  issue (.linkClosedPositionsToGroups account)

abbrev upsertTradeGroup (tg : TradeGroupRow) : LedgerProg ℕ := issue (.upsertTradeGroup tg)

abbrev addTradeGroupEvent (ev : EventRow) : LedgerProg Unit := issue (.addTradeGroupEvent ev)

abbrev attachTransactionsToTradeGroup (ttTransactionIds : List String) (tradeGroupId : ℕ) :
    LedgerProg ℕ :=
  issue (.attachTransactionsToTradeGroup ttTransactionIds tradeGroupId)

abbrev moveTransactionsToGroup (txnIds : List ℕ) (tradeGroupId : Option ℕ) : LedgerProg ℕ :=
  issue (.moveTransactionsToGroup txnIds tradeGroupId)

abbrev linkTransactionsToPositions (links : List PositionLink) : LedgerProg ℕ :=
  issue (.linkTransactionsToPositions links)

abbrev getOrder (ttOrderId : String) : LedgerProg (Option OrderRow) := issue (.getOrder ttOrderId)

abbrev queryOrders (f : OrderFilter) : LedgerProg (List OrderRow) := issue (.queryOrders f)

abbrev getPosition (account securityId : String) : LedgerProg (Option PositionRow) :=
  issue (.getPosition account securityId)

abbrev getPositionId (account securityId : String) : LedgerProg (Option ℕ) :=
  issue (.getPositionId account securityId)

abbrev getSecurity (securityId : String) : LedgerProg (Option SecurityRow) :=
  issue (.getSecurity securityId)

abbrev getTradeGroup (groupId : String) : LedgerProg (Option TradeGroupRow) :=
  issue (.getTradeGroup groupId)

abbrev getTradeGroupById (tradeGroupId : ℕ) : LedgerProg (Option TradeGroupRow) :=
  issue (.getTradeGroupById tradeGroupId)

abbrev getTradeGroupId (groupId : String) : LedgerProg (Option ℕ) :=
  issue (.getTradeGroupId groupId)

abbrev getTransactionsById (txnIds : List ℕ) : LedgerProg (List TxnRow) :=
  issue (.getTransactionsById txnIds)

abbrev getGroupTransactions (tradeGroupId : ℕ) : LedgerProg (List TxnRow) :=
  issue (.getGroupTransactions tradeGroupId)

abbrev unifiedTrades (f : TradeFilter) : LedgerProg (List TradeGroupRow) :=
  issue (.unifiedTrades f)

abbrev accountActivity (f : ActivityFilter) : LedgerProg (List ActivityRow) :=
  issue (.accountActivity f)

abbrev uuid4 : LedgerProg String := issue .uuid4

abbrev now : LedgerProg Datetime := issue .now

end LedgerStore

/-! ## The in-memory store as a handler -/

/-- The in-memory store's meaning of a call. -/
def InMemoryStore.step : (op : LedgerOp) → InMemoryStore → op.Reply × InMemoryStore
  | .upsertOrders rows, s => s.upsertOrders rows
  | .upsertTransactions rows, s => ((), s.upsertTransactions rows)
  | .upsertSecurity sec, s => ((), s.upsertSecurity sec)
  | .upsertPositions rows, s => ((), s.upsertPositions rows)
  | .upsertClosedPosition row, s => s.upsertClosedPosition row
  | .linkTransactionsToOrders account, s => s.linkTransactionsToOrders account
  | .linkOrdersToGroups account, s => s.linkOrdersToGroups account
  | .linkClosedPositionsToGroups account, s => s.linkClosedPositionsToGroups account
  | .upsertTradeGroup tg, s => s.upsertTradeGroup tg
  | .addTradeGroupEvent ev, s => ((), s.addTradeGroupEvent ev)
  | .attachTransactionsToTradeGroup ids pk, s => s.attachTransactionsToTradeGroup ids pk
  | .moveTransactionsToGroup ids pk, s => s.moveTransactionsToGroup ids pk
  | .linkTransactionsToPositions links, s => s.linkTransactionsToPositions links
  | .getOrder k, s => (s.getOrder k, s)
  | .queryOrders f, s => (s.queryOrders f, s)
  | .getPosition account sid, s => (s.getPosition account sid, s)
  | .getPositionId account sid, s => (s.getPositionId account sid, s)
  | .getSecurity k, s => (s.getSecurity k, s)
  | .getTradeGroup k, s => (s.getTradeGroup k, s)
  | .getTradeGroupById pk, s => (s.getTradeGroupById pk, s)
  | .getTradeGroupId k, s => (s.getTradeGroupId k, s)
  | .getTransactionsById ids, s => (s.getTransactionsById ids, s)
  | .getGroupTransactions pk, s => (s.getGroupTransactions pk, s)
  | .unifiedTrades f, s => (s.unifiedTrades f, s)
  | .accountActivity f, s => (s.accountActivity f, s)
  | .uuid4, s => s.uuid4
  | .now, s => (s.clock, s)

/-- The in-memory store as a handler of the ledger's calls. -/
def memory : Prog.Handler LedgerOp LedgerOp.Reply String InMemoryStore :=
  fun op s => (.ok (s.step op).1, (s.step op).2)

/-- The sequential run of an ingest program on the in-memory store. -/
abbrev exec {α : Type} (p : LedgerProg α) (s : InMemoryStore) : Except String α × InMemoryStore :=
  p.run memory s

/-! ## Running -/

section Exec

variable (s : InMemoryStore)

@[simp] theorem exec_pure {α : Type} (a : α) : exec (pure a : LedgerProg α) s = (.ok a, s) := rfl

theorem exec_bind_eq {α β : Type} (p : LedgerProg α) (f : α → LedgerProg β) :
    exec (p >>= f) s =
      match exec p s with
      | (.ok a, s') => exec (f a) s'
      | (.error e, s') => (.error e, s') := by
  rcases h : exec p s with ⟨e | a, s'⟩
  · exact Prog.run_bind_of_error memory h
  · exact Prog.run_bind_of_ok memory h

theorem exec_bind {α β : Type} {p : LedgerProg α} {f : α → LedgerProg β}
    {s s' : InMemoryStore} {a : α} (h : exec p s = (.ok a, s')) :
    exec (p >>= f) s = exec (f a) s' :=
  Prog.run_bind_of_ok memory h

theorem exec_bind_error {α β : Type} {p : LedgerProg α} {f : α → LedgerProg β}
    {s s' : InMemoryStore} {e : String} (h : exec p s = (.error e, s')) :
    exec (p >>= f) s = (.error e, s') :=
  Prog.run_bind_of_error memory h

@[simp] theorem exec_upsertOrders (rows : List OrderRow) :
    exec (LedgerStore.upsertOrders rows) s =
      (.ok (s.upsertOrders rows).1, (s.upsertOrders rows).2) := rfl

@[simp] theorem exec_upsertTransactions (rows : List TxnRow) :
    exec (LedgerStore.upsertTransactions rows) s = (.ok (), s.upsertTransactions rows) := rfl

@[simp] theorem exec_upsertSecurity (sec : SecurityRow) :
    exec (LedgerStore.upsertSecurity sec) s = (.ok (), s.upsertSecurity sec) := rfl

@[simp] theorem exec_upsertClosedPosition (row : ClosedPositionRow) :
    exec (LedgerStore.upsertClosedPosition row) s =
      (.ok (s.upsertClosedPosition row).1, (s.upsertClosedPosition row).2) := rfl

@[simp] theorem exec_linkTransactionsToOrders (account : String) :
    exec (LedgerStore.linkTransactionsToOrders account) s =
      (.ok (s.linkTransactionsToOrders account).1, (s.linkTransactionsToOrders account).2) := rfl

@[simp] theorem exec_linkOrdersToGroups (account : String) :
    exec (LedgerStore.linkOrdersToGroups account) s =
      (.ok (s.linkOrdersToGroups account).1, (s.linkOrdersToGroups account).2) := rfl

@[simp] theorem exec_linkClosedPositionsToGroups (account : String) :
    exec (LedgerStore.linkClosedPositionsToGroups account) s =
      (.ok (s.linkClosedPositionsToGroups account).1, (s.linkClosedPositionsToGroups account).2) :=
  rfl

@[simp] theorem exec_upsertTradeGroup (tg : TradeGroupRow) :
    exec (LedgerStore.upsertTradeGroup tg) s =
      (.ok (s.upsertTradeGroup tg).1, (s.upsertTradeGroup tg).2) := rfl

@[simp] theorem exec_addTradeGroupEvent (ev : EventRow) :
    exec (LedgerStore.addTradeGroupEvent ev) s = (.ok (), s.addTradeGroupEvent ev) := rfl

@[simp] theorem exec_attachTransactionsToTradeGroup (ids : List String) (pk : ℕ) :
    exec (LedgerStore.attachTransactionsToTradeGroup ids pk) s =
      (.ok (s.attachTransactionsToTradeGroup ids pk).1,
        (s.attachTransactionsToTradeGroup ids pk).2) :=
  rfl

@[simp] theorem exec_moveTransactionsToGroup (ids : List ℕ) (pk : Option ℕ) :
    exec (LedgerStore.moveTransactionsToGroup ids pk) s =
      (.ok (s.moveTransactionsToGroup ids pk).1, (s.moveTransactionsToGroup ids pk).2) := rfl

@[simp] theorem exec_getOrder (k : String) :
    exec (LedgerStore.getOrder k) s = (.ok (s.getOrder k), s) := rfl

@[simp] theorem exec_getSecurity (k : String) :
    exec (LedgerStore.getSecurity k) s = (.ok (s.getSecurity k), s) := rfl

@[simp] theorem exec_getTradeGroup (k : String) :
    exec (LedgerStore.getTradeGroup k) s = (.ok (s.getTradeGroup k), s) := rfl

@[simp] theorem exec_getTradeGroupById (pk : ℕ) :
    exec (LedgerStore.getTradeGroupById pk) s = (.ok (s.getTradeGroupById pk), s) := rfl

@[simp] theorem exec_getTradeGroupId (k : String) :
    exec (LedgerStore.getTradeGroupId k) s = (.ok (s.getTradeGroupId k), s) := rfl

@[simp] theorem exec_getTransactionsById (ids : List ℕ) :
    exec (LedgerStore.getTransactionsById ids) s = (.ok (s.getTransactionsById ids), s) := rfl

@[simp] theorem exec_getGroupTransactions (pk : ℕ) :
    exec (LedgerStore.getGroupTransactions pk) s = (.ok (s.getGroupTransactions pk), s) := rfl

@[simp] theorem exec_unifiedTrades (f : TradeFilter) :
    exec (LedgerStore.unifiedTrades f) s = (.ok (s.unifiedTrades f), s) := rfl

@[simp] theorem exec_accountActivity (f : ActivityFilter) :
    exec (LedgerStore.accountActivity f) s = (.ok (s.accountActivity f), s) := rfl

@[simp] theorem exec_uuid4 :
    exec LedgerStore.uuid4 s = (.ok (s.uuid4).1, (s.uuid4).2) := rfl

@[simp] theorem exec_now :
    exec LedgerStore.now s = (.ok s.clock, s) := rfl

end Exec

end TtLedger
