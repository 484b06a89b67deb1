import TtLedger.Ingest.Rebuild
import TtLedger.Ingest.Reconcile
import TtLedger.Store.Columns

/-!
# Rebuilding an account

`rebuildForAccount` walks the transactions of an account one security at a time and writes what
the walk finds: the position, the completed lifecycles and, for every transaction, what it fed or
closed. `rebuildPositionsFromTransactions` runs it for one account or for all with activity.

The SQL store differs from the in-memory store in what its money columns hold of a row and in
three of the calls involved: the order in which it returns an account's rows, how it writes a
completed lifecycle, and which closed positions take the group of their closing order
(`SqlLedgerStore.handler`).
-/

namespace TtLedger

open LedgerStore

/-! ## One security -/

/-- The rows of an account that affect a position, by security. -/
def bySecurity (rows : List TxnRow) : Dict String (List TxnRow) :=
  groupBy TxnRow.securityId (rows.filter TxnRow.isReplayed)

/-- The account's own latest activity, which stands for the present. -/
def latestReplayed (rows : List TxnRow) : Option Datetime :=
  lastExecutedAt ((bySecurity rows).entries.flatMap Prod.snd)

/-- The position and the plan of a security: the walk, with the lapse backstop behind it. -/
def securityPlan (account securityId : String) (multiplier : Int) (expiry : Option Date)
    (lastActivity : Option Datetime) (rows : List TxnRow) (existing : Option PositionRow) :
    PositionRow × List PlanEntry :=
  let replayed := replaySecurity account securityId (sortOn replayKey rows) multiplier existing
  lapseExpiredLot account securityId replayed.1 replayed.2 expiry multiplier lastActivity

/-- Write the lifecycle of a plan entry and note what its transaction is linked to. -/
def writeEntry (positionId : Option ℕ) (links : List PositionLink) (entry : PlanEntry) :
    LedgerProg (List PositionLink) := do
  let positionId := if entry.marksOpen then positionId else none
  match entry.closedRow with
  | none => pure (links ++ [⟨entry.ttTransactionId, positionId, none⟩])
  | some row =>
    let closedPositionId ← upsertClosedPosition row
    pure (links ++ [⟨entry.ttTransactionId, positionId, some closedPositionId⟩])

/-- Rebuild one security of an account. -/
def rebuildSecurity (account : String) (lastActivity : Option Datetime)
    (e : String × List TxnRow) : LedgerProg Unit := do
  let multiplier ← multiplierOf <$> getSecurity e.1
  let sec ← getSecurity e.1
  let existing ← getPosition account e.1
  let plan := securityPlan account e.1 multiplier (sec.bind SecurityRow.expiry) lastActivity e.2
    existing
  upsertPositions [plan.1]
  let positionId ← getPositionId account e.1
  let links ← plan.2.foldlM (writeEntry positionId) []
  let _ ← linkTransactionsToPositions links

/-! ## Accounts -/

/-- Rebuild the positions of an account; the number of its securities. -/
def rebuildForAccount (account : String) : LedgerProg ℕ := do
  let activity ← accountActivity { account := some account }
  let rows := activity.map ActivityRow.toTxnRow
  (bySecurity rows).entries.forM (rebuildSecurity account (latestReplayed rows))
  pure (bySecurity rows).entries.length

/-- Rebuild an account into the result; a failure is recorded. -/
def rebuildInto (result : SyncResult) (account : String) : LedgerProg SyncResult :=
  Prog.tryCatch
    (do
      let positions ← rebuildForAccount account
      pure { result with positions := result.positions + positions })
    fun e => pure { result with errors := result.errors ++ [account ++ ": " ++ e] }

/-- Rebuild one account, or every account with activity. -/
def rebuildPositionsFromTransactions (account : Option String) : LedgerProg SyncResult := do
  let accounts ← accountsOf account none
  accounts.foldlM rebuildInto {}

/-! ## The SQL store -/

namespace SqlLedgerStore

/-- `closed_positions` has no unique constraint: the row with the same key is selected first, and
then updated, or the new row is inserted. -/
def upsertClosedPosition (s : InMemoryStore) (row : ClosedPositionRow) : ℕ × InMemoryStore :=
  match s.closedPositions.rows.find? fun p =>
    p.2.account = row.account ∧ p.2.securityId = row.securityId ∧
      p.2.openedAt = row.openedAt ∧ p.2.closedAt = row.closedAt with
  | some existing => (existing.1, { s with closedPositions := s.closedPositions.overwrite row })
  | none => s.upsertClosedPosition row

/-- The group of the closing order, when the order is the account's. -/
def groupForClosedPosition (s : InMemoryStore) (account : String) (cp : ClosedPositionRow) :
    Option ℕ :=
  if cp.account = account ∧ cp.tradeGroupId = none then
    (cp.closingOrderId.bind s.orders.get).bind fun order =>
      if order.account = account then order.tradeGroupId else none
  else none

def linkClosedPositionsToGroups (s : InMemoryStore) (account : String) : ℕ × InMemoryStore :=
  (s.closedPositions.values.countP fun cp => (groupForClosedPosition s account cp).isSome,
    { s with
      closedPositions := s.closedPositions.modify
        (fun cp => { cp with
          tradeGroupId := cp.tradeGroupId <|> groupForClosedPosition s account cp })
        (fun _ => rfl) })

/-- The calls on the tables of the SQL store, whose columns hold the decimals of what is written,
and which returns an account's rows in the order `scan` gives them. -/
def handler (money : MoneyColumn) (scan : List ActivityRow → List ActivityRow) :
    Prog.Handler LedgerOp LedgerOp.Reply String InMemoryStore
  | .upsertOrders rows, s => memory (.upsertOrders (rows.map (OrderRow.heldIn money))) s
  | .upsertTransactions rows, s =>
    memory (.upsertTransactions (rows.map (TxnRow.heldIn money))) s
  | .upsertSecurity sec, s => memory (.upsertSecurity (sec.heldIn money)) s
  | .upsertPositions rows, s => memory (.upsertPositions (rows.map (PositionRow.heldIn money))) s
  | .upsertTradeGroup tg, s => memory (.upsertTradeGroup (tg.heldIn money)) s
  | .addTradeGroupEvent ev, s => memory (.addTradeGroupEvent (ev.heldIn money)) s
  | .accountActivity f, s => (.ok (scan (s.accountActivity f)), s)
  | .upsertClosedPosition row, s =>
    (.ok (upsertClosedPosition s (row.heldIn money)).1,
      (upsertClosedPosition s (row.heldIn money)).2)
  | .linkClosedPositionsToGroups account, s =>
    (.ok (linkClosedPositionsToGroups s account).1, (linkClosedPositionsToGroups s account).2)
  | op, s => memory op s

end SqlLedgerStore

/-! ## Stores -/

/-- The store a ledger runs on; the SQL store holds decimals in columns and returns rows in the
order `scan` gives them. -/
inductive StoreKind
  | memory
  | sql (money : MoneyColumn) (scan : List ActivityRow → List ActivityRow)

namespace StoreKind

def handler : StoreKind → Prog.Handler LedgerOp LedgerOp.Reply String InMemoryStore
  | memory => TtLedger.memory
  | sql money scan => SqlLedgerStore.handler money scan

def scan : StoreKind → List ActivityRow → List ActivityRow
  | memory => id
  | sql _ scan => scan

def money : StoreKind → MoneyColumn
  | memory => .exact
  | sql money _ => money

end StoreKind

end TtLedger
