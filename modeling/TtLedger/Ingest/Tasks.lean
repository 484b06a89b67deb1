import TtLedger.Foundations.Pool
import TtLedger.Ingest.RebuildAccount
import TtLedger.Sdk

/-!
# The tasks of a ledger

What runs against a ledger at the same time: the capture calls, the imports, the fills of the
stream, the operator's edits, reconcile passes, rebuilds and the repair of futures P&L. A `Task` is
one of these with its arguments; any number of them form a pool, in which each store call is
atomic, may fail, and reads whatever the clock then shows (`StoreKind.meaning`).
-/

namespace TtLedger

open LedgerStore

/-! ## The repair of futures P&L -/

/-- Whether one of the securities is a bare future. -/
def hasFuture : List String → LedgerProg Bool
  | [] => pure false
  | sid :: sids => do
    match ← getSecurity sid with
    | some sec => if sec.productType = "F" then pure true else hasFuture sids
    | none => hasFuture sids

/-- A group whose realized P&L the repair changes. -/
structure PnlChange where
  groupPk : ℕ
  groupId : String
  account : String
  old : ℚ
  new : ℚ

/-- The event of a repaired group; `str` is the text of a decimal. -/
def repairEvent (str : ℚ → String) (pk : ℕ) (tg : TradeGroupRow) (old new : ℚ) : EventRow where
  tradeGroupId := pk
  eventType := .adjustment
  eventAt := tg.closedAt
  notes := some ("recompute: price-based futures realized_pnl (" ++ str old ++ " -> " ++ str new ++
    ")")

/-- Write the recomputed P&L of a group, when it still exists. -/
def restamp (str : ℚ → String) (pk : ℕ) (old new : ℚ) : LedgerProg Unit := do
  match ← getTradeGroupById pk with
  | none => pure ()
  | some tg =>
    let _ ← upsertTradeGroup { tg with realizedPnl := some new }
    addTradeGroupEvent (repairEvent str pk tg old new)

/-- Recompute the P&L of a stamped group with a bare future among its transactions. -/
def recomputeTrade (str : ℚ → String) (account : String) (dryRun : Bool)
    (changes : List PnlChange) (trade : TradeGroupRow) : LedgerProg (List PnlChange) :=
  match trade.realizedPnl with
  | none => pure changes
  | some old => do
    match ← getTradeGroupId trade.groupId with
    | none => pure changes
    | some pk =>
      let rows ← getGroupTransactions pk
      if ← hasFuture (rows.filterMap TxnRow.securityId).eraseDups then
        let new ← groupRealized rows
        if new = old then pure changes
        else
          if !dryRun then restamp str pk old new
          pure (changes ++ [⟨pk, trade.groupId, account, old, new⟩])
      else pure changes

/-- Stamp anew the realized P&L of the groups with bare futures, of one account or of all with
activity. -/
def recomputeFuturesGroupPnl (str : ℚ → String) (account : Option String) (dryRun : Bool) :
    LedgerProg (List PnlChange) := do
  let accounts ← accountsOf account none
  accounts.foldlM (fun changes acct => do
    let trades ← unifiedTrades { account := some acct }
    trades.foldlM (recomputeTrade str acct dryRun) changes) []

/-! ## Tasks -/

inductive Task
  | openTradeGroup (account : String) (input : TradeGroupInput)
  | recordOrder (resolver : SecurityResolver) (order : OrderInput)
  | importOrders (resolver : SecurityResolver) (placedOrders : List PlacedOrder) (account : String)
  | importTransactions (resolver : SecurityResolver)
      (settlementPrice : Option SettlementPriceResolver) (account : String)
      (txns : List BrokerTransaction) (sourceSystem : String) (reconcileAfter : Bool)
  | importPositions (resolver : SecurityResolver) (positions : List BrokerPosition)
      (account : String)
  | applyFill (evt : FillEvent)
  | linkOrder (ttOrderId : String) (targetGroupId : Option String) (reviewedBy : String)
  | regroup (txnIds : List ℕ) (targetGroupId : Option String) (reviewedBy : String)
  | remap (groupId : String) (attribution : Attribution)
  | markUnfilled (groupId reviewedBy reason : String)
  | dismiss (groupId reviewedBy : String)
  | reconcile (account : Option String) (args : ReconcileArgs)
  | rebuild (account : Option String)
  | recomputeFutures (str : ℚ → String) (account : Option String) (dryRun : Bool)

namespace Task

/-- The program of a task; it returns the group it opened. -/
def program : Task → LedgerProg (Option TradeGroupRow)
  | openTradeGroup account input => do
    let tg ← TtLedger.openTradeGroup account input
    pure (some tg)
  | recordOrder resolver order => do
    let _ ← TtLedger.recordOrder resolver order
    pure none
  | importOrders resolver placedOrders account => do
    let _ ← OrderRepository.upsertFromHistory resolver placedOrders account
    pure none
  | importTransactions resolver settlementPrice account txns sourceSystem reconcileAfter => do
    let _ ← TtLedger.importTransactions resolver settlementPrice account txns sourceSystem
      reconcileAfter
    pure none
  | importPositions resolver positions account => do
    let _ ← PositionRepository.upsert resolver positions account
    pure none
  | applyFill evt => do
    let _ ← applyFillEvent evt
    pure none
  | linkOrder ttOrderId targetGroupId reviewedBy => do
    let _ ← linkOrderToGroup ttOrderId targetGroupId reviewedBy
    pure none
  | regroup txnIds targetGroupId reviewedBy => do
    let _ ← regroupTransactions txnIds targetGroupId reviewedBy
    pure none
  | remap groupId attribution => do
    let _ ← remapTradeGroup groupId attribution
    pure none
  | markUnfilled groupId reviewedBy reason => do
    let _ ← markTradeGroupUnfilled groupId reviewedBy reason
    pure none
  | dismiss groupId reviewedBy => do
    let _ ← dismissTradeGroup groupId reviewedBy
    pure none
  | reconcile account args => do
    let _ ← TtLedger.reconcile account args
    pure none
  | rebuild account => do
    let _ ← rebuildPositionsFromTransactions account
    pure none
  | recomputeFutures str account dryRun => do
    let _ ← recomputeFuturesGroupPnl str account dryRun
    pure none

end Task

/-- A call in a pool: the clock may have moved, and the call does what the store says or fails. -/
def StoreKind.meaning (kind : StoreKind) :
    Prog.Meaning LedgerOp LedgerOp.Reply String InMemoryStore :=
  fun op s r s' => ∃ clock, kind.handler.faulty op { s with clock } r s'

/-- A schedule under which no call fails and the clock stands still. -/
theorem StoreKind.reaches_play {ι : Type} [DecidableEq ι] {α : Type} (kind : StoreKind)
    (sched : List ι) (ps : ι → LedgerProg α) (s : InMemoryStore) :
    Prog.Pool.Reaches kind.meaning ps s (Prog.Pool.play kind.handler sched ps s).1
      (Prog.Pool.play kind.handler sched ps s).2 :=
  (Prog.Pool.reaches_play kind.handler sched ps s).mono fun _ s _ _ hop => ⟨s.clock, Or.inl hop⟩

end TtLedger
