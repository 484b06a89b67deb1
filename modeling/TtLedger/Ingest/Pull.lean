import TtLedger.Foundations.Trace
import TtLedger.Ingest.ClientLaws
import TtLedger.Ingest.Tasks

/-!
# The pull

`ingest/pull.py` reads each feed of the broker and imports it (`syncOrders`, `syncTransactions`,
`syncPositions`, `syncBalances`); `syncAll` reads them one after the other, records the failure of a
feed and goes on with the next, and reconciles the account last. The broker is a client that answers
whole histories; the counters of the result are those `syncAll` sets.

In `pull` the broker's client is the REST client, run against a broker whose lists change by `R`
between its requests, and the ledger's calls do what its store says or fail.
-/

namespace TtLedger

open Prog

/-! ## Calls -/

/-- What an importer asks of the broker's client, the clock and the store. -/
inductive PullOp
  | getOrderHistory (accountNumber : String) (start stop : Date)
  | getTransactionHistory (accountNumber : String) (start stop : Date)
  | getPositions (accountNumber : String)
  | getBalances (accountNumber : String)
  | today
  | now
  | upsertBalanceSnapshot (row : BalanceSnapshotRow)
  | ledger (op : LedgerOp)

namespace PullOp

/-- What a call returns. -/
@[reducible] def Reply : PullOp → Type
  | getOrderHistory _ _ _ => List PlacedOrder
  | getTransactionHistory _ _ _ => List BrokerTransaction
  | getPositions _ => List BrokerPosition
  | getBalances _ => BalanceMessage
  | today => Date
  | now => Datetime
  | upsertBalanceSnapshot _ => Unit
  | ledger op => op.Reply

end PullOp

/-- Programs of the importers. -/
abbrev PullProg (α : Type) := Prog PullOp PullOp.Reply String α

/-- A program on the ledger, as part of an importer. -/
def onLedger {α : Type} (p : LedgerProg α) : PullProg α :=
  p.subst fun op => Prog.invoke (PullOp.ledger op)

/-! ## Feeds -/

/-- 1970-01-01 -/
def epoch : Date := 0

/-- The number of an account; the text of a missing key is the key. -/
def accountNumberOf (accounts : AccountMapper) (account : String) : Except String String :=
  match accounts.toAccountNumber (.str account) with
  | .ok number => .ok number
  | .error _ => .error (quoted account)

/-- The arguments of a sync. -/
structure SyncArgs where
  account : String
  accounts : AccountMapper
  resolver : SecurityResolver
  since : Option Date := none
  settlementPrice : Option SettlementPriceResolver := none

section Feeds

variable (args : SyncArgs)

/-- Upsert the orders of the history. -/
def syncOrders : PullProg ℕ := do
  let accountNumber ← Prog.ofExcept (accountNumberOf args.accounts args.account)
  let today ← Prog.invoke PullOp.today
  let placedOrders ← Prog.invoke
    (PullOp.getOrderHistory accountNumber (args.since.getD epoch) today)
  onLedger (OrderRepository.upsertFromHistory args.resolver placedOrders args.account)

/-- Upsert the transactions of the history. -/
def syncTransactions : PullProg ℕ := do
  let accountNumber ← Prog.ofExcept (accountNumberOf args.accounts args.account)
  let today ← Prog.invoke PullOp.today
  let txns ← Prog.invoke
    (PullOp.getTransactionHistory accountNumber (args.since.getD epoch) today)
  onLedger (TransactionRepository.upsert args.resolver txns args.account "tastytrade")

/-- Upsert the current positions. -/
def syncPositions : PullProg ℕ := do
  let accountNumber ← Prog.ofExcept (accountNumberOf args.accounts args.account)
  let positions ← Prog.invoke (PullOp.getPositions accountNumber)
  onLedger (PositionRepository.upsert args.resolver positions args.account)

/-- Record the current balances. -/
def syncBalances : PullProg ℕ := do
  let accountNumber ← Prog.ofExcept (accountNumberOf args.accounts args.account)
  let balance ← Prog.invoke (PullOp.getBalances accountNumber)
  let capturedAt ← match balance.capturedAt with
    | some capturedAt => pure capturedAt
    | none => Prog.invoke PullOp.now
  Prog.invoke (PullOp.upsertBalanceSnapshot
    (balanceSnapshot balance args.account "rest_sync" capturedAt))
  pure 1

/-! ## The sync -/

/-- The result of a sync, with the counters of the feeds. -/
structure SyncAllResult extends SyncResult where
  orders : ℕ := 0
  balances : ℕ := 0

/-- One step of the sync; its failure is recorded under its name. -/
def recordFailure (name : String) (result : SyncAllResult) (step : PullProg SyncAllResult) :
    PullProg SyncAllResult :=
  step.tryCatch fun e => pure { result with errors := result.errors ++ [name ++ ": " ++ e] }

/-- Sync the orders. -/
def ordersStep (result : SyncAllResult) : PullProg SyncAllResult :=
  recordFailure "sync_orders" result do
    let orders ← syncOrders args
    pure { result with orders }

/-- Sync the transactions. -/
def transactionsStep (result : SyncAllResult) : PullProg SyncAllResult :=
  recordFailure "sync_transactions" result do
    let transactions ← syncTransactions args
    pure { result with transactions }

/-- Sync the positions. -/
def positionsStep (result : SyncAllResult) : PullProg SyncAllResult :=
  recordFailure "sync_positions" result do
    let positions ← syncPositions args
    pure { result with positions }

/-- Sync the balances. -/
def balancesStep (result : SyncAllResult) : PullProg SyncAllResult :=
  recordFailure "sync_balances" result do
    let balances ← syncBalances args
    pure { result with balances }

/-- Reconcile the account. -/
def reconcileStep (result : SyncAllResult) : PullProg SyncAllResult :=
  recordFailure "reconcile" result do
    let rec_ ← onLedger (reconcile (some args.account)
      { since := args.since, settlementPrice := args.settlementPrice })
    pure { result with
      tradeGroups := result.tradeGroups + rec_.tradeGroups
      errors := result.errors ++ rec_.errors }

/-- Sync the feeds one after the other, then reconcile. -/
def syncAll : PullProg SyncAllResult := do
  let result ← ordersStep args {}
  let result ← transactionsStep args result
  let result ← positionsStep args result
  let result ← balancesStep args result
  reconcileStep args result

end Feeds

/-! ## What the calls do -/

/-- A ledger, its balance snapshots, the client it pulls with, and the day. -/
structure PullState where
  ledger : InMemoryStore
  snapshots : Table BalanceSnapshotRow.key
  session : Session
  today : Date

/-- A read of the REST client: it returns what it read, or fails with some text. -/
def Fetches (R : List Json → List Json → Prop) {α : Type} (p : ℕ → ClientProg (Option α))
    (s : PullState) (r : Except String α) (s' : PullState) : Prop :=
  ∃ fuel x session, Runs (broker R) (p fuel) s.session x session ∧ s' = { s with session } ∧
    ∀ a, r = .ok a → x = .ok (some a)

/-- What a call does. -/
def pull (R : List Json → List Json → Prop) (kind : StoreKind) (c : ClientCodec)
    (cfg : ClientConfig) : Meaning PullOp PullOp.Reply String PullState
  | .getOrderHistory accountNumber start stop, s, r, s' =>
    Fetches R (fun fuel =>
      TastyTradeClient.getOrderHistory c cfg fuel accountNumber start stop) s r s'
  | .getTransactionHistory accountNumber start stop, s, r, s' =>
    Fetches R (fun fuel =>
      TastyTradeClient.getTransactionHistory c cfg fuel accountNumber start stop) s r s'
  | .getPositions accountNumber, s, r, s' =>
    Fetches R (fun _ => some <$> TastyTradeClient.getPositions c cfg accountNumber) s r s'
  | .getBalances accountNumber, s, r, s' =>
    Fetches R (fun _ => some <$> TastyTradeClient.getBalances c cfg accountNumber) s r s'
  | .today, s, r, s' => ∃ today, s.today ≤ today ∧ r = .ok today ∧ s' = { s with today }
  | .now, s, r, s' => (∃ t, r = .ok t) ∧ s' = s
  | .upsertBalanceSnapshot row, s, r, s' =>
    (r = .ok () ∧ s' = { s with snapshots := (s.snapshots.upsert row).2 }) ∨
      (∃ e, r = .error e) ∧ s' = s
  | .ledger op, s, r, s' => ∃ ledger, kind.meaning op s.ledger r ledger ∧ s' = { s with ledger }

end TtLedger
