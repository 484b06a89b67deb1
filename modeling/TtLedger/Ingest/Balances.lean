import TtLedger.Ingest.StreamApply
import TtLedger.Foundations.Throttle
import Mathlib.Data.List.MinMax

/-!
# Balance snapshots

`StreamConsumer._apply_balance` (`ingest/push.py`) persists the balance messages of each account as
a throttled series of snapshots: `BalanceRepository.record` upserts one under its account, instant
and source, and `latestBalance` is the read of the newest one. The consumer remembers for each
account the instant and the net liquidating value it last persisted. The accounts table and the
`on_balance` hook, which is called once the message is applied, are left out.
-/

namespace TtLedger

/-- An account-balance message. -/
structure BalanceMessage where
  accountNumber : String
  raw : Json.Object
  netLiquidatingValue : Option ℚ := none
  cashBalance : Option ℚ := none
  equityBuyingPower : Option ℚ := none
  derivativeBuyingPower : Option ℚ := none
  maintenanceRequirement : Option ℚ := none
  pendingCash : Option ℚ := none
  dayTradingBuyingPower : Option ℚ := none
  capturedAt : Option Datetime := none

/-- One point of an account's balance series. -/
structure BalanceSnapshotRow where
  account : String
  capturedAt : Datetime
  source : String := "stream"
  netLiquidatingValue : Option ℚ := none
  cashBalance : Option ℚ := none
  equityBuyingPower : Option ℚ := none
  derivativeBuyingPower : Option ℚ := none
  maintenanceRequirement : Option ℚ := none
  pendingCash : Option ℚ := none
  dayTradingBuyingPower : Option ℚ := none
  raw : Option Json.Object := none

def BalanceSnapshotRow.key (row : BalanceSnapshotRow) : Option (String × Datetime × String) :=
  some (row.account, row.capturedAt, row.source)

/-- The newest snapshot of an account. -/
def latestBalance (rows : List BalanceSnapshotRow) (account : String) :
    Option BalanceSnapshotRow :=
  @List.argmax _ Datetime Int.instLinearOrder.toPreorder Int.decLt BalanceSnapshotRow.capturedAt
    (rows.filter fun row => row.account = account)

/-- The columns of a message under an account, an instant and a source. -/
def balanceSnapshot (msg : BalanceMessage) (account source : String) (capturedAt : Datetime) :
    BalanceSnapshotRow where
  account
  capturedAt
  source
  netLiquidatingValue := msg.netLiquidatingValue
  cashBalance := msg.cashBalance
  equityBuyingPower := msg.equityBuyingPower
  derivativeBuyingPower := msg.derivativeBuyingPower
  maintenanceRequirement := msg.maintenanceRequirement
  pendingCash := msg.pendingCash
  dayTradingBuyingPower := msg.dayTradingBuyingPower
  raw := some msg.raw

/-- What a consumer is made with, and the readings of the system clock. -/
structure BalanceConfig where
  accounts : AccountMapper
  persistBalances : Bool := true
  balanceMinInterval : Int := 60 * second
  clock : ℕ → Datetime

/-- A consumer between two messages, with the snapshots of its store. -/
structure BalanceConsumer where
  /-- For each account the instant and the value it last persisted. -/
  balanceLast : Dict String (Datetime × Option ℚ)
  snapshots : Table BalanceSnapshotRow.key
  /-- The readings of the clock so far. -/
  ticks : ℕ
  /-- The snapshots it has recorded, in order; nothing reads them. -/
  recorded : List BalanceSnapshotRow

namespace BalanceConsumer

variable (cfg : BalanceConfig)

/-- A new consumer over a store. -/
def start (snapshots : Table BalanceSnapshotRow.key) (ticks : ℕ) : BalanceConsumer where
  balanceLast := .empty
  snapshots
  ticks
  recorded := []

/-- `msg.captured_at or datetime.now(UTC)`. -/
def instant (c : BalanceConsumer) (capturedAt : Option Datetime) : Datetime × BalanceConsumer :=
  match capturedAt with
  | some t => (t, c)
  | none => (cfg.clock c.ticks, { c with ticks := c.ticks + 1 })

/-- Persist one snapshot. -/
def record (c : BalanceConsumer) (msg : BalanceMessage) (account source : String) :
    BalanceConsumer :=
  let (capturedAt, c) := c.instant cfg msg.capturedAt
  let row := balanceSnapshot msg account source capturedAt
  { c with
    snapshots := (c.snapshots.upsert row).2
    recorded := c.recorded ++ [row] }

/-- Persist a message unless one with its value was persisted less than the interval ago. -/
def applyBalance (c : BalanceConsumer) (msg : BalanceMessage) : Except String BalanceConsumer :=
  if cfg.persistBalances then do
    let account ← cfg.accounts.toNickname msg.accountNumber
    let (now, c) := c.instant cfg msg.capturedAt
    let last := c.balanceLast.get? account
    let due := match last with
      | none => true
      | some last => cfg.balanceMinInterval ≤ now - last.1
    let nlvChanged := match last with
      | none => false
      | some last => msg.netLiquidatingValue ≠ last.2
    if due || nlvChanged then
      let c := c.record cfg msg account "stream"
      pure { c with balanceLast := c.balanceLast.set account (now, msg.netLiquidatingValue) }
    else pure c
  else pure c

/-- Take one message; a failure is logged and skipped. -/
def receive (c : BalanceConsumer) (msg : BalanceMessage) : BalanceConsumer :=
  match c.applyBalance cfg msg with
  | .ok c => c
  | .error _ => c

/-- Take the messages in turn. -/
def receiveAll (c : BalanceConsumer) (msgs : List BalanceMessage) : BalanceConsumer :=
  msgs.foldl (receive cfg) c

/-- The snapshots it has recorded for an account. -/
def recordedFor (c : BalanceConsumer) (account : String) : List BalanceSnapshotRow :=
  c.recorded.filter fun row => row.account = account

end BalanceConsumer

end TtLedger
