import TtLedger.Ingest.Lapse

/-!
# Backends

A backend returns every instant with a timezone or every one without, and comparing an instant of
one kind with one of the other raises. The rows of the lapse step come from the store and from the
step itself, whose settlement rows are always aware. The definitions below are the lapse step with
the kinds of the instants kept: `netQuantitiesOn`, `applyExitOn`, … are the functions of the same
names on rows that know their kind.

A sort raises when it compares two instants of different kinds. Whichever comparisons it makes, it
makes one such when both kinds occur: without it the order of the two kinds would be left open.
The same holds of `max`.
-/

namespace TtLedger

open LedgerStore

/-- Whether instants carry a timezone. -/
inductive Tz
  | naive
  | aware
  deriving DecidableEq

/-- A row and the kind of its instant. -/
structure Stamped where
  row : TxnRow
  tz : Tz
  deriving DecidableEq

/-- The failure of a comparison. -/
def cantCompare : String := "can't compare offset-naive and offset-aware datetimes"

/-- A value computed by comparing instants of the given kinds. -/
def compareAll {α : Type} (kinds : List Tz) (value : α) : Except String α :=
  if .naive ∈ kinds ∧ .aware ∈ kinds then .error cantCompare else .ok value

/-- The kinds of the instants of rows; undated rows compare by being undated. -/
def datedKinds (rows : List Stamped) : List Tz :=
  (rows.filter fun r => r.row.executedAt.isSome).map Stamped.tz

/-- The kinds of the instants of rows, where `datetime.min` in UTC stands for none. -/
def epochKinds (rows : List Stamped) : List Tz :=
  rows.map fun r => if r.row.executedAt.isSome then r.tz else .aware

/-! ## The walks -/

/-- The rows without their kinds. -/
def plainRows (rows : List Stamped) : List TxnRow := rows.map Stamped.row

/-- The instants a group's walk compares. -/
def positionKinds (rows : List Stamped) : List Tz :=
  datedKinds (rows.filter fun r => r.row.isPosition)

def netQuantitiesOn (rows : List Stamped) : Except String (Dict String ℚ) :=
  compareAll (positionKinds rows) (netQuantities (plainRows rows))

def fullyClosedOn (rows : List Stamped) : Except String Bool :=
  compareAll (positionKinds rows) (fullyClosed (plainRows rows))

def closedStatusOn (rows : List Stamped) : Except String TradeGroupStatus :=
  compareAll (positionKinds rows) (closedStatus (plainRows rows))

def lastExecutedAtOn (rows : List Stamped) : Except String (Option Datetime) :=
  compareAll (datedKinds rows) (lastExecutedAt (plainRows rows))

def priceRealizedGrossOn (rows : List Stamped) (multiplier : Int) (clampCloses : Bool) :
    Except String ℚ :=
  compareAll (epochKinds rows) (priceRealizedGross (plainRows rows) multiplier clampCloses)

/-- The rows in one security. -/
def inSecurity (rows : List Stamped) (sid : String) : List Stamped :=
  rows.filter fun r => r.row.securityId = some sid

def groupRealizedOn (rows : List Stamped) : LedgerProg ℚ := do
  let w ← (plainRows rows).foldlM realizedRow {}
  let futures ← Prog.ofExcept ((groupBy TxnRow.securityId w.futuresRows).entries.mapM fun e =>
    priceRealizedGrossOn (inSecurity rows e.1) (multiplierOf ((w.securities.get? e.1).join)) true)
  pure (w.total + futures.sum)

/-! ## Applying settlements -/

/-- A group's rows as the backend returns them. -/
def OpenGroup.stamped (g : OpenGroup) (tz : Tz) : List Stamped := g.rows.map fun r => ⟨r, tz⟩

/-- Rows made by the step are aware. -/
def madeRows (rows : List TxnRow) : List Stamped := rows.map fun r => ⟨r, .aware⟩

/-- Stamp a group its rows have closed, when it still exists. -/
def stampGroupOn (pk : ℕ) (rows : List Stamped) (closedAt : Option Datetime) : LedgerProg Unit := do
  let status ← Prog.ofExcept (closedStatusOn rows)
  match ← getTradeGroupById pk with
  | none => pure ()
  | some tg =>
    let realized ← groupRealizedOn rows
    let _ ← upsertTradeGroup
      { tg with
        status
        closedAt
        realizedPnl := some realized
        totalFees := some (totalFees (plainRows rows)) }

/-- Attach settlement rows to their group, record the events and stamp the group once it is fully
offset. -/
def applyExitOn (tz : Tz) (group : OpenGroup) (rows : List TxnRow) : LedgerProg Unit := do
  let _ ← attachTransactionsToTradeGroup (rows.map TxnRow.ttTransactionId) group.pk
  let rows := group.newRows rows
  if rows.isEmpty then
    let _ ← getTradeGroupById group.pk
    let _ ← Prog.ofExcept (fullyClosedOn (group.stamped tz))
    pure ()
  else
    let members := group.stamped tz ++ madeRows rows
    let closed ← Prog.ofExcept (fullyClosedOn members)
    let eventAt ← Prog.ofExcept (lastExecutedAtOn (madeRows rows))
    addEvents (exitEvents group.pk rows closed none none)
    if closed then stampGroupOn group.pk members eventAt

/-- Apply a group's own settlement rows to it. -/
def applyLapseOn (tz : Tz) (synthesized : List TxnRow) (group : OpenGroup) : LedgerProg Unit := do
  let rows := synthesized.filter fun r => r.tradeGroupId = some group.pk
  if rows.isEmpty then pure ()
  else applyExitOn tz group rows

/-- The lapse step on a backend. -/
def synthesizeLapsedSettlementsOn (tz : Tz) (account : String) (args : ReconcileArgs) :
    LedgerProg (List TxnRow) := do
  let activity ← accountActivity { account := some account }
  let last ← Prog.ofExcept (lastExecutedAtOn (activity.map fun a => ⟨a.toTxnRow, tz⟩))
  match last with
  | none => pure []
  | some lastActivity =>
    let openGroups ← loadOpenGroups account
    let _ ← Prog.ofExcept (openGroups.mapM fun g => netQuantitiesOn (g.stamped tz))
    let synthesized ← (heldSecurities openGroups).foldlM
      (synthesizeSecurity args account lastActivity openGroups) []
    if !synthesized.isEmpty && !args.dryRun then
      upsertTransactions synthesized
      openGroups.forM (applyLapseOn tz synthesized)
    pure synthesized

end TtLedger
