import TtLedger.Ingest.Exit
import Mathlib.Data.String.Basic

/-!
# Lapse synthesis

`synthesizeLapsedSettlements` recreates the settlement rows the broker never sent: for every open
group and every expired security the group still holds by its own net, one row under the fixed
id `lapseId account pk securityId`, pre-attributed to the group, with the group's net as its
quantity and intrinsic value as its cash. The clock is the account's latest activity.
-/

namespace TtLedger

open LedgerStore

/-- The caller's resolver: the underlying's settlement price of an option at its expiry, when it
can be resolved; it may raise. -/
abbrev SettlementPriceResolver := String → Date → Except String (Option ℚ)

/-- The arguments of a reconcile pass. -/
structure ReconcileArgs where
  since : Option Date := none
  settlementPrice : Option SettlementPriceResolver := none
  /-- In days. -/
  settleAfter : Int := 2
  dryRun : Bool := false

/-- The group's net in one security. -/
def netIn (rows : List TxnRow) (sid : String) : ℚ := ((netQuantities rows).get? sid).getD 0

/-- The securities some group holds by its own book, sorted. -/
def heldSecurities (openGroups : List OpenGroup) : List String :=
  sortOn id (openGroups.flatMap fun g =>
    ((netQuantities g.rows).entries.filter fun e => e.2 ≠ 0).map Prod.fst).eraseDups

/-- The expiry of a security that is due: expired, with account activity `settleAfter` past it. -/
def lapsedExpiry (args : ReconcileArgs) (lastActivity : Datetime) (sec : SecurityRow) :
    Option Date :=
  match sec.expiry with
  | none => none
  | some expiry =>
    if Datetime.date lastActivity < expiry + args.settleAfter then none else some expiry

/-- The settlement value of one contract: intrinsic for an option, zero for anything else, none
while an option's settlement price does not resolve. -/
def settlePoints (args : ReconcileArgs) (sec : SecurityRow) (securityId : String) (expiry : Date) :
    LedgerProg (Option ℚ) :=
  match sec.strike with
  | none => pure (some 0)
  | some strike =>
    if sec.optionType = some "C" ∨ sec.optionType = some "P" then
      match args.settlementPrice with
      | none => pure none
      | some settlementPrice => do
        let settle ← Prog.ofExcept (settlementPrice securityId expiry)
        pure (settle.map fun settle =>
          if sec.optionType = some "C" then max 0 (settle - strike) else max 0 (strike - settle))
    else pure (some 0)

/-- The id of the settlement row of one group's lot. -/
def lapseId (account : String) (pk : ℕ) (securityId : String) : String :=
  "lapse-" ++ account ++ "-" ++ toString pk ++ "-" ++ securityId

/-- The instant of a lapse settlement: 21:15 UTC on the expiry. -/
def lapsedAt (expiry : Date) : Datetime := Date.at expiry 21 15

/-- The settlement row of one group's lot. -/
def lapseRow (account securityId : String) (sec : SecurityRow) (expiry : Date) (points : ℚ)
    (pk : ℕ) (groupNet : ℚ) : TxnRow where
  ttTransactionId := lapseId account pk securityId
  account
  transactionType := some "Receive Deliver"
  transactionSubType := some "Expiration"
  securityId := some securityId
  underlying := sec.underlying
  quantity := some |groupNet|
  price := some points
  netValue :=
    let cash := points * |groupNet| * multiplierOf (some sec)
    some (if 0 < groupNet then cash else -cash)
  description := some "synthesized lapse: contract expired with no broker settlement row"
  tradeGroupId := some pk
  executedAt := some (lapsedAt expiry)
  transactionDate := some expiry

/-- The settlement rows of one security, for the groups holding it in key order. -/
def lapseRows (account securityId : String) (sec : SecurityRow) (expiry : Date) (points : ℚ)
    (openGroups : List OpenGroup) : List TxnRow :=
  (sortOn OpenGroup.pk openGroups).filterMap fun g =>
    let groupNet := netIn g.rows securityId
    if groupNet = 0 then none
    else some (lapseRow account securityId sec expiry points g.pk groupNet)

/-- Add the settlement rows of one held security, when it is due and its value resolves. -/
def synthesizeSecurity (args : ReconcileArgs) (account : String) (lastActivity : Datetime)
    (openGroups : List OpenGroup) (synthesized : List TxnRow) (securityId : String) :
    LedgerProg (List TxnRow) := do
  match ← getSecurity securityId with
  | none => pure synthesized
  | some sec =>
    match lapsedExpiry args lastActivity sec with
    | none => pure synthesized
    | some expiry =>
      match ← settlePoints args sec securityId expiry with
      | none => pure synthesized
      | some points =>
        pure (synthesized ++ lapseRows account securityId sec expiry points openGroups)

/-- Apply a group's own settlement rows to it. -/
def applyLapse (synthesized : List TxnRow) (group : OpenGroup) : LedgerProg Unit := do
  let rows := synthesized.filter fun r => r.tradeGroupId = some group.pk
  if rows.isEmpty then pure ()
  else
    let _ ← applyExit group rows none none

/-- Synthesize the missing settlement rows of an account's open lots past expiry; unless it is a
dry run, write them and apply them to their groups. -/
def synthesizeLapsedSettlements (account : String) (args : ReconcileArgs) :
    LedgerProg (List TxnRow) := do
  let activity ← accountActivity { account := some account }
  match lastExecutedAt (activity.map ActivityRow.toTxnRow) with
  | none => pure []
  | some lastActivity =>
    let openGroups ← loadOpenGroups account
    let synthesized ← (heldSecurities openGroups).foldlM
      (synthesizeSecurity args account lastActivity openGroups) []
    if !synthesized.isEmpty && !args.dryRun then
      upsertTransactions synthesized
      openGroups.forM (applyLapse synthesized)
    pure synthesized

end TtLedger
