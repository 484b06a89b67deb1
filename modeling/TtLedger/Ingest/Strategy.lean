import TtLedger.Ingest.Replay
import TtLedger.Store.Calls

/-!
# Derived fields of a group

What a group's transactions determine: its realized P&L (`groupRealized`), and the columns
`computeGroupFields` derives from a cluster, among them the strategy label that
`detectStrategyType` gives to one leg for each security at its peak exposure.
-/

namespace TtLedger

open LedgerStore

/-! ## Strategy labels -/

/-- One leg of a group, as the classifier sees it. -/
structure LegInfo where
  productType : String
  optionType : Option String
  expiry : Option Date
  strike : Option ℚ
  quantity : ℚ
  deriving DecidableEq

def isOptionProduct (productType : String) : Bool :=
  productType = "OS" || productType = "OI" || productType = "OF"

/-- A set with one element. -/
def same {α : Type} [DecidableEq α] (values : List α) : Bool := values.eraseDups.length = 1

def classifyTwoLeg (a b : LegInfo) : StrategyType :=
  let sameExpiry := a.expiry = b.expiry
  let sameStrike := a.strike = b.strike
  let sameType := a.optionType = b.optionType
  if sameExpiry ∧ sameType ∧ a.quantity ≠ b.quantity then .ratio
  else if sameExpiry ∧ sameStrike ∧ ¬sameType then .straddle
  else if sameExpiry ∧ ¬sameStrike ∧ ¬sameType then .strangle
  else if sameExpiry ∧ sameType ∧ ¬sameStrike then .vertical
  else if ¬sameExpiry ∧ sameStrike ∧ sameType then .calendar
  else if ¬sameExpiry ∧ ¬sameStrike ∧ sameType then .diagonal
  else .custom

def classifyThreeLeg (legs : List LegInfo) : StrategyType :=
  if same (legs.map LegInfo.expiry) && same (legs.map LegInfo.optionType) then .butterfly
  else .custom

def classifyFourLeg (legs : List LegInfo) : StrategyType :=
  if !same (legs.map LegInfo.expiry) then .custom
  else
    let types := legs.map LegInfo.optionType
    let strikes := legs.map LegInfo.strike
    if types.count (some "P") = 2 ∧ types.count (some "C") = 2 then
      if strikes.eraseDups.length = 4 then .ironCondor else .ironButterfly
    else if same types then .condor
    else .custom

/-- Best-effort label of a list of legs. -/
def detectStrategyType (legs : List LegInfo) : StrategyType :=
  match legs with
  | [] => .custom
  | [leg] => if leg.productType = "F" then .future else .single
  | legs =>
    let optionLegs := legs.filter fun leg => isOptionProduct leg.productType
    let otherLegs := legs.filter fun leg => !isOptionProduct leg.productType
    if !otherLegs.isEmpty && !optionLegs.isEmpty then
      let types := optionLegs.map LegInfo.optionType
      if otherLegs.length = 1 ∧ optionLegs.length = 2 ∧ same (optionLegs.map LegInfo.expiry) ∧
          some "P" ∈ types ∧ some "C" ∈ types then .collar
      else if otherLegs.length = 1 ∧ optionLegs.length = 1 then .covered
      else .custom
    else if optionLegs.isEmpty then
      if legs.all (fun leg => leg.productType = "F") then .futureSpread else .custom
    else
      match optionLegs with
      | [a, b] => classifyTwoLeg a b
      | [_, _, _] => classifyThreeLeg optionLegs
      | [_, _, _, _] => classifyFourLeg optionLegs
      | _ => .custom

/-! ## Realized P&L -/

/-- `multiplier or 1`. -/
def multiplierOf (sec : Option SecurityRow) : Int :=
  match sec.bind SecurityRow.multiplier with
  | some m => if m = 0 then 1 else m
  | none => 1

def isFuture (sec : Option SecurityRow) : Bool :=
  match sec with
  | some sec => sec.productType = "F"
  | none => false

/-- The securities seen so far, the futures rows under them and the premium-settled total. -/
structure RealizedWalk where
  securities : Dict String (Option SecurityRow) := .empty
  futuresRows : List TxnRow := []
  total : ℚ := 0

/-- Read a security once. -/
def cacheSecurity (securities : Dict String (Option SecurityRow)) (sid : String) :
    LedgerProg (Dict String (Option SecurityRow)) :=
  match securities.get? sid with
  | some _ => pure securities
  | none => do
    let sec ← getSecurity sid
    pure (securities.set sid sec)

/-- Sort one member row: bare futures are priced below, every other row adds its cash. -/
def realizedRow (w : RealizedWalk) (r : TxnRow) : LedgerProg RealizedWalk :=
  match r.securityId with
  | none => pure { w with total := w.total + r.signedGross }
  | some sid => do
    let securities ← cacheSecurity w.securities sid
    if isFuture ((securities.get? sid).join) then
      pure { w with securities, futuresRows := w.futuresRows ++ [r] }
    else
      pure { w with securities, total := w.total + r.signedGross }

/-- Gross realized P&L across a group's member transactions: cash with fees added back, and
price-based for bare futures. -/
def groupRealized (rows : List TxnRow) : LedgerProg ℚ := do
  let w ← rows.foldlM realizedRow {}
  pure (w.total + ((groupBy TxnRow.securityId w.futuresRows).entries.map fun e =>
    priceRealizedGross e.2 (multiplierOf ((w.securities.get? e.1).join)) true).sum)

/-! ## The columns of a group -/

/-- The columns derived from a cluster of transactions. -/
structure GroupFields where
  underlying : Option String
  securityId : Option String
  strategyType : String
  legCount : ℕ
  totalPremium : ℚ
  totalFees : ℚ
  quantity : Option ℚ
  executedAt : Option Datetime
  deriving DecidableEq

/-- The distinct securities of a cluster, in first-seen order. -/
def distinctSecurityIds (cluster : List TxnRow) : List String :=
  ((cluster.filter fun r => truthy r.securityId).map TxnRow.sid).eraseDups

/-- The largest quantity of one row. -/
def maxQuantity? (rows : List TxnRow) : Option ℚ :=
  ((rows.filter fun r => r.quantity.isSome).map TxnRow.absQuantity).max?

/-- The leg of one security: its peak exposure, or its largest row when it has none. -/
def legInfo (cluster : List TxnRow) (securityId : String) (sec : SecurityRow) : LegInfo where
  productType := sec.productType
  optionType := sec.optionType
  expiry := sec.expiry
  strike := sec.strike
  quantity :=
    match (peakExposures cluster).get? securityId with
    | some peak =>
      if peak = 0 then
        (maxQuantity? (cluster.filter fun r => r.securityId = some securityId)).getD 0
      else peak
    | none => (maxQuantity? (cluster.filter fun r => r.securityId = some securityId)).getD 0

/-- The derived columns, given the securities that were found. -/
def groupFieldsOf (cluster : List TxnRow) (legs : List LegInfo) : GroupFields where
  underlying := ((cluster.map TxnRow.underlying).find? truthy).join
  securityId := match distinctSecurityIds cluster with
    | [sid] => some sid
    | _ => none
  strategyType := (detectStrategyType legs).value
  legCount := max (distinctSecurityIds cluster).length 1
  totalPremium := ((cluster.filter fun r => r.netValue.isSome).map TxnRow.signedNet).sum
  totalFees := totalFees cluster
  quantity := match (peakExposures cluster).values.max? with
    | some peak => some peak
    | none => maxQuantity? cluster
  executedAt := firstExecutedAt cluster

/-- Add the leg of one security, when the securities dimension has it. -/
def addLeg (cluster : List TxnRow) (legs : List LegInfo) (sid : String) :
    LedgerProg (List LegInfo) := do
  let sec ← getSecurity sid
  match sec with
  | some sec => pure (legs ++ [legInfo cluster sid sec])
  | none => pure legs

/-- A cluster of transactions to the columns derivable from them. -/
def computeGroupFields (cluster : List TxnRow) : LedgerProg GroupFields := do
  let legs ← (distinctSecurityIds cluster).foldlM (addLeg cluster) []
  pure (groupFieldsOf cluster legs)

end TtLedger
