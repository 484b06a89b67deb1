import TtLedger.Foundations.Dict
import TtLedger.Foundations.Text
import TtLedger.Foundations.Truncate
import TtLedger.Store.Memory

/-!
# Reads of a group's open legs

How much of each leg a trade group still holds, by the two reads hosts use: `foldOpenGroupLegs`,
which both stores share (`openGroupLegs`), and `netOpenByGroup`, which each store computes in its
own way. All of them take the opening quantity, less the closing quantity, less the largest
quantity of a settlement row; they differ in where the quantities become integers, and in how an
action and a sub-type are matched. The SQL store is modelled on the rows a query scans: a `Money`
value is stored exactly, `LIKE` is the dialect's, and a sum or maximum passes over a missing
quantity.
-/

namespace TtLedger

/-! ## Settlements -/

/-- The `Receive Deliver` sub-types that remove a contract from the book. -/
def positionRemovingSubTypes : List String :=
  ["Expiration", "Assignment", "Exercise", "Cash Settled Assignment", "Cash Settled Exercise"]

/-- The action, stripped. -/
def verbOf (action : Option String) : List Char := Text.strip (action.getD "").toList

def opensLeg (action : Option String) : Bool := Text.endsWith (verbOf action) "to Open".toList

def closesLeg (action : Option String) : Bool := Text.endsWith (verbOf action) "to Close".toList

/-- The action alone moves the open count. -/
def actionNetsAsTrade (action : Option String) : Bool := opensLeg action || closesLeg action

/-- The row removes its leg from the book and its action does not account for it. -/
def isPositionRemoval (action transactionSubType : Option String) : Bool :=
  if actionNetsAsTrade action then false
  else (positionRemovingSubTypes.map String.toList).contains
    (Text.strip (transactionSubType.getD "").toList)

/-! ## The shared fold -/

/-- What the fold reads of a transaction. -/
structure LegRecord where
  account : String
  securityId : Option String
  tradeGroupId : Option ℕ
  action : Option String
  transactionSubType : Option String
  quantity : Option ℚ
  price : Option ℚ

/-- What a transaction hands to the fold. -/
def TxnRow.legRecord (t : TxnRow) : LegRecord where
  account := t.account
  securityId := t.securityId
  tradeGroupId := t.tradeGroupId
  action := t.action
  transactionSubType := t.transactionSubType
  quantity := t.quantity
  price := t.price

/-- One open group's own stake in a security. -/
structure OpenGroupLegRow where
  account : String
  securityId : String
  tradeGroupId : ℕ
  netOpen : ℤ
  averageOpenPrice : Option ℚ := none
  direction : String := "Long"
  deriving DecidableEq

/-- The running sums of one leg. -/
structure LegSlot where
  net : ℚ := 0
  openQty : ℚ := 0
  notional : ℚ := 0
  signedOpen : ℚ := 0
  removal : ℚ := 0

/-- Whether an action, stripped and lowered, starts with `sell`. -/
def sellsLeg (action : Option String) : Bool :=
  Text.startsWith (Text.lower (verbOf action)) "sell".toList

/-- Add one record to its leg. -/
def addToLeg (slot : LegSlot) (r : LegRecord) : LegSlot :=
  let qty := r.quantity.getD 0
  if opensLeg r.action then
    { slot with
      net := slot.net + qty
      openQty := slot.openQty + qty
      signedOpen := slot.signedOpen + if sellsLeg r.action then -qty else qty
      notional := slot.notional + (r.price.map (· * qty)).getD 0 }
  else if closesLeg r.action then { slot with net := slot.net - qty }
  else if isPositionRemoval r.action r.transactionSubType then
    -- the physical and the cash-settled row are one event
    { slot with removal := max slot.removal qty }
  else slot

/-- The leg of a record: its account, security and group. -/
def legKey (r : LegRecord) : Option (String × String × ℕ) :=
  match r.securityId, r.tradeGroupId with
  | some securityId, some tradeGroupId => some (r.account, securityId, tradeGroupId)
  | _, _ => none

/-- The row of one leg. -/
def legRow (e : (String × String × ℕ) × LegSlot) : OpenGroupLegRow where
  account := e.1.1
  securityId := e.1.2.1
  tradeGroupId := e.1.2.2
  netOpen := truncate (e.2.net - e.2.removal)
  averageOpenPrice := if e.2.openQty = 0 then none else some (e.2.notional / e.2.openQty)
  direction := if e.2.signedOpen < 0 then "Short" else "Long"

def foldOpenGroupLegs (records : List LegRecord) : List OpenGroupLegRow :=
  (Dict.accumulate legKey addToLeg {} records).entries.map legRow

/-! ## The in-memory store -/

/-- The security of a transaction of a wanted group, under its group. -/
def wantedGroup (tradeGroupIds : List ℕ) (t : TxnRow) : Option ℕ :=
  if t.securityId.isSome then t.tradeGroupId.filter (tradeGroupIds.contains ·) else none

/-- What a transaction adds to the count of its leg. -/
def tradedDelta (t : TxnRow) : ℤ :=
  let qty := truncate (t.quantity.getD 0)
  if opensLeg t.action then qty else if closesLeg t.action then -qty else 0

def addTraded (legs : Dict String ℤ) (t : TxnRow) : Dict String ℤ :=
  Dict.addTo TxnRow.securityId (fun n t => n + tradedDelta t) 0 legs t

/-- The group of a settlement row, when it is wanted. -/
def removedGroup (tradeGroupIds : List ℕ) (t : TxnRow) : Option ℕ :=
  if isPositionRemoval t.action t.transactionSubType then wantedGroup tradeGroupIds t else none

def addRemoved (legs : Dict String ℤ) (t : TxnRow) : Dict String ℤ :=
  Dict.addTo TxnRow.securityId (fun n t => max n (truncate (t.quantity.getD 0))) 0 legs t

/-- A dictionary with every value rewritten by its key. -/
def Dict.mapWithKey {κ ν μ : Type} (d : Dict κ ν) (f : κ → ν → μ) : Dict κ μ where
  entries := d.entries.map fun e => (e.1, f e.1 e.2)
  keys_nodup := by
    rw [List.map_map]
    exact d.keys_nodup

namespace InMemoryStore

variable (s : InMemoryStore)

/-- The keys of the open groups. -/
def openIds : List ℕ := (s.tradeGroups.rows.filter fun p => p.2.status = .open).map Prod.fst

def openGroupLegs (account : Option String) : List OpenGroupLegRow :=
  foldOpenGroupLegs ((s.transactions.values.filter fun t =>
    t.tradeGroupId.any (s.openIds.contains ·) && account.all (t.account = ·)).map TxnRow.legRecord)

/-- The open count of each leg of each group; removals are applied once per leg. -/
def netOpenByGroup (tradeGroupIds : List ℕ) : Dict ℕ (Dict String ℤ) :=
  let traded := Dict.accumulate (wantedGroup tradeGroupIds) addTraded .empty s.transactions.values
  let removed := Dict.accumulate (removedGroup tradeGroupIds) addRemoved .empty
    s.transactions.values
  traded.mapWithKey fun tradeGroupId legs => legs.mapWithKey fun securityId n =>
    n - ((removed.get? tradeGroupId).bind (·.get? securityId)).getD 0

end InMemoryStore

/-! ## The SQL store -/

inductive Dialect
  | sqlite
  | postgresql
  deriving DecidableEq

/-- `text LIKE '%suffix'`: SQLite does not tell upper from lower case ASCII letters. -/
def Dialect.like (dialect : Dialect) (text suffix : String) : Bool :=
  match dialect with
  | .sqlite => Text.endsWith (Text.lower text.toList) (Text.lower suffix.toList)
  | .postgresql => Text.endsWith text.toList suffix.toList

/-- `SUM` over a column: missing values are passed over. -/
def sqlSum (column : List (Option ℚ)) : Option ℚ :=
  match column.reduceOption with
  | [] => none
  | values => some values.sum

/-- `MAX` over a column: missing values are passed over. -/
def sqlMax (column : List (Option ℚ)) : Option ℚ := column.reduceOption.max?

namespace SqlLedgerStore

/-- The open legs of the rows a scan returns, joined to the open groups. -/
def openGroupLegs (txns : List TxnRow) (groups : List (ℕ × TradeGroupRow))
    (account : Option String) : List OpenGroupLegRow :=
  foldOpenGroupLegs ((txns.filter fun t =>
    t.securityId.isSome && account.all (t.account = ·) &&
      t.tradeGroupId.any fun pk => groups.any fun p => p.1 = pk && p.2.status = .open).map
        TxnRow.legRecord)

section NetOpen

variable (dialect : Dialect)

def opens (t : TxnRow) : Bool := dialect.like (t.action.getD "") "to Open"

def closes (t : TxnRow) : Bool := dialect.like (t.action.getD "") "to Close"

/-- The column `traded` sums. -/
def tradedCase (t : TxnRow) : Option ℚ :=
  if opens dialect t then t.quantity
  else if closes dialect t then t.quantity.map (-·) else some 0

/-- The column `removal` takes the maximum of. -/
def removalCase (t : TxnRow) : Option ℚ :=
  if t.transactionSubType.any (positionRemovingSubTypes.contains ·) &&
      !(opens dialect t || closes dialect t) then t.quantity
  else some 0

/-- The group and the security a transaction is grouped by. -/
def groupedBy (tradeGroupIds : List ℕ) (t : TxnRow) : Option (ℕ × String) :=
  match t.tradeGroupId, t.securityId with
  | some pk, some sid => if tradeGroupIds.contains pk then some (pk, sid) else none
  | _, _ => none

/-- The open count of one group of rows. -/
def netOpen (rows : List TxnRow) : ℤ :=
  truncate ((sqlSum (rows.map (tradedCase dialect))).getD 0) -
    truncate ((sqlMax (rows.map (removalCase dialect))).getD 0)

def netOpenByGroup (txns : List TxnRow) (tradeGroupIds : List ℕ) : Dict ℕ (Dict String ℤ) :=
  (groupBy (groupedBy tradeGroupIds) txns).entries.foldl
    (fun result e => result.set e.1.1
      (((result.get? e.1.1).getD .empty).set e.1.2 (netOpen dialect e.2))) .empty

end NetOpen

end SqlLedgerStore

end TtLedger
