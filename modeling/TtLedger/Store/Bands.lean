import TtLedger.Foundations.Ranking
import TtLedger.Foundations.Relational
import TtLedger.Store.Memory
import Mathlib.Data.Prod.Lex

/-!
# Transactions paged in bands

The filtered reads of the transactions table, as each store computes them. A band is a trade group
with every matching row of it, or a lone row without a group; `queryTransactionBands` pages in
units of bands. The in-memory store sorts all matching rows, newest first, and folds them into
bands as they come; the SQL store picks the bands of the page by an aggregate query, joins their
rows back and counts both in two further statements. The surrogate id of a row stands in the table
beside the row.
-/

namespace TtLedger

/-- The filters of a transactions read; `limit` and `offset` count the rows, or the bands, of its
result. -/
structure TransactionQuery where
  account : Option String := none
  accounts : Option (List String) := none
  start : Option Date := none
  /-- The last calendar day, inclusive. -/
  stop : Option Date := none
  startAt : Option Datetime := none
  /-- The end of the instants, exclusive. -/
  endAt : Option Datetime := none
  underlying : Option String := none
  transactionType : Option String := none
  tradeGroupId : Option ℕ := none
  limit : ℕ := 100
  offset : ℕ := 0

/-- A transactions row with its surrogate id and what its order adds. -/
structure TransactionDetailRow where
  id : ℕ
  ttTransactionId : String
  account : String
  transactionType : Option String
  transactionSubType : Option String
  action : Option String
  description : Option String
  securityId : Option String
  underlying : Option String
  quantity : Option ℚ
  price : Option ℚ
  netValue : Option ℚ
  netValueEffect : Option String
  commission : Option ℚ
  clearingFees : Option ℚ
  regulatoryFees : Option ℚ
  proprietaryIndexOptionFees : Option ℚ
  executedAt : Option Datetime
  orderId : Option ℕ
  ttOrderId : Option String
  tradeGroupId : Option ℕ
  /-- From the joined order. -/
  signalId : Option String
  deriving DecidableEq

/-- One page of bands. -/
structure TransactionBandPage where
  rows : List TransactionDetailRow
  bandTotal : ℕ
  rowTotal : ℕ
  deriving DecidableEq

/-- The read shape of a row under its id, with the signal of its order. -/
def TxnRow.detail (id : ℕ) (txn : TxnRow) (signalId : Option String) : TransactionDetailRow where
  id
  ttTransactionId := txn.ttTransactionId
  account := txn.account
  transactionType := txn.transactionType
  transactionSubType := txn.transactionSubType
  action := txn.action
  description := txn.description
  securityId := txn.securityId
  underlying := txn.underlying
  quantity := txn.quantity
  price := txn.price
  netValue := txn.netValue
  netValueEffect := txn.netValueEffect
  commission := txn.commission
  clearingFees := txn.clearingFees
  regulatoryFees := txn.regulatoryFees
  proprietaryIndexOptionFees := txn.proprietaryIndexOptionFees
  executedAt := txn.executedAt
  orderId := txn.orderId
  ttOrderId := txn.ttOrderId
  tradeGroupId := txn.tradeGroupId
  signalId

/-- The key of a row's band: a group and a row never share one. -/
def bandKey (tradeGroupId : Option ℕ) (id : ℕ) : String :=
  match tradeGroupId with
  | some pk => s!"g{pk}"
  | none => s!"t{id}"

/-- The band of a row under its id. -/
def bandOf (row : ℕ × TxnRow) : String := bandKey row.2.tradeGroupId row.1

/-! ## The in-memory store -/

/-- Instant bounds when either is given, else the calendar days. -/
def inWindow (value : Option Datetime) (q : TransactionQuery) : Bool :=
  if q.startAt.isSome || q.endAt.isSome then
    match value with
    | none => false
    | some t => q.startAt.all (· ≤ t) && q.endAt.all (t < ·)
  else inRange value q.start q.stop

/-- The rows the in-memory store keeps. -/
def TransactionQuery.keeps (q : TransactionQuery) (txn : TxnRow) : Bool :=
  q.account.all (txn.account = ·) && q.accounts.all (·.contains txn.account) &&
    inWindow txn.executedAt q && q.underlying.all (txn.underlying = some ·) &&
    q.transactionType.all (txn.transactionType = some ·) &&
    q.tradeGroupId.all (txn.tradeGroupId = some ·)

/-- Newest first, undated rows last, then the highest id. -/
def newestFirst (row : ℕ × TxnRow) : Bool ×ₗ ℤ ×ₗ ℤ :=
  toLex (row.2.executedAt.isNone, toLex (-row.2.executedAt.getD 0, -(row.1 : ℤ)))

namespace InMemoryStore

def transactionDetail (s : InMemoryStore) (row : ℕ × TxnRow) : TransactionDetailRow :=
  row.2.detail row.1 ((row.2.orderId.bind s.orders.get).bind OrderRow.signalId)

/-- The rows of a query under their ids, in the order of the table. -/
def matched (s : InMemoryStore) (q : TransactionQuery) : List (ℕ × TxnRow) :=
  s.transactions.rows.filter fun row => q.keeps row.2

def queryTransactions (s : InMemoryStore) (q : TransactionQuery) :
    List TransactionDetailRow × ℕ :=
  let matched := sortOn newestFirst (s.matched q)
  ((page matched q.offset q.limit).map s.transactionDetail, matched.length)

def queryTransactionBands (s : InMemoryStore) (q : TransactionQuery) : TransactionBandPage :=
  let r := s.queryTransactions { q with limit := s.transactions.rows.length + 1, offset := 0 }
  let bands := groupBy (fun row => some (bandKey row.tradeGroupId row.id)) r.1
  let keys := page bands.keys q.offset q.limit
  { rows := keys.flatMap fun key => (bands.get? key).getD []
    bandTotal := bands.keys.length
    rowTotal := r.2 }

end InMemoryStore

/-! ## The SQL store -/

/-- Midnight of a calendar day. -/
def dayStart (d : Date) : Datetime := d * day

namespace SqlLedgerStore

/-- The term of a filter, when the filter is given. -/
def term {β : Type} (filter : Option β) (condition : β → TxnRow → Truth) :
    List (TxnRow → Truth) :=
  filter.toList.map condition

/-- The `WHERE` terms of a query, on the columns of a row. -/
def transactionConditions (q : TransactionQuery) : List (TxnRow → Truth) :=
  term q.account (fun account txn => .test (· = account) (some txn.account)) ++
  term q.accounts (fun accounts txn => .test accounts.contains (some txn.account)) ++
  -- an instant bound wins over the calendar bound of its own side
  (if q.startAt.isSome then
    term q.startAt fun startAt txn => .test (startAt ≤ ·) txn.executedAt
  else term q.start fun start txn => .test (dayStart start ≤ ·) txn.executedAt) ++
  (if q.endAt.isSome then
    term q.endAt fun endAt txn => .test (· < endAt) txn.executedAt
  else term q.stop fun stop txn => .test (· < dayStart stop + day) txn.executedAt) ++
  term q.underlying (fun underlying txn => .test (· = underlying) txn.underlying) ++
  term q.transactionType
    (fun transactionType txn => .test (· = transactionType) txn.transactionType) ++
  term q.tradeGroupId (fun tradeGroupId txn => .test (· = tradeGroupId) txn.tradeGroupId)

/-- A row is selected when the conjunction of the terms is true of it. -/
def selects (q : TransactionQuery) (txn : TxnRow) : Bool :=
  (Truth.all ((transactionConditions q).map fun condition => condition txn)).holds

/-- The base subquery: the selected rows under their ids; `bandOf` is its computed column. -/
def base (s : InMemoryStore) (q : TransactionQuery) : List (ℕ × TxnRow) :=
  s.transactions.rows.filter fun row => selects q row.2

/-- A band with its aggregates. -/
structure BandRow where
  band : String
  bandTs : Option Datetime
  bandId : Option ℕ
  deriving DecidableEq

/-- The bands of the base rows with their newest time and highest id. -/
def bandRows (base : List (ℕ × TxnRow)) : List BandRow :=
  (base.map bandOf).eraseDups.map fun band =>
    let rows := base.filter fun row => bandOf row = band
    ⟨band, maxColumn (fun row => row.2.executedAt) rows, maxColumn (fun row => some row.1) rows⟩

/-- Newest band first, undated bands last, then the highest id. -/
def bandOrder (row : BandRow) : WithTop Datetimeᵒᵈ ×ₗ WithTop ℕᵒᵈ :=
  toLex (descNullsLast row.bandTs, descNullsLast row.bandId)

/-- The order of the rows of a page: by band, and newest first inside a band. -/
def rowOrder (row : ((ℕ × TxnRow) × BandRow) × Option (ℕ × OrderRow)) :
    (WithTop Datetimeᵒᵈ ×ₗ WithTop ℕᵒᵈ) ×ₗ WithTop Datetimeᵒᵈ ×ₗ ℕᵒᵈ :=
  toLex (bandOrder row.1.2, toLex (descNullsLast row.1.1.2.executedAt, desc row.1.1.1))

def queryTransactionBands (s : InMemoryStore) (q : TransactionQuery) : TransactionBandPage :=
  let base := base s q
  let bands := page (sortOn bandOrder (bandRows base)) q.offset q.limit
  let joined := outerJoin
    (fun row (order : ℕ × OrderRow) => decide (row.1.2.orderId = some order.1))
    (innerJoin (fun row (band : BandRow) => decide (bandOf row = band.band)) base bands)
    s.orders.rows
  { rows := (sortOn rowOrder joined).map fun row =>
      row.1.1.2.detail row.1.1.1 (row.2.bind fun order => order.2.signalId)
    bandTotal := (bandRows base).length
    rowTotal := (s.transactions.rows.filter fun row => selects q row.2).length }

end SqlLedgerStore

end TtLedger
