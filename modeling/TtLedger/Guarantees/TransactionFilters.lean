import TtLedger.Store.Bands

/-!
# Transaction filters on the two stores

A `TransactionQuery` as the in-memory store tests it row by row (`TransactionQuery.keeps`) and as
the SQL store states it in `WHERE` terms (`SqlLedgerStore.selects`). The terms on the columns and
the calendar windows agree on every row, undated rows included. They part on one kind of query: an
instant bound on one side and a calendar bound on the other, which the in-memory store passes over
(`keeps_iff_selects_iff`). It then keeps more rows than the SQL store, never fewer
(`keeps_of_selects`).
-/

namespace TtLedger

open SqlLedgerStore

/-! ## The window -/

theorem day_pos : 0 < day := by decide

theorem dayStart_le_iff {d : Date} {t : Datetime} : dayStart d ≤ t ↔ d ≤ Datetime.date t :=
  (Int.le_ediv_iff_mul_le day_pos).symm

theorem lt_dayStart_add_day_iff {d : Date} {t : Datetime} :
    t < dayStart d + day ↔ Datetime.date t ≤ d := by
  have h : dayStart d + day = (d + 1) * day := by rw [dayStart, add_mul, one_mul]
  rw [h, ← Int.ediv_lt_iff_lt_mul day_pos]
  exact Int.lt_add_one_iff

/-- The tests of a query on the columns of a row other than its time. -/
def TransactionQuery.columnsMatch (q : TransactionQuery) (txn : TxnRow) : Bool :=
  q.account.all (txn.account = ·) && q.accounts.all (·.contains txn.account) &&
    q.underlying.all (txn.underlying = some ·) &&
    q.transactionType.all (txn.transactionType = some ·) &&
    q.tradeGroupId.all (txn.tradeGroupId = some ·)

/-- The SQL store's terms on the time of a row: each side has its instant bound, else its calendar
bound, and a bound rejects an undated row. -/
def windowHolds (q : TransactionQuery) (value : Option Datetime) : Bool :=
  (if q.startAt.isSome then q.startAt.all fun startAt => value.any (startAt ≤ ·)
    else inRange value q.start none) &&
  (if q.endAt.isSome then q.endAt.all fun endAt => value.any (· < endAt)
    else inRange value none q.stop)

theorem keeps_eq (q : TransactionQuery) (txn : TxnRow) :
    q.keeps txn = (q.columnsMatch txn && inWindow txn.executedAt q) := by
  simp only [TransactionQuery.keeps, TransactionQuery.columnsMatch]
  ac_rfl

theorem all_term {β : Type} (filter : Option β) (condition : β → TxnRow → Truth) (txn : TxnRow) :
    ((term filter condition).map fun c => c txn).all Truth.holds =
      filter.all fun b => (condition b txn).holds := by
  cases filter <;> simp [term]

/-- The SQL store selects a row by the same tests on its columns, and by its own window. -/
theorem selects_eq (q : TransactionQuery) (txn : TxnRow) :
    selects q txn = (q.columnsMatch txn && windowHolds q txn.executedAt) := by
  have hcolumn : ∀ {β : Type} [DecidableEq β] (x y : Option β),
      (x.all fun b => y.any fun a => decide (a = b)) = x.all fun b => decide (y = some b) := by
    intro β _ x y
    cases x <;> cases y <;> simp
  have hstart : (q.start.all fun d => txn.executedAt.any fun t => decide (dayStart d ≤ t)) =
      inRange txn.executedAt q.start none := by
    cases q.start <;> cases txn.executedAt <;> simp [inRange, dayStart_le_iff]
  have hstop : (q.stop.all fun d => txn.executedAt.any fun t => decide (t < dayStart d + day)) =
      inRange txn.executedAt none q.stop := by
    cases q.stop <;> cases txn.executedAt <;> simp [inRange, lt_dayStart_add_day_iff]
  rw [selects, Truth.holds_all, transactionConditions]
  simp only [List.map_append, List.all_append, all_term, Truth.holds_test, hcolumn,
    TransactionQuery.columnsMatch, windowHolds, Option.any_some]
  cases q.startAt.isSome <;> cases q.endAt.isSome <;>
    simp only [Bool.false_eq_true, if_true, if_false, all_term, Truth.holds_test, hstart, hstop] <;>
    ac_rfl

/-! ## Where the windows part -/

/-- The first calendar day of a query, where the in-memory store passes over it: no instant bounds
that side, one bounds the other. -/
def TransactionQuery.overlookedStart (q : TransactionQuery) : Option Date :=
  if q.startAt.isNone ∧ q.endAt.isSome then q.start else none

/-- The last calendar day of a query, where the in-memory store passes over it. -/
def TransactionQuery.overlookedStop (q : TransactionQuery) : Option Date :=
  if q.endAt.isNone ∧ q.startAt.isSome then q.stop else none

/-- A row that the query's other tests admit is inside the calendar bounds that are passed over. -/
def TransactionQuery.OverlooksNothing (q : TransactionQuery) (txn : TxnRow) : Prop :=
  ∀ t, txn.executedAt = some t → q.columnsMatch txn → q.startAt.all (· ≤ t) →
    q.endAt.all (t < ·) → inRange (some t) q.overlookedStart q.overlookedStop

/-- The in-memory window is the SQL store's without the bounds that are passed over. -/
theorem windowHolds_eq (q : TransactionQuery) (value : Option Datetime) :
    windowHolds q value = (inWindow value q &&
      value.all fun t => inRange (some t) q.overlookedStart q.overlookedStop) := by
  cases value <;> cases hsa : q.startAt <;> cases hea : q.endAt <;>
    simp [windowHolds, inWindow, inRange, TransactionQuery.overlookedStart,
      TransactionQuery.overlookedStop, hsa, hea]
  exact Bool.and_comm _ _

/-- The SQL store selects no row that the in-memory store drops. -/
theorem keeps_of_selects {q : TransactionQuery} {txn : TxnRow} (h : selects q txn) :
    q.keeps txn := by
  rw [selects_eq, windowHolds_eq] at h
  rw [keeps_eq]
  simp only [Bool.and_eq_true] at h ⊢
  exact ⟨h.1, h.2.1⟩

/-- Nothing is overlooked on a row that both stores treat alike. -/
theorem overlooksNothing_iff (q : TransactionQuery) (txn : TxnRow) :
    q.OverlooksNothing txn ↔ (q.keeps txn ↔ selects q txn) := by
  have hsplit : (q.keeps txn ↔ selects q txn) ↔ (q.columnsMatch txn → inWindow txn.executedAt q →
      txn.executedAt.all fun t => inRange (some t) q.overlookedStart q.overlookedStop) := by
    rw [selects_eq, windowHolds_eq, keeps_eq]
    simp only [Bool.and_eq_true]
    tauto
  rw [hsplit, TransactionQuery.OverlooksNothing]
  cases htime : txn.executedAt with
  | none => simp
  | some t =>
    cases hsa : q.startAt <;> cases hea : q.endAt <;>
      simp [inWindow, hsa, hea, TransactionQuery.overlookedStart, TransactionQuery.overlookedStop,
        inRange]

/-- **Transaction filters**: a row passes the in-memory filter exactly when the SQL store's terms
are true of it, on the queries and rows for which the in-memory store passes over no calendar
bound that would have rejected the row. -/
theorem keeps_iff_selects_iff (q : TransactionQuery) (txn : TxnRow) :
    (q.keeps txn ↔ selects q txn) ↔ q.OverlooksNothing txn :=
  (overlooksNothing_iff q txn).symm

/-! ## A query with mixed bounds -/

namespace MixedBounds

/-- From an instant on, until the end of a calendar day. -/
def query : TransactionQuery where
  startAt := some (Date.at 20636 4 0)
  stop := some 20636

/-- A trade three days later. -/
def trade : TxnRow := .fill "main" "T-1" "1001" "Buy to Open" "equity:AAPL" 1 (Date.at 20639 15 0)

/-- The in-memory store keeps the trade, and the SQL store does not select it. -/
theorem not_keeps_iff_selects : ¬ (query.keeps trade ↔ selects query trade) := by
  decide

end MixedBounds

end TtLedger
