import TtLedger.Guarantees.TransactionFilters
import TtLedger.Ingest.Scope
import TtLedger.Store.Sql

/-!
# The SQL store holds the in-memory store

`Agrees s db` says that each table of the database holds the rows of the in-memory store's table,
under the same keys, as the columns store them. Each upsert keeps the stores in agreement and
returns the ids that the in-memory store does (`Agrees.upsertOrders` to
`Agrees.upsertClosedPosition`): what `ON CONFLICT` sets from the present row is what the in-memory
store preserves of it. An order under the empty id is the exception, which the in-memory store
does not look up.
-/

namespace TtLedger

/-- The database holds the rows of the in-memory store, and no order is stored under an empty
id. -/
structure Agrees (s : InMemoryStore) (db : SqlDatabase) : Prop where
  orders : Represents OrderRow.stored s.orders db.orders
  transactions : Represents TxnRow.stored s.transactions db.transactions
  securities : Represents SecurityRow.stored s.securities db.securities
  positions : Represents PositionRow.stored s.positions db.positions
  closedPositions : Represents ClosedPositionRow.stored s.closedPositions db.closedPositions
  tradeGroups : Represents TradeGroupRow.stored s.tradeGroups db.tradeGroups
  events : Represents EventRow.stored s.events db.tradeGroupEvents
  named : ∀ o ∈ s.orders.values, o.ttOrderId ≠ some ""

/-- An empty database holds the empty store. -/
theorem agrees_empty (clock : Datetime) : Agrees (InMemoryStore.empty clock) {} where
  orders := .empty
  transactions := .empty
  securities := .empty
  positions := .empty
  closedPositions := .empty
  tradeGroups := .empty
  events := .empty
  named o ho := by cases ho

section Upserts

variable {s : InMemoryStore} {db : SqlDatabase}

/-! ## Upserts -/

theorem upsertInto_eq {T κ : Type} [DecidableEq κ] (key : T → Option κ) (doUpdate : T → T → T)
    (columns : ℕ) (rel : Rows T) (rows : List T) :
    SqlDatabase.upsertInto key doUpdate columns rel rows =
      Rows.insertRows key doUpdate rel rows := by
  unfold SqlDatabase.upsertInto
  split
  · rename_i h
    rw [List.isEmpty_iff.mp h]
    rfl
  · exact Rows.insertChunks_eq (Nat.lt_of_lt_of_le Nat.zero_lt_one (Nat.le_max_left _ _)) rel rows

theorem coalesce_eq {α : Type} (excluded present : Option α) :
    SqlDatabase.coalesce excluded present = (excluded <|> present) := by
  cases excluded <;> rfl

theorem updateOrder_stored (present row : OrderRow) :
    SqlDatabase.updateOrder present.stored row.stored =
      (InMemoryStore.preserveOrder present row).stored := by
  simp [SqlDatabase.updateOrder, InMemoryStore.preserveOrder, OrderRow.stored,
    OrderRow.heldIn, coalesce_eq]

theorem updateTransaction_stored (present row : TxnRow) :
    SqlDatabase.updateTransaction present.stored row.stored =
      (InMemoryStore.preserveTransaction present row).stored := by
  simp [SqlDatabase.updateTransaction, InMemoryStore.preserveTransaction, TxnRow.stored,
    TxnRow.heldIn, coalesce_eq]

theorem key_preserveOrder (present row : OrderRow) :
    OrderRow.key (InMemoryStore.preserveOrder present row) = OrderRow.key row := rfl

/-- An order that is not under the empty id is stored over what its id holds. -/
theorem storedOrder_eq_merged {row : OrderRow} (hrow : row.ttOrderId ≠ some "") :
    storedOrder s row = Represents.merged InMemoryStore.preserveOrder s.orders row := by
  unfold storedOrder Represents.merged
  rw [OrderRow.key]
  cases hk : row.ttOrderId with
  | none => rfl
  | some k =>
    have htruthy : truthy (some k) = true := by
      rw [hk] at hrow
      simpa [truthy] using hrow
    rw [if_pos htruthy]
    cases (some k).bind s.orders.getByKey <;> rfl

theorem upsertOrders_eq_merged {rows : List OrderRow}
    (hrows : ∀ row ∈ rows, row.ttOrderId ≠ some "") :
    s.upsertOrders rows =
      ((Represents.upsertMerged InMemoryStore.preserveOrder s.orders rows).1,
        { s with
          orders := (Represents.upsertMerged InMemoryStore.preserveOrder s.orders rows).2 }) := by
  have hall : ∀ (rows : List OrderRow) (r : List ℕ × InMemoryStore),
      (∀ row ∈ rows, row.ttOrderId ≠ some "") →
      ∀ x, rows.foldl (Represents.upsertNext InMemoryStore.preserveOrder) (r.1, r.2.orders) = x →
      rows.foldl (fun r row => let u := InMemoryStore.upsertOrder r.2 row; (r.1 ++ [u.1], u.2)) r =
        (x.1, { r.2 with orders := x.2 }) := by
    intro rows
    induction rows with
    | nil =>
      rintro r - x rfl
      rfl
    | cons row rows ih =>
      intro r hrows x hx
      have hrow := storedOrder_eq_merged (s := r.2) (hrows row (.head _))
      rw [List.foldl_cons] at hx ⊢
      simp only [upsertOrder_eq, hrow]
      exact ih _ (fun row' hrow' => hrows row' (.tail _ hrow')) x hx
  exact hall rows ([], s) hrows _ rfl

theorem upsertTransactions_eq_merged (rows : List TxnRow) :
    s.upsertTransactions rows =
      { s with transactions :=
          (Represents.upsertMerged InMemoryStore.preserveTransaction s.transactions rows).2 } := by
  have hall : ∀ (rows : List TxnRow) (ids : List ℕ) (s : InMemoryStore),
      ∀ x, rows.foldl (Represents.upsertNext InMemoryStore.preserveTransaction)
          (ids, s.transactions) = x →
      rows.foldl InMemoryStore.upsertTransaction s = { s with transactions := x.2 } := by
    intro rows
    induction rows with
    | nil =>
      rintro ids s x rfl
      rfl
    | cons row rows ih =>
      intro ids s x hx
      have hrow : s.upsertTransaction row = { s with transactions :=
          (s.transactions.upsert
            (Represents.merged InMemoryStore.preserveTransaction s.transactions row)).2 } := by
        unfold InMemoryStore.upsertTransaction Represents.merged
        rw [TxnRow.key, Option.bind_some]
        cases s.transactions.getByKey row.ttTransactionId <;> rfl
      rw [List.foldl_cons] at hx ⊢
      rw [hrow]
      exact ih _ _ x hx
  exact hall rows [] s _ rfl

theorem merged_takeExcluded {T κ : Type} [DecidableEq κ] {key : T → Option κ} (t : Table key)
    (row : T) : Represents.merged SqlDatabase.takeExcluded t row = row := by
  unfold Represents.merged
  cases (key row).bind t.getByKey <;> rfl

/-- A batch that takes every incoming column is a batch of plain upserts. -/
theorem upsertMerged_takeExcluded {T κ : Type} [DecidableEq κ] {key : T → Option κ}
    (t : Table key) (rows : List T) :
    Represents.upsertMerged SqlDatabase.takeExcluded t rows = t.upsertEach rows := by
  unfold Represents.upsertMerged Table.upsertEach
  congr 1
  funext r row
  rw [Represents.upsertNext, merged_takeExcluded]

/-- A row that overwrites. -/
theorem Represents.insertOne {T κ : Type} [DecidableEq κ] {key : T → Option κ} {store : T → T}
    {t : Table key} {rel : Rows T} (h : Represents store t rel)
    (hkey : ∀ r, key (store r) = key r) (row : T) :
    (Rows.insertRow key SqlDatabase.takeExcluded rel (store row)).1 = (t.upsert row).1 ∧
      Represents store (t.upsert row).2
        (Rows.insertRow key SqlDatabase.takeExcluded rel (store row)).2 := by
  have htake : ∀ present row : T, key (SqlDatabase.takeExcluded present row) = key row :=
    fun _ _ => rfl
  have hupdate : ∀ present row : T, SqlDatabase.takeExcluded (store present) (store row) =
      store (SqlDatabase.takeExcluded present row) := fun _ _ => rfl
  have hrow := h.insertRow hkey htake hupdate row
  rwa [merged_takeExcluded] at hrow

/-- A batch of rows that overwrite. -/
theorem Represents.upsertInto {T κ : Type} [DecidableEq κ] {key : T → Option κ} {store : T → T}
    {t : Table key} {rel : Rows T} (h : Represents store t rel)
    (hkey : ∀ r, key (store r) = key r) (columns : ℕ) (rows : List T) :
    (SqlDatabase.upsertInto key SqlDatabase.takeExcluded columns rel (rows.map store)).1 =
        (t.upsertEach rows).1 ∧
      Represents store (t.upsertEach rows).2
        (SqlDatabase.upsertInto key SqlDatabase.takeExcluded columns rel (rows.map store)).2 := by
  rw [upsertInto_eq, ← upsertMerged_takeExcluded]
  exact h.insertRows hkey (fun _ _ => rfl) (fun _ _ => rfl) rows

theorem upsertEach_snd {T κ : Type} [DecidableEq κ] {key : T → Option κ} (t : Table key)
    (rows : List T) : (t.upsertEach rows).2 = t.upsertAll rows := by
  have hall : ∀ (rows : List T) (ids : List ℕ) (t : Table key),
      (rows.foldl (fun r row => let u := r.2.upsert row; (r.1 ++ [u.1], u.2)) (ids, t)).2 =
        t.upsertAll rows := by
    intro rows
    induction rows with
    | nil => exact fun _ _ => rfl
    | cons row rows ih => exact fun ids t => ih _ _
  exact hall rows [] t

namespace Agrees

theorem upsertOrders (h : Agrees s db) {rows : List OrderRow}
    (hrows : ∀ row ∈ rows, row.ttOrderId ≠ some "") :
    (db.upsertOrders rows).1 = (s.upsertOrders rows).1 ∧
      Agrees (s.upsertOrders rows).2 (db.upsertOrders rows).2 := by
  have hrep := h.orders.insertRows (fun _ => rfl) key_preserveOrder updateOrder_stored rows
  have hnamed : ∀ o ∈ (Represents.upsertMerged InMemoryStore.preserveOrder s.orders rows).2.values,
      OrderRow.key o ≠ some "" :=
        Represents.key_ne_upsertMerged key_preserveOrder h.named hrows
  rw [← upsertInto_eq OrderRow.key SqlDatabase.updateOrder 36] at hrep
  rw [upsertOrders_eq_merged hrows]
  exact ⟨hrep.1, { h with orders := hrep.2, named := hnamed }⟩

theorem upsertTransactions (h : Agrees s db) (rows : List TxnRow) :
    Agrees (s.upsertTransactions rows) (db.upsertTransactions rows) := by
  have hkey : ∀ present row, TxnRow.key (InMemoryStore.preserveTransaction present row) =
      TxnRow.key row := fun _ _ => rfl
  have hrep := (h.transactions.insertRows (fun _ => rfl) hkey updateTransaction_stored rows).2
  rw [← upsertInto_eq TxnRow.key SqlDatabase.updateTransaction 32] at hrep
  rw [upsertTransactions_eq_merged]
  exact { h with transactions := hrep }

theorem upsertSecurity (h : Agrees s db) (sec : SecurityRow) :
    Agrees (s.upsertSecurity sec) (db.upsertSecurity sec) :=
  { h with securities := (h.securities.upsertInto (fun _ => rfl) 17 [sec]).2 }

theorem upsertPositions (h : Agrees s db) (rows : List PositionRow) :
    Agrees (s.upsertPositions rows) (db.upsertPositions rows) := by
  have hrep := (h.positions.upsertInto (fun _ => rfl) 18 rows).2
  rw [upsertEach_snd] at hrep
  exact { h with positions := hrep }

theorem upsertTradeGroup (h : Agrees s db) (tg : TradeGroupRow) :
    (db.upsertTradeGroup tg).1 = (s.upsertTradeGroup tg).1 ∧
      Agrees (s.upsertTradeGroup tg).2 (db.upsertTradeGroup tg).2 := by
  obtain ⟨hids, hrep⟩ := h.tradeGroups.upsertInto (fun _ => rfl) 34 [tg]
  refine ⟨?_, { h with tradeGroups := hrep }⟩
  rw [SqlDatabase.upsertTradeGroup]
  simp only []
  rw [show [tg.stored] = [tg].map TradeGroupRow.stored from rfl, hids]
  rfl

theorem addTradeGroupEvent (h : Agrees s db) (now : Datetime) (ev : EventRow) :
    Agrees ({ s with clock := now }.addTradeGroupEvent ev) (db.addTradeGroupEvent now ev) := by
  let row : EventRow := { ev with eventAt := some (ev.eventAt.getD now) }
  have hrep := (h.events.insertOne (fun _ => rfl) row).2
  exact { h with events := hrep }

/-- The look-up before the write finds the row that a unique index would. -/
theorem upsertClosedPosition (h : Agrees s db) {row : ClosedPositionRow}
    (hrow : row.closedAt.isSome) :
    (db.upsertClosedPosition row).1 = .ok (s.upsertClosedPosition row).1 ∧
      Agrees (s.upsertClosedPosition row).2 (db.upsertClosedPosition row).2 := by
  obtain ⟨hid, hrep⟩ := h.closedPositions.insertOne (fun _ => rfl) row
  have hfind : (db.closedPositions.find? fun p => p.2.account = row.account &&
      p.2.securityId = row.securityId && p.2.openedAt = row.openedAt &&
      p.2.closedAt = row.closedAt) =
      Rows.conflict ClosedPositionRow.key db.closedPositions row.stored := by
    rw [Rows.conflict, ClosedPositionRow.key, Option.bind_some]
    congr 1
    funext p
    rw [Bool.eq_iff_iff]
    simp [ClosedPositionRow.key, ClosedPositionRow.stored, ClosedPositionRow.heldIn, and_assoc]
  have hwrite : db.upsertClosedPosition row =
      (.ok (Rows.insertRow ClosedPositionRow.key SqlDatabase.takeExcluded db.closedPositions
          row.stored).1,
        { db with closedPositions := (Rows.insertRow ClosedPositionRow.key SqlDatabase.takeExcluded
          db.closedPositions row.stored).2 }) := by
    rw [SqlDatabase.upsertClosedPosition, hfind, Rows.insertRow]
    cases Rows.conflict ClosedPositionRow.key db.closedPositions row.stored with
    | some p => rfl
    | none =>
      have hsome : row.closedAt.isNone = false := by
        rw [← Option.not_isSome, hrow]
        rfl
      simp [hsome]
  rw [hwrite, hid]
  exact ⟨rfl, { h with closedPositions := hrep }⟩

end Agrees

end Upserts

end TtLedger
