import TtLedger.Ingest.Frames
import TtLedger.Ingest.Tasks

/-!
# How the ledger grows

No call deletes a row. `Table.Grows t t'` says that the rows of `t` keep their surrogate ids, their
natural keys and their places in `t'`, and that new rows come after them under ids not given out
before; `AppendOnly s s'` says so of every table, and that the trade group events, the ledger's
audit trail, are appended to and never changed. Every call of either store is such a step
(`appendOnly_handler`).
-/

namespace TtLedger

/-! ## Tables -/

namespace Table

variable {T κ : Type} {key : T → Option κ}

/-- The ids of the rows with their natural keys, in insertion order. -/
def index (t : Table key) : List (ℕ × Option κ) := t.rows.map fun p => (p.1, key p.2)

@[simp] theorem index_modify (t : Table key) (f : T → T) (hf : ∀ r, key (f r) = key r) :
    (t.modify f hf).index = t.index := by
  simp [index, modify, hf]

/-- The rows stored keep their ids, keys and places; new ones come after them, under ids that had
not been given out. -/
structure Grows (t t' : Table key) : Prop where
  index : t.index <+: t'.index
  fresh : ∀ p ∈ t'.index.drop t.index.length, t.nextId ≤ p.1
  nextId : t.nextId ≤ t'.nextId

namespace Grows

variable {t t' t'' : Table key}

theorem refl (t : Table key) : t.Grows t where
  index := List.prefix_refl _
  fresh p hp := by simp at hp
  nextId := Nat.le_refl _

theorem trans (h : t.Grows t') (h' : t'.Grows t'') : t.Grows t'' where
  index := h.index.trans h'.index
  fresh p hp := by
    obtain ⟨new, hnew⟩ := h.index
    obtain ⟨new', hnew'⟩ := h'.index
    have hold := h.fresh
    have hlate := h'.fresh
    rw [← hnew, List.drop_left] at hold
    rw [← hnew', List.drop_left] at hlate
    rw [← hnew', ← hnew, List.append_assoc, List.drop_left] at hp
    rcases List.mem_append.mp hp with hp | hp
    · exact hold p hp
    · exact h.nextId.trans (hlate p hp)
  nextId := h.nextId.trans h'.nextId

theorem modify (t : Table key) (f : T → T) (hf : ∀ r, key (f r) = key r) :
    t.Grows (t.modify f hf) where
  index := by simp
  fresh p hp := by simp at hp
  nextId := Nat.le_refl _

variable [DecidableEq κ]

theorem overwrite (t : Table key) (row : T) : t.Grows (t.overwrite row) := modify t _ _

theorem upsert (t : Table key) (row : T) : t.Grows (t.upsert row).2 := by
  cases h : (key row).bind t.idOf with
  | none =>
    obtain ⟨-, hrows, hnext⟩ := t.upsert_of_new row h
    have hindex : (t.upsert row).2.index = t.index ++ [(t.nextId, key row)] := by
      rw [Table.index, hrows, List.map_append]
      rfl
    refine ⟨?_, fun p hp => ?_, ?_⟩
    · rw [hindex]
      exact List.prefix_append _ _
    · rw [hindex, List.drop_left, List.mem_singleton] at hp
      rw [hp]
    · rw [hnext]
      exact Nat.le_succ _
  | some i =>
    rw [t.upsert_of_old row h]
    exact overwrite t row

theorem upsertAll (t : Table key) (rows : List T) : t.Grows (t.upsertAll rows) := by
  induction rows generalizing t with
  | nil => exact refl t
  | cons row rows ih => exact (upsert t row).trans (ih _)

omit [DecidableEq κ] in
/-- A row stored under an id is there for good, under the same key. -/
theorem get (h : t.Grows t') {i : ℕ} {r : T} (hr : t.get i = some r) :
    ∃ r', t'.get i = some r' ∧ key r' = key r := by
  have hmem : (i, key r) ∈ t'.index :=
    h.index.subset (List.mem_map.mpr ⟨(i, r), get_eq_some.mp hr, rfl⟩)
  obtain ⟨p, hp, heq⟩ := List.mem_map.mp hmem
  obtain ⟨rfl, hkey⟩ := Prod.mk.inj heq
  exact ⟨p.2, get_eq_some.mpr hp, hkey⟩

/-- A key stored stays stored. -/
theorem isSome_getByKey (h : t.Grows t') {k : κ} (hk : (t.getByKey k).isSome) :
    (t'.getByKey k).isSome := by
  obtain ⟨r, hr⟩ := Option.isSome_iff_exists.mp hk
  obtain ⟨⟨i, hi⟩, hrk⟩ := getByKey_eq_some.mp hr
  obtain ⟨r', hr', hkey⟩ := h.get (get_eq_some.mpr hi)
  rw [getByKey_eq_some.mpr ⟨⟨i, get_eq_some.mp hr'⟩, hkey.trans hrk⟩]
  rfl

end Grows

/-- The rows after an upsert are the row and rows there were. -/
theorem eq_or_mem_of_mem_values_upsert [DecidableEq κ] {t : Table key} {row r : T}
    (h : r ∈ (t.upsert row).2.values) : r = row ∨ r ∈ t.values := by
  obtain ⟨i, hi⟩ := mem_values.mp h
  rw [get_upsert] at hi
  split at hi
  · exact Or.inl (Option.some.inj hi).symm
  · exact Or.inr (mem_values.mpr ⟨i, hi⟩)

end Table

/-! ## Stores -/

/-- Every table keeps its rows, and the events are appended to. -/
structure AppendOnly (s s' : InMemoryStore) : Prop where
  orders : s.orders.Grows s'.orders
  transactions : s.transactions.Grows s'.transactions
  securities : s.securities.Grows s'.securities
  positions : s.positions.Grows s'.positions
  closedPositions : s.closedPositions.Grows s'.closedPositions
  tradeGroups : s.tradeGroups.Grows s'.tradeGroups
  events : s.events.rows <+: s'.events.rows

namespace AppendOnly

variable (s : InMemoryStore)

theorem refl : AppendOnly s s :=
  ⟨.refl _, .refl _, .refl _, .refl _, .refl _, .refl _, List.prefix_refl _⟩

variable {s} in
theorem trans {s' s'' : InMemoryStore} (h : AppendOnly s s') (h' : AppendOnly s' s'') :
    AppendOnly s s'' :=
  ⟨h.orders.trans h'.orders, h.transactions.trans h'.transactions,
    h.securities.trans h'.securities, h.positions.trans h'.positions,
    h.closedPositions.trans h'.closedPositions, h.tradeGroups.trans h'.tradeGroups,
    h.events.trans h'.events⟩

theorem upsertOrders (rows : List OrderRow) : AppendOnly s (s.upsertOrders rows).2 := by
  refine InMemoryStore.upsertOrders_induction (P := AppendOnly s) s rows (refl s) ?_
  intro row _ s' hs'
  refine hs'.trans { refl s' with orders := ?_ }
  exact .upsert _ _

theorem upsertTransactions (rows : List TxnRow) : AppendOnly s (s.upsertTransactions rows) := by
  unfold InMemoryStore.upsertTransactions
  induction rows generalizing s with
  | nil => exact refl s
  | cons row rows ih =>
    have hrow : AppendOnly s (s.upsertTransaction row) :=
      { refl s with transactions := .upsert s.transactions _ }
    exact hrow.trans (ih _)

theorem addTradeGroupEvent (ev : EventRow) : AppendOnly s (s.addTradeGroupEvent ev) := by
  refine { refl s with events := ?_ }
  rw [InMemoryStore.addTradeGroupEvent, (Table.upsert_of_new _ _ rfl).2.1]
  exact List.prefix_append _ _

theorem modifyTransactions {f : TxnRow → TxnRow} {hf : ∀ r, TxnRow.key (f r) = TxnRow.key r} :
    AppendOnly s { s with transactions := s.transactions.modify f hf } :=
  { refl s with transactions := .modify _ f hf }

theorem modifyOrders {f : OrderRow → OrderRow} {hf : ∀ r, OrderRow.key (f r) = OrderRow.key r} :
    AppendOnly s { s with orders := s.orders.modify f hf } :=
  { refl s with orders := .modify _ f hf }

theorem modifyClosedPositions {f : ClosedPositionRow → ClosedPositionRow}
    {hf : ∀ r, ClosedPositionRow.key (f r) = ClosedPositionRow.key r} :
    AppendOnly s { s with closedPositions := s.closedPositions.modify f hf } :=
  { refl s with closedPositions := .modify _ f hf }

/-- The calls of the in-memory store. -/
theorem step (op : LedgerOp) : AppendOnly s (s.step op).2 := by
  cases op with
  | upsertOrders rows => exact upsertOrders s rows
  | upsertTransactions rows => exact upsertTransactions s rows
  | upsertSecurity sec => exact { refl s with securities := .upsert _ _ }
  | upsertPositions rows => exact { refl s with positions := .upsertAll _ rows }
  | upsertClosedPosition row => exact { refl s with closedPositions := .upsert _ _ }
  | linkTransactionsToOrders account => exact modifyTransactions s
  | linkOrdersToGroups account => exact modifyOrders s
  | linkClosedPositionsToGroups account => exact modifyClosedPositions s
  | upsertTradeGroup tg => exact { refl s with tradeGroups := .upsert _ _ }
  | addTradeGroupEvent ev => exact addTradeGroupEvent s ev
  | attachTransactionsToTradeGroup ids pk => exact modifyTransactions s
  | moveTransactionsToGroup ids pk => exact modifyTransactions s
  | linkTransactionsToPositions links => exact modifyTransactions s
  | _ => exact { refl s with }

end AppendOnly

/-- **One call** of either store deletes nothing. -/
theorem appendOnly_handler (kind : StoreKind) (op : LedgerOp) (s : InMemoryStore) :
    AppendOnly s (kind.handler op s).2 := by
  cases kind with
  | memory => exact .step s op
  | sql money scan =>
    cases op with
    | upsertClosedPosition row =>
      show AppendOnly s (SqlLedgerStore.upsertClosedPosition s (row.heldIn money)).2
      unfold SqlLedgerStore.upsertClosedPosition
      split
      · exact { AppendOnly.refl s with closedPositions := .overwrite _ _ }
      · exact { AppendOnly.refl s with closedPositions := .upsert _ _ }
    | linkClosedPositionsToGroups account => exact .modifyClosedPositions s
    | accountActivity f => exact .refl s
    | _ => exact .step s _

/-- A call in a pool, which may fail. -/
theorem StoreKind.appendOnly_meaning {kind : StoreKind} {op : LedgerOp} {s s' : InMemoryStore}
    {r : Except String op.Reply} (h : kind.meaning op s r s') : AppendOnly s s' := by
  obtain ⟨clock, hrun | ⟨-, rfl⟩⟩ := h
  · have hcall := appendOnly_handler kind op { s with clock }
    rw [hrun] at hcall
    exact { hcall with }
  · exact { AppendOnly.refl s with }

end TtLedger
