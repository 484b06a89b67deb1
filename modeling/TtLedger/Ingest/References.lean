import TtLedger.Foundations.Provenance
import TtLedger.Ingest.Growth
import TtLedger.Ingest.Scope
import TtLedger.Store.SqlLinks

/-!
# References between the rows

Orders, transactions, positions, closed positions and the events of trade groups refer to other
rows: by surrogate id to orders, positions, closed positions and trade groups, and by natural key to
securities. These are foreign keys of the schema, and `orders.trade_group_id`, which the schema
leaves without one. The `security_id` of a trade group is not among them: `open_trade_group` stores
it as the host gives it. `ledgerRefs` says which references a call writes and a reply brings; both
stores are sound for it (`sound_ledgerRefs`): a write puts nothing else into the rows than what it
is given, and a link step only what other rows hold.
-/

namespace TtLedger

/-! ## References -/

/-- What a row can refer to. -/
inductive Ref
  | security (securityId : String)
  | order (pk : ℕ)
  | position (pk : ℕ)
  | closedPosition (pk : ℕ)
  | tradeGroup (pk : ℕ)
  deriving DecidableEq

namespace Ref

/-- The reference of a column, when it is set. -/
def opt {α : Type} (ref : α → Ref) (column : Option α) : List Ref := column.toList.map ref

@[simp] theorem opt_none {α : Type} (ref : α → Ref) : opt ref none = [] := rfl

@[simp] theorem opt_some {α : Type} (ref : α → Ref) (a : α) : opt ref (some a) = [ref a] := rfl

theorem mem_opt {α : Type} {ref : α → Ref} {column : Option α} {r : Ref} :
    r ∈ opt ref column ↔ ∃ a, column = some a ∧ ref a = r := by
  simp [opt]

theorem of_mem_opt_orElse {α : Type} {ref : α → Ref} (a b : Option α) {r : Ref}
    (h : r ∈ opt ref (a <|> b)) : r ∈ opt ref a ∨ r ∈ opt ref b := by
  cases a with
  | none => exact Or.inr h
  | some a => exact Or.inl h

/-- The row referred to is stored. -/
def Stored (s : InMemoryStore) : Ref → Prop
  | security securityId => (s.securities.getByKey securityId).isSome
  | order pk => (s.orders.get pk).isSome
  | position pk => (s.positions.get pk).isSome
  | closedPosition pk => (s.closedPositions.get pk).isSome
  | tradeGroup pk => (s.tradeGroups.get pk).isSome

instance decidableStored (s : InMemoryStore) (ref : Ref) : Decidable (ref.Stored s) := by
  cases ref <;> exact inferInstanceAs (Decidable (_ = true))

end Ref

open Ref

def OrderRow.refs (r : OrderRow) : List Ref :=
  opt security r.securityId ++ opt tradeGroup r.tradeGroupId

def TxnRow.refs (r : TxnRow) : List Ref :=
  opt security r.securityId ++ opt order r.orderId ++ opt position r.positionId ++
    opt closedPosition r.closedPositionId ++ opt tradeGroup r.tradeGroupId

def ActivityRow.refs (r : ActivityRow) : List Ref :=
  r.toTxnRow.refs ++ opt tradeGroup r.orderTradeGroupId

def PositionRow.refs (r : PositionRow) : List Ref :=
  security r.securityId :: opt order r.openingOrderId ++ opt tradeGroup r.tradeGroupId

def ClosedPositionRow.refs (r : ClosedPositionRow) : List Ref :=
  security r.securityId :: opt order r.openingOrderId ++ opt order r.closingOrderId ++
    opt tradeGroup r.tradeGroupId

def EventRow.refs (r : EventRow) : List Ref :=
  tradeGroup r.tradeGroupId :: opt tradeGroup r.rolledToGroupId ++ opt order r.orderId

def PositionLink.refs (l : PositionLink) : List Ref :=
  opt position l.positionId ++ opt closedPosition l.closedPositionId

/-- The references of the orders, transactions, positions, closed positions and events. -/
def InMemoryStore.refs (s : InMemoryStore) : List Ref :=
  s.orders.values.flatMap OrderRow.refs ++ s.transactions.values.flatMap TxnRow.refs ++
    s.positions.values.flatMap PositionRow.refs ++
    s.closedPositions.values.flatMap ClosedPositionRow.refs ++
    s.events.values.flatMap EventRow.refs

namespace LedgerOp

/-- The references a call writes. -/
def refs : LedgerOp → List Ref
  | upsertOrders rows => rows.flatMap OrderRow.refs
  | upsertTransactions rows => rows.flatMap TxnRow.refs
  | upsertPositions rows => rows.flatMap PositionRow.refs
  | upsertClosedPosition row => row.refs
  | addTradeGroupEvent ev => ev.refs
  | attachTransactionsToTradeGroup _ pk => [tradeGroup pk]
  | moveTransactionsToGroup _ pk => opt tradeGroup pk
  | linkTransactionsToPositions links => links.flatMap PositionLink.refs
  | _ => []

/-- The references a reply brings. -/
def gotRefs : (op : LedgerOp) → op.Reply → List Ref
  | upsertOrders _, ids => ids.map order
  | upsertSecurity sec, _ => [security sec.securityId]
  | upsertClosedPosition _, pk => [closedPosition pk]
  | upsertTradeGroup _, pk => [tradeGroup pk]
  | getOrder _, row => row.toList.flatMap OrderRow.refs
  | queryOrders _, rows => rows.flatMap OrderRow.refs
  | getPosition _ _, row => row.toList.flatMap PositionRow.refs
  | getPositionId _ _, pk => opt position pk
  | getSecurity securityId, sec => sec.toList.map fun _ => security securityId
  | getTradeGroupId _, pk => opt tradeGroup pk
  | getTransactionsById _, rows => rows.flatMap TxnRow.refs
  | getGroupTransactions _, rows => rows.flatMap TxnRow.refs
  | accountActivity _, rows => rows.flatMap ActivityRow.refs
  | _, _ => []

end LedgerOp

/-- The references of the ledger. -/
def ledgerRefs : Prog.References LedgerOp LedgerOp.Reply InMemoryStore Ref where
  sent := LedgerOp.refs
  got := LedgerOp.gotRefs
  held := InMemoryStore.refs
  live s ref := ref.Stored s

/-- What these rows refer to is stored. -/
def Whole (s : InMemoryStore) : Prop := ∀ ref ∈ s.refs, ref.Stored s

instance Whole.decidable (s : InMemoryStore) : Decidable (Whole s) :=
  inferInstanceAs (Decidable (∀ ref ∈ s.refs, ref.Stored s))

/-! ## What is stored stays stored -/

theorem AppendOnly.stored {s s' : InMemoryStore} (h : AppendOnly s s') {ref : Ref}
    (hs : ref.Stored s) : ref.Stored s' := by
  have hget : ∀ {T κ : Type} {key : T → Option κ} {t t' : Table key} {i : ℕ}, t.Grows t' →
      (t.get i).isSome → (t'.get i).isSome := by
    intro T κ key t t' i ht hi
    obtain ⟨r, hr⟩ := Option.isSome_iff_exists.mp hi
    obtain ⟨r', hr', -⟩ := ht.get hr
    rw [hr']
    rfl
  cases ref with
  | security securityId => exact h.securities.isSome_getByKey hs
  | order pk => exact hget h.orders hs
  | position pk => exact hget h.positions hs
  | closedPosition pk => exact hget h.closedPositions hs
  | tradeGroup pk => exact hget h.tradeGroups hs

/-! ## What a call puts into the rows -/

/-- What the rows refer to has a property. -/
structure RefsIn (P : Ref → Prop) (s : InMemoryStore) : Prop where
  orders : ∀ r ∈ s.orders.values, ∀ ref ∈ r.refs, P ref
  transactions : ∀ r ∈ s.transactions.values, ∀ ref ∈ r.refs, P ref
  positions : ∀ r ∈ s.positions.values, ∀ ref ∈ r.refs, P ref
  closedPositions : ∀ r ∈ s.closedPositions.values, ∀ ref ∈ r.refs, P ref
  events : ∀ r ∈ s.events.values, ∀ ref ∈ r.refs, P ref

theorem refsIn_iff {P : Ref → Prop} {s : InMemoryStore} : RefsIn P s ↔ ∀ ref ∈ s.refs, P ref := by
  constructor
  · intro h ref href
    simp only [InMemoryStore.refs, List.mem_append, List.mem_flatMap] at href
    rcases href with (((⟨r, hr, h'⟩ | ⟨r, hr, h'⟩) | ⟨r, hr, h'⟩) | ⟨r, hr, h'⟩) | ⟨r, hr, h'⟩
    · exact h.orders r hr ref h'
    · exact h.transactions r hr ref h'
    · exact h.positions r hr ref h'
    · exact h.closedPositions r hr ref h'
    · exact h.events r hr ref h'
  · intro h
    refine ⟨?_, ?_, ?_, ?_, ?_⟩ <;> intro r hr ref href <;> refine h ref ?_ <;>
      simp only [InMemoryStore.refs, List.mem_append, List.mem_flatMap]
    · exact .inl (.inl (.inl (.inl ⟨r, hr, href⟩)))
    · exact .inl (.inl (.inl (.inr ⟨r, hr, href⟩)))
    · exact .inl (.inl (.inr ⟨r, hr, href⟩))
    · exact .inl (.inr ⟨r, hr, href⟩)
    · exact .inr ⟨r, hr, href⟩

theorem refs_preserveOrder (existing row : OrderRow) :
    (InMemoryStore.preserveOrder existing row).refs ⊆ row.refs ++ existing.refs := by
  intro ref
  simp only [OrderRow.refs, InMemoryStore.preserveOrder, List.mem_append]
  rintro (h | h)
  · tauto
  · have := of_mem_opt_orElse _ _ h
    tauto

theorem refs_preserveTransaction (existing row : TxnRow) :
    (InMemoryStore.preserveTransaction existing row).refs ⊆ row.refs ++ existing.refs := by
  intro ref
  simp only [TxnRow.refs, InMemoryStore.preserveTransaction, List.mem_append]
  rintro ((((h | h) | h) | h) | h)
  · tauto
  all_goals
    have := of_mem_opt_orElse _ _ h
    tauto

namespace RefsIn

variable {P : Ref → Prop} {s : InMemoryStore}

theorem upsertOrder (h : RefsIn P s) {row : OrderRow} (hrow : ∀ ref ∈ row.refs, P ref) :
    RefsIn P (s.upsertOrder row).2 := by
  have hwritten : ∀ row' : OrderRow, (∀ ref ∈ row'.refs, P ref) →
      RefsIn P { s with orders := (s.orders.upsert row').2 } := by
    intro row' hrow'
    refine { h with orders := fun r hr => ?_ }
    rcases Table.eq_or_mem_of_mem_values_upsert hr with rfl | hr
    · exact hrow'
    · exact h.orders r hr
  unfold InMemoryStore.upsertOrder
  simp only []
  split
  · rename_i existing he
    refine hwritten _ fun ref href => ?_
    rcases List.mem_append.mp (refs_preserveOrder existing row href) with hnew | hold
    · exact hrow ref hnew
    · split at he
      · obtain ⟨k, -, hk⟩ := Option.bind_eq_some_iff.mp he
        exact h.orders existing (Table.mem_values_of_getByKey hk) ref hold
      · cases he
  · exact hwritten row hrow

theorem upsertOrders (h : RefsIn P s) {rows : List OrderRow}
    (hrows : ∀ row ∈ rows, ∀ ref ∈ row.refs, P ref) : RefsIn P (s.upsertOrders rows).2 :=
  InMemoryStore.upsertOrders_induction s rows h fun row hrow _ hs' =>
    hs'.upsertOrder (hrows row hrow)

theorem upsertTransaction (h : RefsIn P s) {row : TxnRow} (hrow : ∀ ref ∈ row.refs, P ref) :
    RefsIn P (s.upsertTransaction row) := by
  refine { h with transactions := fun r hr => ?_ }
  rcases Table.eq_or_mem_of_mem_values_upsert hr with rfl | hr
  · split
    · rename_i existing he
      intro ref href
      rcases List.mem_append.mp (refs_preserveTransaction existing row href) with hnew | hold
      · exact hrow ref hnew
      · exact h.transactions existing (Table.mem_values_of_getByKey he) ref hold
    · exact hrow
  · exact h.transactions r hr

theorem upsertTransactions (h : RefsIn P s) {rows : List TxnRow}
    (hrows : ∀ row ∈ rows, ∀ ref ∈ row.refs, P ref) : RefsIn P (s.upsertTransactions rows) := by
  unfold InMemoryStore.upsertTransactions
  induction rows generalizing s with
  | nil => exact h
  | cons row rows ih =>
    exact ih (h.upsertTransaction (hrows row (by simp))) fun row' hr => hrows row' (by simp [hr])

theorem upsertPositions (h : RefsIn P s) {rows : List PositionRow}
    (hrows : ∀ row ∈ rows, ∀ ref ∈ row.refs, P ref) : RefsIn P (s.upsertPositions rows) := by
  refine { h with positions := ?_ }
  have hall := h.positions
  show ∀ r ∈ (s.positions.upsertAll rows).values, _
  generalize s.positions = positions at hall ⊢
  induction rows generalizing positions with
  | nil => exact hall
  | cons row rows ih =>
    refine ih (fun row' hr => hrows row' (by simp [hr])) _ fun r hr => ?_
    rcases Table.eq_or_mem_of_mem_values_upsert hr with rfl | hr
    · exact hrows r (by simp)
    · exact hall r hr

theorem upsertClosedPosition (h : RefsIn P s) {row : ClosedPositionRow}
    (hrow : ∀ ref ∈ row.refs, P ref) : RefsIn P (s.upsertClosedPosition row).2 := by
  refine { h with closedPositions := fun r hr => ?_ }
  rcases Table.eq_or_mem_of_mem_values_upsert hr with rfl | hr
  · exact hrow
  · exact h.closedPositions r hr

theorem overwriteClosedPosition (h : RefsIn P s) {row : ClosedPositionRow}
    (hrow : ∀ ref ∈ row.refs, P ref) :
    RefsIn P { s with closedPositions := s.closedPositions.overwrite row } := by
  refine { h with closedPositions := fun r hr => ?_ }
  rw [Table.overwrite, Table.values_modify] at hr
  obtain ⟨r', hr', rfl⟩ := List.mem_map.mp hr
  split
  · exact hrow
  · exact h.closedPositions r' hr'

theorem addTradeGroupEvent (h : RefsIn P s) {ev : EventRow} (hev : ∀ ref ∈ ev.refs, P ref) :
    RefsIn P (s.addTradeGroupEvent ev) := by
  refine { h with events := fun r hr => ?_ }
  rcases Table.eq_or_mem_of_mem_values_upsert hr with rfl | hr
  · exact hev
  · exact h.events r hr

/-- A rewriting of the transactions that sets references with the property. -/
theorem modifyTransactions (h : RefsIn P s) {f : TxnRow → TxnRow}
    {hf : ∀ r, TxnRow.key (f r) = TxnRow.key r}
    (hrefs : ∀ r ∈ s.transactions.values, ∀ ref ∈ (f r).refs, ref ∈ r.refs ∨ P ref) :
    RefsIn P { s with transactions := s.transactions.modify f hf } := by
  refine { h with transactions := fun r hr => ?_ }
  rw [Table.values_modify] at hr
  obtain ⟨r', hr', rfl⟩ := List.mem_map.mp hr
  exact fun ref href => (hrefs r' hr' ref href).elim (h.transactions r' hr' ref) id

/-- The order a transaction is linked to is stored. -/
theorem linkTransactionsToOrders (h : RefsIn P s) (hlive : ∀ ref : Ref, ref.Stored s → P ref)
    (account : String) : RefsIn P (s.linkTransactionsToOrders account).2 := by
  refine h.modifyTransactions fun r _ ref href => ?_
  split at href
  · have horder : ref ∈ opt order (s.orderOf account r) → P ref := by
      intro hmem
      obtain ⟨i, hi, rfl⟩ := mem_opt.mp hmem
      obtain ⟨o, ho, -⟩ := orderOf_eq_some hi
      exact hlive _ (by simp [Ref.Stored, ho])
    simp only [TxnRow.refs, List.mem_append] at href ⊢
    tauto
  · exact Or.inl href

/-- An order takes a group its transactions refer to. -/
theorem linkOrdersToGroups (h : RefsIn P s) (account : String) :
    RefsIn P (s.linkOrdersToGroups account).2 := by
  refine { h with orders := fun r hr ref href => ?_ }
  rw [InMemoryStore.linkOrdersToGroups, Table.values_modify] at hr
  obtain ⟨o, ho, rfl⟩ := List.mem_map.mp hr
  rcases List.mem_append.mp href with hsec | hgroup
  · exact h.orders o ho ref (List.mem_append_left _ hsec)
  · rcases of_mem_opt_orElse _ _ hgroup with hold | hnew
    · exact h.orders o ho ref (List.mem_append_right _ hold)
    · obtain ⟨pk, hpk, rfl⟩ := mem_opt.mp hnew
      obtain ⟨-, t, ht, -, htpk⟩ := groupForOrder_eq_some hpk
      exact h.transactions t ht _ (by simp [TxnRow.refs, htpk])

/-- A closed position takes a group its closing order refers to. -/
theorem linkClosedPositions (h : RefsIn P s) {group : ClosedPositionRow → Option ℕ}
    (hgroup : ∀ cp pk, group cp = some pk → ∃ o ∈ s.orders.values, o.tradeGroupId = some pk) :
    RefsIn P { s with
      closedPositions := s.closedPositions.modify
        (fun cp => { cp with tradeGroupId := cp.tradeGroupId <|> group cp }) (fun _ => rfl) } := by
  refine { h with closedPositions := fun r hr ref href => ?_ }
  rw [Table.values_modify] at hr
  obtain ⟨cp, hcp, rfl⟩ := List.mem_map.mp hr
  rcases List.mem_append.mp href with hrest | htaken
  · exact h.closedPositions cp hcp ref (List.mem_append_left _ hrest)
  · rcases of_mem_opt_orElse _ _ htaken with hold | hnew
    · exact h.closedPositions cp hcp ref (List.mem_append_right _ hold)
    · obtain ⟨pk, hpk, rfl⟩ := mem_opt.mp hnew
      obtain ⟨o, ho, hopk⟩ := hgroup cp pk hpk
      exact h.orders o ho _ (by simp [OrderRow.refs, hopk])

/-- A transaction takes the references of its link. -/
theorem linkTransactionsToPositions (h : RefsIn P s) {links : List PositionLink}
    (hlinks : ∀ l ∈ links, ∀ ref ∈ l.refs, P ref) :
    RefsIn P (s.linkTransactionsToPositions links).2 := by
  refine h.modifyTransactions fun r _ ref href => ?_
  unfold InMemoryStore.relink at href
  split at href
  · rename_i p c hlink
    rw [get?_linksById, Dict.lastUnder, Option.map_eq_some_iff] at hlink
    obtain ⟨e, he, hpc⟩ := hlink
    obtain ⟨l, hl, rfl⟩ := List.mem_map.mp (List.mem_reverse.mp (List.mem_of_find?_eq_some he))
    obtain ⟨rfl, rfl⟩ := Prod.mk.inj hpc
    have hlinked := hlinks l hl ref
    simp only [TxnRow.refs, PositionLink.refs, List.mem_append] at href hlinked ⊢
    tauto
  · exact Or.inl href

/-- **One call** of the in-memory store. -/
theorem step (h : RefsIn P s) {op : LedgerOp} (hop : ∀ ref ∈ op.refs, P ref)
    (hlive : ∀ ref : Ref, ref.Stored s → P ref) : RefsIn P (s.step op).2 := by
  cases op with
  | upsertOrders rows =>
    exact h.upsertOrders fun row hrow ref href => hop ref (List.mem_flatMap.mpr ⟨row, hrow, href⟩)
  | upsertTransactions rows =>
    exact h.upsertTransactions fun row hrow ref href =>
      hop ref (List.mem_flatMap.mpr ⟨row, hrow, href⟩)
  | upsertSecurity sec => exact { h with }
  | upsertPositions rows =>
    exact h.upsertPositions fun row hrow ref href =>
      hop ref (List.mem_flatMap.mpr ⟨row, hrow, href⟩)
  | upsertClosedPosition row => exact h.upsertClosedPosition hop
  | linkTransactionsToOrders account => exact h.linkTransactionsToOrders hlive account
  | linkOrdersToGroups account => exact h.linkOrdersToGroups account
  | linkClosedPositionsToGroups account =>
    refine h.linkClosedPositions fun cp pk hpk => ?_
    unfold InMemoryStore.groupForClosedPosition at hpk
    split at hpk
    · obtain ⟨o, ho, hopk⟩ := Option.bind_eq_some_iff.mp hpk
      obtain ⟨i, -, hi⟩ := Option.bind_eq_some_iff.mp ho
      exact ⟨o, Table.mem_values.mpr ⟨i, hi⟩, hopk⟩
    · cases hpk
  | upsertTradeGroup tg => exact { h with }
  | addTradeGroupEvent ev => exact h.addTradeGroupEvent hop
  | attachTransactionsToTradeGroup ids pk =>
    refine h.modifyTransactions fun r _ ref href => ?_
    split at href
    · have hpk := hop ref
      simp only [TxnRow.refs, LedgerOp.refs, opt_some, List.mem_append] at href hpk ⊢
      tauto
    · exact Or.inl href
  | moveTransactionsToGroup ids pk =>
    refine h.modifyTransactions fun r _ ref href => ?_
    split at href
    · have hpk := hop ref
      simp only [TxnRow.refs, LedgerOp.refs, List.mem_append] at href hpk ⊢
      tauto
    · exact Or.inl href
  | linkTransactionsToPositions links =>
    exact h.linkTransactionsToPositions fun l hl ref href =>
      hop ref (List.mem_flatMap.mpr ⟨l, hl, href⟩)
  | _ => exact { h with }

/-- On either store. -/
theorem handler (kind : StoreKind) (h : RefsIn P s) {op : LedgerOp}
    (hop : ∀ ref ∈ op.refs, P ref) (hlive : ∀ ref : Ref, ref.Stored s → P ref) :
    RefsIn P (kind.handler op s).2 := by
  cases kind with
  | memory => exact h.step hop hlive
  | sql money scan =>
    cases op with
    | upsertClosedPosition row =>
      show RefsIn P (SqlLedgerStore.upsertClosedPosition s (row.heldIn money)).2
      unfold SqlLedgerStore.upsertClosedPosition
      split
      · exact h.overwriteClosedPosition hop
      · exact h.upsertClosedPosition hop
    | linkClosedPositionsToGroups account =>
      refine h.linkClosedPositions fun cp pk hpk => ?_
      unfold SqlLedgerStore.groupForClosedPosition at hpk
      split at hpk
      · obtain ⟨o, ho, hopk⟩ := Option.bind_eq_some_iff.mp hpk
        obtain ⟨i, -, hi⟩ := Option.bind_eq_some_iff.mp ho
        split at hopk
        · exact ⟨o, Table.mem_values.mpr ⟨i, hi⟩, hopk⟩
        · cases hopk
      · cases hpk
    | upsertOrders rows =>
      refine h.upsertOrders fun held hheld ref href => ?_
      obtain ⟨row, hrow, rfl⟩ := List.mem_map.mp hheld
      exact hop ref (List.mem_flatMap.mpr ⟨row, hrow, href⟩)
    | upsertTransactions rows =>
      refine h.upsertTransactions fun held hheld ref href => ?_
      obtain ⟨row, hrow, rfl⟩ := List.mem_map.mp hheld
      exact hop ref (List.mem_flatMap.mpr ⟨row, hrow, href⟩)
    | upsertPositions rows =>
      refine h.upsertPositions fun held hheld ref href => ?_
      obtain ⟨row, hrow, rfl⟩ := List.mem_map.mp hheld
      exact hop ref (List.mem_flatMap.mpr ⟨row, hrow, href⟩)
    | addTradeGroupEvent ev => exact h.addTradeGroupEvent hop
    | upsertSecurity _ | upsertTradeGroup _ => exact { h with }
    | accountActivity f => exact h
    | _ => exact h.step hop hlive

end RefsIn

/-! ## What a reply brings -/

section Replies

variable {s : InMemoryStore}

/-- The orders upserted are stored under the ids returned. -/
theorem stored_upsertOrders (rows : List OrderRow) :
    ∀ i ∈ (s.upsertOrders rows).1, ((s.upsertOrders rows).2.orders.get i).isSome := by
  have hall : ∀ (rows : List OrderRow) (ids : List ℕ) (s : InMemoryStore),
      (∀ i ∈ ids, (s.orders.get i).isSome) →
      ∀ i ∈ (rows.foldl (fun r row =>
          let u := InMemoryStore.upsertOrder r.2 row; (r.1 ++ [u.1], u.2)) (ids, s)).1,
        ((rows.foldl (fun r row =>
          let u := InMemoryStore.upsertOrder r.2 row; (r.1 ++ [u.1], u.2)) (ids, s)).2.orders.get
            i).isSome := by
    intro rows
    induction rows with
    | nil => exact fun ids s h => h
    | cons row rows ih =>
      refine fun ids s h => ih _ _ fun i hi => ?_
      obtain ⟨row', hrow'⟩ : ∃ row', s.upsertOrder row =
        ((s.orders.upsert row').1, { s with orders := (s.orders.upsert row').2 }) := ⟨_, rfl⟩
      simp only [hrow', List.mem_append, List.mem_singleton] at hi ⊢
      rw [Table.get_upsert]
      split
      · rfl
      · exact h i (hi.resolve_right (by assumption))
  exact hall rows [] s fun i hi => by cases hi

theorem stored_of_idOf {T κ : Type} {key : T → Option κ} [DecidableEq κ] {t : Table key} {k : κ}
    {i : ℕ} (h : t.idOf k = some i) : (t.get i).isSome := by
  obtain ⟨r, hr, -⟩ := Table.idOf_eq_some.mp h
  rw [Table.get_eq_some.mpr hr]
  rfl

theorem refs_accountActivity {f : ActivityFilter} {row : ActivityRow}
    (hrow : row ∈ s.accountActivity f) : row.refs ⊆ s.refs := by
  have hheld : RefsIn (· ∈ s.refs) s := refsIn_iff.mpr fun _ => id
  obtain ⟨txn, htxn, rfl⟩ := List.mem_map.mp hrow
  intro ref href
  rcases List.mem_append.mp href with hown | hgroup
  · exact hheld.transactions txn (List.mem_of_mem_filter htxn) ref hown
  · obtain ⟨pk, hpk, rfl⟩ := mem_opt.mp hgroup
    obtain ⟨o, ho, hopk⟩ := Option.bind_eq_some_iff.mp hpk
    obtain ⟨i, -, hi⟩ := Option.bind_eq_some_iff.mp ho
    exact hheld.orders o (Table.mem_values.mpr ⟨i, hi⟩) _ (by simp [OrderRow.refs, hopk])

/-- **One reply** of the in-memory store. -/
theorem gotRefs_step (op : LedgerOp) {ref : Ref} (href : ref ∈ op.gotRefs (s.step op).1) :
    ref ∈ s.refs ∨ ref.Stored (s.step op).2 := by
  have hheld : RefsIn (· ∈ s.refs) s := refsIn_iff.mpr fun _ => id
  cases op with
  | upsertOrders rows =>
    obtain ⟨i, hi, rfl⟩ := List.mem_map.mp href
    exact Or.inr (stored_upsertOrders rows i hi)
  | upsertSecurity sec =>
    obtain rfl := List.mem_singleton.mp href
    refine Or.inr ?_
    show ((s.securities.upsert sec).2.getByKey sec.securityId).isSome
    rw [s.securities.getByKey_upsert sec (k := sec.securityId) rfl, if_pos rfl]
    rfl
  | upsertClosedPosition row =>
    obtain rfl := List.mem_singleton.mp href
    exact Or.inr (by simp [Ref.Stored, InMemoryStore.step, InMemoryStore.upsertClosedPosition])
  | upsertTradeGroup tg =>
    obtain rfl := List.mem_singleton.mp href
    exact Or.inr (by simp [Ref.Stored, InMemoryStore.step, InMemoryStore.upsertTradeGroup])
  | getOrder k =>
    obtain ⟨o, ho, href⟩ := List.mem_flatMap.mp href
    exact Or.inl (hheld.orders o (Table.mem_values_of_getByKey (Option.mem_toList.mp ho)) ref href)
  | queryOrders f =>
    obtain ⟨o, ho, href⟩ := List.mem_flatMap.mp href
    exact Or.inl (hheld.orders o (List.mem_of_mem_filter ((mem_sortOn _).mp ho)) ref href)
  | getPosition account sid =>
    obtain ⟨p, hp, href⟩ := List.mem_flatMap.mp href
    exact Or.inl
      (hheld.positions p (Table.mem_values_of_getByKey (Option.mem_toList.mp hp)) ref href)
  | getPositionId account sid =>
    obtain ⟨i, hi, rfl⟩ := mem_opt.mp href
    exact Or.inr (stored_of_idOf hi)
  | getSecurity k =>
    obtain ⟨sec, hsec, rfl⟩ := List.mem_map.mp href
    exact Or.inr (Option.isSome_iff_exists.mpr ⟨sec, Option.mem_toList.mp hsec⟩)
  | getTradeGroupId k =>
    obtain ⟨i, hi, rfl⟩ := mem_opt.mp href
    exact Or.inr (stored_of_idOf hi)
  | getTransactionsById ids =>
    obtain ⟨txn, htxn, href⟩ := List.mem_flatMap.mp href
    obtain ⟨p, hp, rfl⟩ := List.mem_map.mp htxn
    exact Or.inl (hheld.transactions p.2
      (List.mem_map.mpr ⟨p, List.mem_of_mem_filter hp, rfl⟩) ref href)
  | getGroupTransactions pk =>
    obtain ⟨txn, htxn, href⟩ := List.mem_flatMap.mp href
    exact Or.inl
      (hheld.transactions txn (List.mem_of_mem_filter ((mem_sortOn _).mp htxn)) ref href)
  | accountActivity f =>
    obtain ⟨row, hrow, href⟩ := List.mem_flatMap.mp href
    exact Or.inl (refs_accountActivity hrow href)
  | _ => cases href

/-- On either store; the SQL store's scan of an account returns rows of the account. -/
theorem gotRefs_handler (kind : StoreKind) (hscan : ∀ rows, kind.scan rows ⊆ rows) (op : LedgerOp)
    {reply : op.Reply} (hreply : (kind.handler op s).1 = .ok reply) {ref : Ref}
    (href : ref ∈ op.gotRefs reply) : ref ∈ s.refs ∨ ref.Stored (kind.handler op s).2 := by
  cases kind with
  | memory =>
    obtain rfl := Except.ok.inj hreply
    exact gotRefs_step op href
  | sql money scan =>
    cases op with
    | upsertOrders rows =>
      obtain rfl := Except.ok.inj hreply
      exact gotRefs_step (.upsertOrders (rows.map (OrderRow.heldIn money))) href
    | upsertSecurity sec => exact gotRefs_step (.upsertSecurity (sec.heldIn money)) href
    | upsertTradeGroup tg =>
      obtain rfl := Except.ok.inj hreply
      exact gotRefs_step (.upsertTradeGroup (tg.heldIn money)) href
    | upsertClosedPosition row =>
      obtain rfl := Except.ok.inj hreply
      obtain rfl := List.mem_singleton.mp href
      refine Or.inr ?_
      show ((SqlLedgerStore.upsertClosedPosition s (row.heldIn money)).2.closedPositions.get
        (SqlLedgerStore.upsertClosedPosition s (row.heldIn money)).1).isSome
      unfold SqlLedgerStore.upsertClosedPosition
      split
      · rename_i existing hfound
        have hget : s.closedPositions.get existing.1 = some existing.2 :=
          Table.get_eq_some.mpr (List.mem_of_find?_eq_some hfound)
        simp [Table.overwrite, hget]
      · simp [InMemoryStore.upsertClosedPosition]
    | upsertTransactions _ | upsertPositions _ | addTradeGroupEvent _
    | linkClosedPositionsToGroups _ => cases href
    | accountActivity f =>
      obtain rfl := Except.ok.inj hreply
      obtain ⟨row, hrow, href⟩ := List.mem_flatMap.mp href
      exact Or.inl (refs_accountActivity (hscan _ hrow) href)
    | _ =>
      obtain rfl := Except.ok.inj hreply
      exact gotRefs_step _ href

end Replies

/-- **The references of the ledger** are what its stores make of them, in any pool and with calls
that fail. -/
theorem sound_ledgerRefs {kind : StoreKind} (hscan : ∀ rows, kind.scan rows ⊆ rows) :
    ledgerRefs.Sound kind.meaning where
  live hop hlive := (StoreKind.appendOnly_meaning hop).stored hlive
  held := by
    intro op s r s' ref hop href
    obtain ⟨clock, hrun | ⟨-, rfl⟩⟩ := hop
    · have hstart : RefsIn (fun ref => ref ∈ s.refs ∨ ref ∈ op.refs ∨ ref.Stored s')
          { s with clock } := refsIn_iff.mpr fun _ => Or.inl
      have hstep := RefsIn.handler kind hstart
        (fun ref (h : ref ∈ op.refs) => Or.inr (Or.inl h)) fun ref h => ?_
      · rw [hrun] at hstep
        exact refsIn_iff.mp hstep ref href
      · have hkept := (appendOnly_handler kind op { s with clock }).stored h
        rw [hrun] at hkept
        exact Or.inr (Or.inr hkept)
    · exact Or.inl href
  got := by
    intro op s a s' ref hop href
    obtain ⟨clock, hrun | ⟨⟨e, he⟩, -⟩⟩ := hop
    · have hgot := gotRefs_handler kind hscan op (s := { s with clock }) (by rw [hrun]) href
      rw [hrun] at hgot
      exact hgot
    · cases he

end TtLedger
