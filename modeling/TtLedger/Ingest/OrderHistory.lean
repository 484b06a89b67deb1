import TtLedger.Ingest.Imports
import TtLedger.Ingest.Scope

/-!
# Order history

`OrderRepository.upsert_from_history` with the legs and fills it writes. `HistoryStore` is the
ledger with these two tables beside it, which no other code reads; `importHistory` is the importer
on it, which resolves and upserts the orders as `OrderRepository.upsertFromHistory` does. When every
symbol resolves, the run is a function of the orders stored under the batch's ids
(`importHistory_of_known`), else it leaves orders, legs and fills as they are.
-/

namespace TtLedger

open LedgerStore

/-! ## Legs and fills -/

/-- A leg of an order. -/
structure LegRow where
  orderId : ℕ
  legIndex : ℕ
  securityId : String
  action : Option String := none
  quantity : Option ℚ := none
  remainingQuantity : Option ℚ := none
  quantityDirection : Option String := none
  price : Option ℚ := none
  fillPrice : Option ℚ := none

abbrev LegRow.key (r : LegRow) : Option (ℕ × ℕ) := some (r.orderId, r.legIndex)

/-- An execution against a leg. -/
structure FillRow where
  fillId : String
  orderId : Option ℕ := none
  orderLegId : Option ℕ := none
  ttOrderId : Option String := none
  quantity : Option ℚ := none
  fillPrice : Option ℚ := none
  filledAt : Option Datetime := none
  destinationVenue : Option String := none
  extExecId : Option String := none
  extGroupFillId : Option String := none

abbrev FillRow.key (r : FillRow) : Option String := some r.fillId

/-- The ledger with its tables of legs and fills. -/
structure HistoryStore where
  store : InMemoryStore
  legs : Table LegRow.key
  fills : Table FillRow.key

namespace HistoryStore

def upsertLegs (h : HistoryStore) (rows : List LegRow) : List ℕ × HistoryStore :=
  let r := h.legs.upsertEach rows
  (r.1, { h with legs := r.2 })

def upsertFills (h : HistoryStore) (rows : List FillRow) : HistoryStore :=
  { h with fills := h.fills.upsertAll rows }

end HistoryStore

/-! ## The importer -/

/-- A leg of the history with its order, the order's id, its place in the order and its
security. -/
structure OwnedLeg where
  order : PlacedOrder
  orderId : ℕ
  legIndex : ℕ
  leg : PlacedLeg
  securityId : String

/-- The legs of resolved orders under the ids of the orders, in order. -/
def ownedLegs (orders : List (PlacedOrder × List String)) (orderIds : List ℕ) : List OwnedLeg :=
  (orders.zip orderIds).flatMap fun p =>
    (p.1.1.legs.zip p.1.2).zipIdx.map fun q => ⟨p.1.1, p.2, q.2, q.1.1, q.1.2⟩

def OwnedLeg.legRow (o : OwnedLeg) : LegRow where
  orderId := o.orderId
  legIndex := o.legIndex
  securityId := o.securityId
  action := some o.leg.action
  quantity := some o.leg.quantity
  remainingQuantity := some o.leg.remainingQuantity
  fillPrice := vwap o.leg.fills

def OwnedLeg.fillRow (o : OwnedLeg) (legId : ℕ) (f : PlacedFill) : FillRow where
  fillId := f.fillId
  orderId := some o.orderId
  orderLegId := some legId
  ttOrderId := some o.order.id
  quantity := some f.quantity
  fillPrice := some f.fillPrice
  filledAt := some f.filledAt
  destinationVenue := f.destinationVenue
  extExecId := f.extExecId
  extGroupFillId := f.extGroupFillId

/-- The fills of the legs under the ids of the legs. -/
def fillRowsOf (legs : List OwnedLeg) (legIds : List ℕ) : List FillRow :=
  (legs.zip legIds).flatMap fun p => p.1.leg.fills.map (p.1.fillRow p.2)

namespace OrderRepository

/-- Resolve the legs of one order and add it with their securities. -/
def addResolved (resolver : SecurityResolver)
    (w : List String × List (PlacedOrder × List String)) (po : PlacedOrder) :
    LedgerProg (List String × List (PlacedOrder × List String)) := do
  let (seen, securityIds) ← resolveLegs resolver w.1 po.legs
  pure (seen, w.2 ++ [(po, securityIds)])

/-- Resolve the legs of every order, in order. -/
def resolveHistory (resolver : SecurityResolver) (placedOrders : List PlacedOrder) :
    LedgerProg (List String × List (PlacedOrder × List String)) :=
  placedOrders.foldlM (addResolved resolver) ([], [])

/-- A single leg is the order's security. -/
def orderSecurity (securityIds : List String) : Option String :=
  match securityIds with
  | [securityId] => some securityId
  | _ => none

/-- Upsert the orders of the broker's history: the resolved orders, and the ids of their rows. -/
def importOrders (resolver : SecurityResolver) (placedOrders : List PlacedOrder)
    (account : String) : LedgerProg (List (PlacedOrder × List String) × List ℕ) := do
  let w ← resolveHistory resolver placedOrders
  let rows ← w.2.mapM fun p => buildOrderRow account (orderSecurity p.2) p.1
  let orderIds ← upsertOrders rows
  pure (w.2, orderIds)

/-- Upsert the orders, legs and fills of the broker's history. -/
def importHistory (resolver : SecurityResolver) (placedOrders : List PlacedOrder)
    (account : String) (h : HistoryStore) : Except String ℕ × HistoryStore :=
  if placedOrders.isEmpty then (.ok 0, h)
  else match exec (importOrders resolver placedOrders account) h.store with
    | (.error e, store) => (.error e, { h with store })
    | (.ok (orders, orderIds), store) =>
      let legs := ownedLegs orders orderIds
      let r := { h with store }.upsertLegs (legs.map OwnedLeg.legRow)
      (.ok orders.length, r.2.upsertFills (fillRowsOf legs r.1))

end OrderRepository

/-! ## Symbols -/

/-- The security that a leg's symbol resolves to. -/
def legSecurity (resolver : SecurityResolver) (leg : PlacedLeg) : Option String :=
  (resolver leg.symbol (some leg.instrumentType)).toOption.map ResolvedSecurity.securityId

/-- Every symbol of the orders resolves. -/
def SymbolsKnown (resolver : SecurityResolver) (placedOrders : List PlacedOrder) : Prop :=
  ∀ po ∈ placedOrders, ∀ leg ∈ po.legs, (legSecurity resolver leg).isSome = true

/-- The orders with the securities of their legs. -/
def resolvedOrders (resolver : SecurityResolver) (placedOrders : List PlacedOrder) :
    List (PlacedOrder × List String) :=
  placedOrders.map fun po => (po, po.legs.filterMap (legSecurity resolver))

section Symbols

/-- A loop that adds what each element has, and raises at the first that has nothing. -/
theorem exec_collect {α β γ : Type} {f : γ × List β → α → LedgerProg (γ × List β)}
    {g : α → Option β}
    (some_ : ∀ a b, g a = some b → ∀ w s, ∃ c s', exec (f w a) s = (.ok (c, w.2 ++ [b]), s'))
    (none_ : ∀ a, g a = none → ∀ w s, ∃ e s', exec (f w a) s = (.error e, s'))
    (l : List α) (w : γ × List β) (s : InMemoryStore) :
    ((∀ a ∈ l, (g a).isSome = true) →
      ∃ c s', exec (l.foldlM f w) s = (.ok (c, w.2 ++ l.filterMap g), s')) ∧
    (¬(∀ a ∈ l, (g a).isSome = true) → ∃ e s', exec (l.foldlM f w) s = (.error e, s')) := by
  induction l generalizing w s with
  | nil => exact ⟨fun _ => ⟨w.1, s, by simp⟩, fun h => absurd (by simp) h⟩
  | cons a l ih =>
    rw [List.forall_mem_cons, List.foldlM_cons]
    cases ha : g a with
    | none =>
      obtain ⟨e, s', hone⟩ := none_ a ha w s
      exact ⟨fun h => absurd h.1 (by simp), fun _ => ⟨e, s', exec_bind_error hone⟩⟩
    | some b =>
      obtain ⟨c, s', hone⟩ := some_ a b ha w s
      obtain ⟨hok, herror⟩ := ih (c, w.2 ++ [b]) s'
      rw [exec_bind hone, List.filterMap_cons_some ha]
      refine ⟨fun h => ?_, fun h => herror fun h' => h ⟨rfl, h'⟩⟩
      obtain ⟨c', s'', hrest⟩ := hok h.2
      exact ⟨c', s'', by rw [hrest, List.append_assoc, List.singleton_append]⟩

variable {resolver : SecurityResolver}

theorem exec_resolveSecurity_ok {symbol : String} {hint : Option String} {r : ResolvedSecurity}
    (h : resolver symbol hint = .ok r) (seen : List String) (s : InMemoryStore) :
    ∃ seen' s', exec (resolveSecurity resolver seen symbol hint) s =
      (.ok (r.securityId, seen'), s') := by
  have hr : exec (Prog.ofExcept (resolver symbol hint)) s = (.ok r, s) := by
    rw [h]
    rfl
  unfold resolveSecurity
  rw [exec_bind hr]
  split
  · exact ⟨_, _, rfl⟩
  · exact ⟨_, _, rfl⟩

theorem exec_resolveSecurity_error {symbol : String} {hint : Option String} {e : String}
    (h : resolver symbol hint = .error e) (seen : List String) (s : InMemoryStore) :
    exec (resolveSecurity resolver seen symbol hint) s = (.error e, s) := by
  unfold resolveSecurity
  rw [h]
  rfl

/-- The legs of an order resolve, or one of them raises. -/
theorem exec_resolveLegs (seen : List String) (legs : List PlacedLeg) (s : InMemoryStore) :
    ((∀ leg ∈ legs, (legSecurity resolver leg).isSome = true) →
      ∃ seen' s', exec (OrderRepository.resolveLegs resolver seen legs) s =
        (.ok (seen', legs.filterMap (legSecurity resolver)), s')) ∧
    (¬(∀ leg ∈ legs, (legSecurity resolver leg).isSome = true) →
      ∃ e s', exec (OrderRepository.resolveLegs resolver seen legs) s = (.error e, s')) := by
  refine exec_collect (fun leg sid hleg w s => ?_) (fun leg hleg w s => ?_) legs (seen, []) s
  · unfold legSecurity at hleg
    cases hr : resolver leg.symbol (some leg.instrumentType) with
    | error e =>
      rw [hr] at hleg
      cases hleg
    | ok r =>
      rw [hr] at hleg
      obtain rfl := Option.some.inj hleg
      obtain ⟨seen', s', hone⟩ := exec_resolveSecurity_ok hr w.1 s
      exact ⟨seen', s', by rw [exec_bind hone]; rfl⟩
  · unfold legSecurity at hleg
    cases hr : resolver leg.symbol (some leg.instrumentType) with
    | error e => exact ⟨e, s, exec_bind_error (exec_resolveSecurity_error hr w.1 s)⟩
    | ok r =>
      rw [hr] at hleg
      cases hleg

/-- The orders resolve, or a symbol of them raises; either way the links are the same. -/
theorem exec_resolveHistory (resolver : SecurityResolver) (placedOrders : List PlacedOrder)
    (s : InMemoryStore) :
    ∃ s₁, SameLinks s s₁ ∧
      (SymbolsKnown resolver placedOrders → ∃ seen,
        exec (OrderRepository.resolveHistory resolver placedOrders) s =
          (.ok (seen, resolvedOrders resolver placedOrders), s₁)) ∧
      (¬SymbolsKnown resolver placedOrders → ∃ e,
        exec (OrderRepository.resolveHistory resolver placedOrders) s = (.error e, s₁)) := by
  have hsame : Resolves (OrderRepository.resolveHistory resolver placedOrders) s fun _ _ => True :=
    Resolves.foldlM (fun _ _ => True) (fun w po _ _ _ =>
      (resolves_resolveLegs resolver w.1 po.legs).bind fun _ _ _ _ => Resolves.pure trivial) trivial
  let g : PlacedOrder → Option (PlacedOrder × List String) := fun po =>
    if ∀ leg ∈ po.legs, (legSecurity resolver leg).isSome = true then
      some (po, po.legs.filterMap (legSecurity resolver)) else none
  have hg : (∀ po ∈ placedOrders, (g po).isSome = true) ↔ SymbolsKnown resolver placedOrders :=
    forall₂_congr fun po _ => by
      simp only [g]
      split <;> simp_all
  have hsome : ∀ po p, g po = some p → ∀ w s, ∃ c s',
      exec (OrderRepository.addResolved resolver w po) s = (.ok (c, w.2 ++ [p]), s') := by
    intro po p hpo w s
    obtain ⟨hknown, hp⟩ := Option.ite_none_right_eq_some.mp hpo
    obtain rfl := Option.some.inj hp
    obtain ⟨seen', s', hone⟩ := (exec_resolveLegs w.1 po.legs s).1 hknown
    unfold OrderRepository.addResolved
    exact ⟨seen', s', by rw [exec_bind hone]; rfl⟩
  have hnone : ∀ po, g po = none → ∀ w s, ∃ e s',
      exec (OrderRepository.addResolved resolver w po) s = (.error e, s') := by
    intro po hpo w s
    have hknown : ¬∀ leg ∈ po.legs, (legSecurity resolver leg).isSome = true := fun h => by
      simp only [g, if_pos h] at hpo
      cases hpo
    obtain ⟨e, s', hone⟩ := (exec_resolveLegs w.1 po.legs s).2 hknown
    unfold OrderRepository.addResolved
    exact ⟨e, s', exec_bind_error hone⟩
  obtain ⟨hok, herror⟩ := exec_collect hsome hnone placedOrders ([], []) s
  refine ⟨_, hsame.run.1, fun h => ?_, fun h => ?_⟩
  · obtain ⟨seen, s', hrun⟩ := hok (hg.mpr h)
    have hlist : placedOrders.filterMap g = resolvedOrders resolver placedOrders := by
      rw [resolvedOrders, ← List.filterMap_eq_map]
      exact List.filterMap_congr fun po hpo => if_pos (h po hpo)
    rw [List.nil_append, hlist] at hrun
    have hresult := congrArg Prod.fst hrun
    exact ⟨seen, Prod.ext hresult rfl⟩
  · obtain ⟨e, s', hrun⟩ := herror fun h' => h (hg.mp h')
    have hresult := congrArg Prod.fst hrun
    exact ⟨e, Prod.ext hresult rfl⟩

end Symbols

/-! ## Orders -/

section Orders

/-- The row that an order is built into, by the one stored under its id. -/
def builtRow (account : String) (securityId : Option String) (existing : Option OrderRow)
    (po : PlacedOrder) : OrderRow :=
  let fill := orderLevelFillFields po.legs po.priceEffect
  match existing with
  | some existing =>
    if existing.origin = .zts then OrderRepository.enrich existing po fill
    else OrderRepository.brokerRow account securityId (some existing) po fill
  | none => OrderRepository.brokerRow account securityId none po fill

theorem exec_buildOrderRow (s : InMemoryStore) (account : String) (securityId : Option String)
    (po : PlacedOrder) :
    exec (OrderRepository.buildOrderRow account securityId po) s =
      (.ok (builtRow account securityId (s.getOrder po.id) po), s) := by
  unfold OrderRepository.buildOrderRow builtRow
  rw [exec_bind (exec_getOrder s po.id)]
  cases s.getOrder po.id with
  | none => rfl
  | some existing =>
    simp only []
    split <;> rfl

theorem exec_mapM_pure {α β : Type} {f : α → LedgerProg β} {g : α → β} (s : InMemoryStore)
    (hf : ∀ a, exec (f a) s = (.ok (g a), s)) (l : List α) :
    exec (l.mapM f) s = (.ok (l.map g), s) := by
  induction l with
  | nil => rfl
  | cons a l ih =>
    rw [List.mapM_cons, exec_bind (hf a), exec_bind ih]
    rfl

theorem storedOrder_congr {s s' : InMemoryStore} {row : OrderRow}
    (h : row.ttOrderId.bind s'.orders.getByKey = row.ttOrderId.bind s.orders.getByKey) :
    storedOrder s' row = storedOrder s row := by
  unfold storedOrder
  rw [h]

/-- Rows with distinct ids are each stored over what was there before all of them. -/
theorem upsertOrders_of_nodup (s : InMemoryStore) {rows : List OrderRow}
    (hkey : ∀ row ∈ rows, row.ttOrderId.isSome = true)
    (hnodup : (rows.map OrderRow.ttOrderId).Nodup) :
    s.upsertOrders rows =
      ((s.orders.upsertEach (rows.map (storedOrder s))).1,
        { s with orders := (s.orders.upsertEach (rows.map (storedOrder s))).2 }) := by
  have hall : ∀ (rows : List OrderRow) (ids : List ℕ) (s' : InMemoryStore),
      (∀ row ∈ rows, row.ttOrderId.isSome = true) → (rows.map OrderRow.ttOrderId).Nodup →
      (∀ row ∈ rows, storedOrder s' row = storedOrder s row) →
      rows.foldl (fun r row => let u := InMemoryStore.upsertOrder r.2 row; (r.1 ++ [u.1], u.2))
          (ids, s') =
        let r := (rows.map (storedOrder s)).foldl
          (fun r row => let u := r.2.upsert row; (r.1 ++ [u.1], u.2)) (ids, s'.orders)
        (r.1, { s' with orders := r.2 }) := by
    intro rows
    induction rows with
    | nil => exact fun _ _ _ _ _ => rfl
    | cons row rows ih =>
      intro ids s' hkey hnodup hstored
      obtain ⟨k, hk⟩ := Option.isSome_iff_exists.mp (hkey row (.head _))
      obtain ⟨hnot, hnodup⟩ := List.nodup_cons.mp hnodup
      have hrow := hstored row (.head _)
      simp only [List.foldl_cons, List.map_cons, upsertOrder_eq, hrow]
      refine ih _ _ (fun row' hrow' => hkey row' (.tail _ hrow')) hnodup fun row' hrow' => ?_
      rw [← hstored row' (.tail _ hrow')]
      refine storedOrder_congr ?_
      obtain ⟨k', hk'⟩ := Option.isSome_iff_exists.mp (hkey row' (.tail _ hrow'))
      have hne : k' ≠ k := by
        rintro rfl
        exact hnot (List.mem_map.mpr ⟨row', hrow', hk'.trans hk.symm⟩)
      have hstoredKey : (storedOrder s row).key = some k :=
        (ttOrderId_storedOrder s row).trans hk
      rw [hk', Option.bind_some, Option.bind_some,
        Table.getByKey_upsert _ _ hstoredKey, if_neg hne]
  exact hall rows [] s hkey hnodup fun _ _ => rfl

end Orders

/-! ## The run -/

section Run

variable (resolver : SecurityResolver) (placedOrders : List PlacedOrder) (account : String)

/-- The row that the import stores for an order. -/
def importedOrder (s : InMemoryStore) (po : PlacedOrder) : OrderRow :=
  storedOrder s (builtRow account
    (OrderRepository.orderSecurity (po.legs.filterMap (legSecurity resolver)))
    (s.getOrder po.id) po)

/-- The ids that the keys of rows have in a table. -/
def idsIn {T κ : Type} [DecidableEq κ] {key : T → Option κ} (t : Table key) (rows : List T) :
    List ℕ := rows.map fun row => ((key row).bind t.idOf).getD 0

/-- The legs that the import stores, by the orders as it leaves them. -/
def importedLegs (orders : Table OrderRow.key) (rows : List OrderRow) : List OwnedLeg :=
  ownedLegs (resolvedOrders resolver placedOrders) (idsIn orders rows)

theorem ttOrderId_builtRow (s : InMemoryStore) (securityId : Option String) (po : PlacedOrder) :
    (builtRow account securityId (s.getOrder po.id) po).ttOrderId = some po.id := by
  cases ho : s.getOrder po.id with
  | none => rfl
  | some existing =>
    have hkey : existing.ttOrderId = some po.id := (Table.getByKey_eq_some.mp ho).2
    unfold builtRow
    simp only []
    split
    · exact hkey
    · rfl

@[simp] theorem ttOrderId_importedOrder (s : InMemoryStore) (po : PlacedOrder) :
    (importedOrder resolver account s po).ttOrderId = some po.id := by
  rw [importedOrder, ttOrderId_storedOrder, ttOrderId_builtRow]

theorem importedOrder_congr {s s' : InMemoryStore} (h : s'.orders = s.orders) (po : PlacedOrder) :
    importedOrder resolver account s' po = importedOrder resolver account s po := by
  rw [importedOrder, importedOrder, InMemoryStore.getOrder, InMemoryStore.getOrder, h]
  exact storedOrder_congr (by rw [h])

variable {resolver placedOrders} (h : HistoryStore)

/-- The orders part of an import whose symbols resolve. -/
theorem exec_importOrders (hids : (placedOrders.map PlacedOrder.id).Nodup)
    (hknown : SymbolsKnown resolver placedOrders) (s : InMemoryStore) :
    ∃ s', s'.orders =
        s.orders.upsertAll (placedOrders.map (importedOrder resolver account s)) ∧
      exec (OrderRepository.importOrders resolver placedOrders account) s =
        (.ok (resolvedOrders resolver placedOrders,
          idsIn s'.orders (placedOrders.map (importedOrder resolver account s))), s') := by
  obtain ⟨s₁, hsame, hrun, -⟩ := exec_resolveHistory resolver placedOrders s
  obtain ⟨seen, hrun⟩ := hrun hknown
  let rows := (resolvedOrders resolver placedOrders).map fun p =>
    builtRow account (OrderRepository.orderSecurity p.2) (s₁.getOrder p.1.id) p.1
  have hrows : rows.map OrderRow.ttOrderId = placedOrders.map fun po => some po.id := by
    simp only [rows, resolvedOrders, List.map_map]
    exact List.map_congr_left fun po _ => ttOrderId_builtRow account s₁ _ po
  have hkey : ∀ row ∈ rows, row.ttOrderId.isSome = true := by
    intro row hrow
    have hmem := List.mem_map_of_mem (f := OrderRow.ttOrderId) hrow
    rw [hrows] at hmem
    obtain ⟨po, -, hpo⟩ := List.mem_map.mp hmem
    rw [← hpo]
    rfl
  have hnodup : (rows.map OrderRow.ttOrderId).Nodup := by
    rw [hrows]
    simpa [Function.comp_def] using hids.map (Option.some_injective String)
  have hstored : rows.map (storedOrder s₁) =
      placedOrders.map (importedOrder resolver account s) := by
    simp only [rows, resolvedOrders, List.map_map]
    exact List.map_congr_left fun po _ => importedOrder_congr resolver account hsame.orders po
  have himported : ∀ row ∈ placedOrders.map (importedOrder resolver account s),
      row.key.isSome = true := by
    intro row hrow
    obtain ⟨po, -, rfl⟩ := List.mem_map.mp hrow
    rw [OrderRow.key, ttOrderId_importedOrder]
    rfl
  have hupsert := upsertOrders_of_nodup s₁ hkey hnodup
  rw [hstored, hsame.orders, Table.upsertEach_eq _ himported] at hupsert
  refine ⟨{ s₁ with
    orders := s.orders.upsertAll (placedOrders.map (importedOrder resolver account s)) }, rfl, ?_⟩
  have hbuild : exec ((resolvedOrders resolver placedOrders).mapM fun p =>
      OrderRepository.buildOrderRow account (OrderRepository.orderSecurity p.2) p.1) s₁ =
      (.ok rows, s₁) :=
    exec_mapM_pure s₁ (fun p : PlacedOrder × List String => exec_buildOrderRow s₁ account _ p.1) _
  unfold OrderRepository.importOrders
  rw [exec_bind hrun, exec_bind hbuild, exec_bind (exec_upsertOrders s₁ rows), hupsert]
  rfl

/-- **An import whose symbols resolve** stores the orders, then their legs, then the fills. -/
theorem importHistory_of_known (hids : (placedOrders.map PlacedOrder.id).Nodup)
    (hknown : SymbolsKnown resolver placedOrders) :
    let rows := placedOrders.map (importedOrder resolver account h.store)
    let orders := h.store.orders.upsertAll rows
    let owned := importedLegs resolver placedOrders orders rows
    let legs := h.legs.upsertAll (owned.map OwnedLeg.legRow)
    ∃ store, store.orders = orders ∧
      (OrderRepository.importHistory resolver placedOrders account h).2 =
        ⟨store, legs, h.fills.upsertAll
          (fillRowsOf owned (idsIn legs (owned.map OwnedLeg.legRow)))⟩ := by
  intro rows orders owned legs
  unfold OrderRepository.importHistory
  split
  · rename_i hempty
    obtain rfl := List.isEmpty_iff.mp hempty
    exact ⟨h.store, rfl, rfl⟩
  · obtain ⟨s', horders, hrun⟩ := exec_importOrders account hids hknown h.store
    rw [hrun]
    refine ⟨s', horders, ?_⟩
    simp only [HistoryStore.upsertLegs, HistoryStore.upsertFills]
    rw [Table.upsertEach_eq _ fun _ _ => rfl]
    simp only [horders]
    rfl

/-- An import with a symbol that does not resolve stores nothing but securities. -/
theorem importHistory_of_unknown (hknown : ¬SymbolsKnown resolver placedOrders) :
    ∃ store, store.orders = h.store.orders ∧
      (OrderRepository.importHistory resolver placedOrders account h).2 = { h with store } := by
  unfold OrderRepository.importHistory
  split
  · exact ⟨h.store, rfl, rfl⟩
  · obtain ⟨s₁, hsame, -, hrun⟩ := exec_resolveHistory resolver placedOrders h.store
    obtain ⟨e, hrun⟩ := hrun hknown
    have herror : exec (OrderRepository.importOrders resolver placedOrders account) h.store =
        (.error e, s₁) := by
      unfold OrderRepository.importOrders
      exact exec_bind_error hrun
    rw [herror]
    exact ⟨s₁, hsame.orders, rfl⟩

end Run

end TtLedger
