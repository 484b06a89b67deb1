import TtLedger.Ingest.OrderHistory

/-!
# An order resync only enriches

A resync keeps every stored order under its id with its origin, linkage and host attribution, one
the host submitted in all but status and fills, and a second import of the batch changes no order,
leg or fill. What an upsert keeps when the batch does not carry it, it looks up by the order's id
unless that is empty: a broker order under the empty id would lose what the batch cannot carry
(`onlyEnriches_iff`), and a batch of broker ids, none of them empty, always enriches
(`onlyEnriches_of_ids`).
-/

namespace TtLedger

/-- What a resync may make of a stored order. -/
structure Enriches (o o' : OrderRow) : Prop where
  ttOrderId : o'.ttOrderId = o.ttOrderId
  origin : o'.origin = o.origin
  omsOrderId : o'.omsOrderId = o.omsOrderId
  clientOrderId : o'.clientOrderId = o.clientOrderId
  signalId : o'.signalId = o.signalId
  traceId : o'.traceId = o.traceId
  strategyId : o'.strategyId = o.strategyId
  tradeGroupId : o'.tradeGroupId = o.tradeGroupId
  marketContextId : o'.marketContextId = o.marketContextId
  zts : o.origin = .zts → o' =
    { o with
      omsStatus := o'.omsStatus
      ttStatus := o'.ttStatus
      statusMessage := o'.statusMessage
      averageFillPrice := o'.averageFillPrice
      filledQuantity := o'.filledQuantity
      remainingQuantity := o'.remainingQuantity
      filledAt := o'.filledAt }

theorem Enriches.refl (o : OrderRow) : Enriches o o :=
  ⟨rfl, rfl, rfl, rfl, rfl, rfl, rfl, rfl, rfl, fun _ => rfl⟩

/-- An import of the batch keeps every stored order under its id and only enriches it, and a
second one changes nothing more. -/
structure OnlyEnriches (resolver : SecurityResolver) (placedOrders : List PlacedOrder)
    (account : String) (h : HistoryStore) : Prop where
  rows : h.store.orders.Keeps Enriches
    (OrderRepository.importHistory resolver placedOrders account h).2.store.orders
  again : ∀ h' h'', (OrderRepository.importHistory resolver placedOrders account h).2 = h' →
    (OrderRepository.importHistory resolver placedOrders account h').2 = h'' →
    h''.store.orders = h'.store.orders ∧ h''.legs = h'.legs ∧ h''.fills = h'.fills

/-! ## One order -/

section One

variable (account : String) (securityId : Option String) (po : PlacedOrder)

/-- The row stored for an order, by the row that was. -/
def importRow (existing : Option OrderRow) : OrderRow :=
  match if truthy (some po.id) then existing else none with
  | some e => InMemoryStore.preserveOrder e (builtRow account securityId existing po)
  | none => builtRow account securityId existing po

theorem importedOrder_eq (resolver : SecurityResolver) (s : InMemoryStore) :
    importedOrder resolver account s po = importRow account
      (OrderRepository.orderSecurity (po.legs.filterMap (legSecurity resolver))) po
      (s.getOrder po.id) := by
  rw [importedOrder, storedOrder, ttOrderId_builtRow, importRow]
  rfl

variable {account securityId po}

theorem preserveOrder_self (e : OrderRow) : InMemoryStore.preserveOrder e e = e := by
  simp [InMemoryStore.preserveOrder]

theorem preserveOrder_enrich (e : OrderRow) (fill : FillFields) :
    InMemoryStore.preserveOrder e (OrderRepository.enrich e po fill) =
      OrderRepository.enrich e po fill := by
  simp [InMemoryStore.preserveOrder, OrderRepository.enrich]

theorem enrich_enrich (e : OrderRow) (fill : FillFields) :
    OrderRepository.enrich (OrderRepository.enrich e po fill) po fill =
      OrderRepository.enrich e po fill := by
  have hor : ∀ {α : Type} (x y : Option α), (x <|> (x <|> y)) = (x <|> y) := by
    intro α x y
    cases x <;> rfl
  simp only [OrderRepository.enrich, hor]
  split <;> rfl

theorem enriches_enrich (e : OrderRow) (fill : FillFields) :
    Enriches e (OrderRepository.enrich e po fill) :=
  ⟨rfl, rfl, rfl, rfl, rfl, rfl, rfl, rfl, rfl, fun _ => rfl⟩

/-- A broker order is rebuilt with its linkage, and with what the batch does not carry when that
is preserved. -/
theorem enriches_brokerRow_iff {e : OrderRow} (hkey : e.ttOrderId = some po.id)
    (horigin : e.origin ≠ .zts) (fill : FillFields) :
    Enriches e (OrderRepository.brokerRow account securityId (some e) po fill) ↔
      e.clientOrderId = none ∧ e.marketContextId = none := by
  have hbroker : Origin.broker = e.origin := by
    cases h : e.origin with
    | zts => exact absurd h horigin
    | broker => rfl
  constructor
  · exact fun h => ⟨h.clientOrderId.symm, h.marketContextId.symm⟩
  · rintro ⟨hclient, hmarket⟩
    exact ⟨hkey.symm, hbroker, rfl, hclient.symm, rfl, rfl, rfl, rfl, hmarket.symm,
      fun hzts => absurd hzts horigin⟩

theorem enriches_preserved {e : OrderRow} (hkey : e.ttOrderId = some po.id)
    (horigin : e.origin ≠ .zts) (fill : FillFields) :
    Enriches e (InMemoryStore.preserveOrder e
      (OrderRepository.brokerRow account securityId (some e) po fill)) := by
  have hbroker : Origin.broker = e.origin := by
    cases h : e.origin with
    | zts => exact absurd h horigin
    | broker => rfl
  have hself : ∀ {α : Type} (x : Option α), (x <|> x) = x := by
    intro α x
    cases x <;> rfl
  exact ⟨hkey.symm, hbroker, hself _, rfl, hself _, hself _, hself _, hself _, rfl,
    fun hzts => absurd hzts horigin⟩

theorem builtRow_zts {e : OrderRow} (h : e.origin = .zts) :
    builtRow account securityId (some e) po =
      OrderRepository.enrich e po (orderLevelFillFields po.legs po.priceEffect) := if_pos h

theorem builtRow_broker {e : OrderRow} (h : e.origin ≠ .zts) :
    builtRow account securityId (some e) po =
      OrderRepository.brokerRow account securityId (some e) po
        (orderLevelFillFields po.legs po.priceEffect) := if_neg h

/-- **What the import makes of a stored order** is an enrichment of it, except for a broker order
under the empty id with a client order id or a market context. -/
theorem enriches_importRow_iff {e : OrderRow} (hkey : e.ttOrderId = some po.id) :
    Enriches e (importRow account securityId po (some e)) ↔
      (po.id = "" → e.origin = .zts ∨ e.clientOrderId = none ∧ e.marketContextId = none) := by
  by_cases hid : po.id = ""
  · have hrow : importRow account securityId po (some e) =
        builtRow account securityId (some e) po := by
      rw [importRow, if_neg (by simp [truthy, hid])]
    rw [hrow]
    by_cases horigin : e.origin = .zts
    · rw [builtRow_zts horigin]
      exact ⟨fun _ _ => Or.inl horigin, fun _ => enriches_enrich e _⟩
    · rw [builtRow_broker horigin, enriches_brokerRow_iff hkey horigin]
      exact ⟨fun h _ => Or.inr h, fun h => (h hid).resolve_left horigin⟩
  · have hrow : importRow account securityId po (some e) =
        InMemoryStore.preserveOrder e (builtRow account securityId (some e) po) := by
      rw [importRow, if_pos (by simp [truthy, hid])]
    rw [hrow]
    refine ⟨fun _ h => absurd h hid, fun _ => ?_⟩
    by_cases horigin : e.origin = .zts
    · rw [builtRow_zts horigin, preserveOrder_enrich]
      exact enriches_enrich e _
    · rw [builtRow_broker horigin]
      exact enriches_preserved hkey horigin _

/-- The order that an import stored is imported again as it is. -/
theorem importRow_importRow (existing : Option OrderRow) :
    importRow account securityId po (some (importRow account securityId po existing)) =
      importRow account securityId po existing := by
  have hbroker : ∀ existing fill,
      (OrderRepository.brokerRow account securityId existing po fill).origin ≠ .zts :=
    fun existing fill h => by cases h
  cases hid : truthy (some po.id) with
  | false =>
    have hrow : ∀ existing, importRow account securityId po existing =
        builtRow account securityId existing po := by
      intro existing
      rw [importRow, hid]
      rfl
    rw [hrow, hrow]
    cases existing with
    | none => exact builtRow_broker (hbroker none _)
    | some e =>
      by_cases horigin : e.origin = .zts
      · rw [builtRow_zts horigin, builtRow_zts (e := OrderRepository.enrich e po _) horigin,
          enrich_enrich]
      · rw [builtRow_broker horigin, builtRow_broker (hbroker (some e) _)]
        rfl
  | true =>
    have hrow : ∀ e, importRow account securityId po (some e) =
        InMemoryStore.preserveOrder e (builtRow account securityId (some e) po) := by
      intro e
      rw [importRow, hid]
      rfl
    have hnew : importRow account securityId po none =
        builtRow account securityId none po := by
      rw [importRow, hid]
      rfl
    cases existing with
    | none =>
      rw [hrow, hnew]
      have hbuilt : builtRow account securityId none po =
          OrderRepository.brokerRow account securityId none po
            (orderLevelFillFields po.legs po.priceEffect) := rfl
      rw [hbuilt, builtRow_broker (hbroker none _)]
      rfl
    | some e =>
      rw [hrow, hrow]
      by_cases horigin : e.origin = .zts
      · rw [builtRow_zts horigin, preserveOrder_enrich,
          builtRow_zts (e := OrderRepository.enrich e po _) horigin, enrich_enrich,
          preserveOrder_self]
      · rw [builtRow_broker horigin]
        have hkept : ∀ fill, (InMemoryStore.preserveOrder e
            (OrderRepository.brokerRow account securityId (some e) po fill)).origin ≠ .zts :=
          fun fill h => by cases h
        rw [builtRow_broker (hkept _)]
        simp [InMemoryStore.preserveOrder, OrderRepository.brokerRow]

end One

/-! ## The batch -/

section Batch

variable {resolver : SecurityResolver} {placedOrders : List PlacedOrder} {account : String}
  {h : HistoryStore}

theorem isSome_key_imported (s : InMemoryStore) :
    ∀ row ∈ placedOrders.map (importedOrder resolver account s), row.key.isSome = true := by
  intro row hrow
  obtain ⟨po, -, rfl⟩ := List.mem_map.mp hrow
  rw [OrderRow.key, ttOrderId_importedOrder]
  rfl

/-- Under the id of an order of the batch is what the import makes of that order. -/
theorem getByKey_imported (hids : (placedOrders.map PlacedOrder.id).Nodup) (s : InMemoryStore)
    {po : PlacedOrder} (hpo : po ∈ placedOrders) :
    (s.orders.upsertAll (placedOrders.map (importedOrder resolver account s))).getByKey po.id =
      some (importedOrder resolver account s po) := by
  have hmem : importedOrder resolver account s po ∈
      (placedOrders.map (importedOrder resolver account s)).filter fun row =>
        row.key = some po.id :=
    List.mem_filter.mpr ⟨List.mem_map_of_mem hpo, by simp⟩
  obtain ⟨last, hlast⟩ := Option.isSome_iff_exists.mp
    (List.getLast?_isSome.mpr (List.ne_nil_of_mem hmem))
  rw [Table.getByKey_upsertAll _ (isSome_key_imported s), hlast, Option.some_or]
  obtain ⟨hrow, hkey⟩ := List.mem_filter.mp (List.mem_of_getLast? hlast)
  obtain ⟨po', hpo', rfl⟩ := List.mem_map.mp hrow
  have hid : po'.id = po.id := by simpa using hkey
  rw [List.inj_on_of_nodup_map hids hpo' hpo hid]

/-- The stored orders are enriched exactly when no broker order under the empty id loses what the
batch does not carry. -/
theorem keeps_imported_iff (hids : (placedOrders.map PlacedOrder.id).Nodup) (s : InMemoryStore) :
    s.orders.Keeps Enriches
        (s.orders.upsertAll (placedOrders.map (importedOrder resolver account s))) ↔
      ∀ po ∈ placedOrders, po.id = "" → ∀ e, s.getOrder "" = some e →
        e.origin = .zts ∨ e.clientOrderId = none ∧ e.marketContextId = none := by
  have hone : ∀ po ∈ placedOrders, ∀ e, s.getOrder po.id = some e →
      (Enriches e (importedOrder resolver account s po) ↔
        (po.id = "" → e.origin = .zts ∨ e.clientOrderId = none ∧ e.marketContextId = none)) := by
    intro po _ e he
    rw [importedOrder_eq, he]
    exact enriches_importRow_iff (Table.getByKey_eq_some.mp he).2
  constructor
  · intro hkeeps po hpo hid e he
    obtain ⟨⟨pk, hpk⟩, hkey⟩ := Table.getByKey_eq_some.mp he
    obtain ⟨r, hr, henriches⟩ := hkeeps pk e (Table.get_eq_some.mpr hpk)
    rw [Table.get_upsertAll_of_key (Table.get_eq_some.mpr hpk) hkey, ← hid,
      getByKey_imported hids s hpo] at hr
    obtain rfl := Option.some.inj hr
    exact (hone po hpo e (by rw [hid, he])).mp henriches hid
  · intro hlinks pk e he
    cases hkey : e.ttOrderId with
    | none =>
      exact ⟨e, Table.get_upsertAll_of_none (isSome_key_imported s) he hkey, Enriches.refl e⟩
    | some k =>
      have hget : s.getOrder k = some e :=
        Table.getByKey_eq_some.mpr ⟨⟨pk, Table.get_eq_some.mp he⟩, hkey⟩
      rw [Table.get_upsertAll_of_key he hkey]
      by_cases hbatch : ∃ po ∈ placedOrders, po.id = k
      · obtain ⟨po, hpo, rfl⟩ := hbatch
        refine ⟨_, getByKey_imported hids s hpo, (hone po hpo e hget).mpr fun hid => ?_⟩
        exact hlinks po hpo hid e (by rw [← hid, hget])
      · -- an order that the batch does not list is as it was
        have hnil : (placedOrders.map (importedOrder resolver account s)).filter
            (fun row => row.key = some k) = [] := by
          refine List.filter_eq_nil_iff.mpr fun row hrow hk => hbatch ?_
          obtain ⟨po, hpo, rfl⟩ := List.mem_map.mp hrow
          exact ⟨po, hpo, by simpa using hk⟩
        rw [Table.getByKey_upsertAll _ (isSome_key_imported s), hnil, List.getLast?_nil,
          Option.none_or]
        exact ⟨e, hget, Enriches.refl e⟩

/-- A second import stores the rows that the first one stored. -/
theorem imported_again (hids : (placedOrders.map PlacedOrder.id).Nodup) {s s' : InMemoryStore}
    (horders : s'.orders =
      s.orders.upsertAll (placedOrders.map (importedOrder resolver account s))) :
    placedOrders.map (importedOrder resolver account s') =
      placedOrders.map (importedOrder resolver account s) := by
  refine List.map_congr_left fun po hpo => ?_
  have hget : s'.getOrder po.id = some (importedOrder resolver account s po) := by
    rw [InMemoryStore.getOrder, horders]
    exact getByKey_imported hids s hpo
  rw [importedOrder_eq, hget, importedOrder_eq, importRow_importRow]

/-- A second import of the batch changes no order, leg or fill. -/
theorem importHistory_again (hids : (placedOrders.map PlacedOrder.id).Nodup)
    {h' h'' : HistoryStore}
    (hfirst : (OrderRepository.importHistory resolver placedOrders account h).2 = h')
    (hsecond : (OrderRepository.importHistory resolver placedOrders account h').2 = h'') :
    h''.store.orders = h'.store.orders ∧ h''.legs = h'.legs ∧ h''.fills = h'.fills := by
  by_cases hknown : SymbolsKnown resolver placedOrders
  · obtain ⟨store, horders, hrun⟩ := importHistory_of_known account h hids hknown
    obtain ⟨store', horders', hrun'⟩ := importHistory_of_known account h' hids hknown
    rw [hsecond] at hrun'
    rw [hfirst] at hrun
    subst hrun
    rw [imported_again hids horders, horders,
      Table.upsertAll_upsertAll _ (isSome_key_imported h.store)] at horders' hrun'
    have hlegs : ∀ (t : Table LegRow.key) rows,
        (t.upsertAll rows).upsertAll rows = t.upsertAll rows :=
      fun t rows => Table.upsertAll_upsertAll t fun _ _ => rfl
    simp only [hlegs] at hrun'
    rw [hrun']
    exact ⟨horders'.trans horders.symm, rfl, Table.upsertAll_upsertAll _ fun _ _ => rfl⟩
  · obtain ⟨store, horders, hrun⟩ := importHistory_of_unknown account h hknown
    obtain ⟨store', horders', hrun'⟩ := importHistory_of_unknown account h' hknown
    rw [hsecond] at hrun'
    rw [hrun']
    exact ⟨horders', rfl, rfl⟩

end Batch

/-- For every state and every batch of distinct ids, an order resync only enriches exactly when a
symbol of the batch does not resolve, so that it stores no order, or it lists no order under the
empty id, or the order stored there is one the host submitted or has neither a client order id nor
a market context. -/
theorem onlyEnriches_iff (resolver : SecurityResolver) (placedOrders : List PlacedOrder)
    (account : String) (h : HistoryStore) (hids : (placedOrders.map PlacedOrder.id).Nodup) :
    OnlyEnriches resolver placedOrders account h ↔
      ¬SymbolsKnown resolver placedOrders ∨
        ∀ po ∈ placedOrders, po.id = "" → ∀ e, h.store.getOrder "" = some e →
          e.origin = .zts ∨ e.clientOrderId = none ∧ e.marketContextId = none := by
  have hagain : ∀ h' h'', (OrderRepository.importHistory resolver placedOrders account h).2 = h' →
      (OrderRepository.importHistory resolver placedOrders account h').2 = h'' →
      h''.store.orders = h'.store.orders ∧ h''.legs = h'.legs ∧ h''.fills = h'.fills :=
    fun h' h'' => importHistory_again hids
  have hiff : OnlyEnriches resolver placedOrders account h ↔
      h.store.orders.Keeps Enriches
        (OrderRepository.importHistory resolver placedOrders account h).2.store.orders :=
    ⟨OnlyEnriches.rows, fun hrows => ⟨hrows, hagain⟩⟩
  rw [hiff]
  by_cases hknown : SymbolsKnown resolver placedOrders
  · obtain ⟨store, horders, hrun⟩ := importHistory_of_known account h hids hknown
    rw [hrun, show (HistoryStore.mk store _ _).store.orders = _ from horders,
      keeps_imported_iff hids h.store]
    exact ⟨Or.inr, fun hcond => hcond.resolve_left fun hnot => hnot hknown⟩
  · obtain ⟨store, horders, hrun⟩ := importHistory_of_unknown account h hknown
    rw [hrun, show ({ h with store } : HistoryStore).store.orders = _ from horders]
    exact ⟨fun _ => Or.inl hknown, fun _ => .refl Enriches.refl _⟩

/-- **An order resync only enriches**: for every state and every batch of distinct ids, none of
them empty. -/
theorem onlyEnriches_of_ids (resolver : SecurityResolver) (placedOrders : List PlacedOrder)
    (account : String) (h : HistoryStore) (hids : (placedOrders.map PlacedOrder.id).Nodup)
    (hnonempty : ∀ po ∈ placedOrders, po.id ≠ "") :
    OnlyEnriches resolver placedOrders account h := by
  refine (onlyEnriches_iff resolver placedOrders account h hids).mpr ?_
  exact Or.inr fun po hpo hid => absurd hid (hnonempty po hpo)

/-- A resolver that takes a symbol for its security. -/
def bySymbol : SecurityResolver := fun symbol _ => .ok { securityId := symbol }

/-- A ledger with one order. -/
def oneOrder (order : OrderRow) : HistoryStore := ⟨.seeded [] [order] [], .empty _, .empty _⟩

/-- A filled order of one contract. -/
def filledOrder : PlacedOrder where
  id := "o1"
  receivedAt := 0
  status := some "Filled"
  legs := [{ instrumentType := "Equity"
             symbol := "X"
             action := "Buy to Open"
             quantity := 1
             remainingQuantity := 0
             fills := [{ fillId := "F-1", quantity := 1, fillPrice := 10, filledAt := second }] }]

/-- The resync of an order the host submitted fills it, and one of the broker's keeps the client
order id that the batch does not carry. -/
theorem onlyEnriches_of_ids_filled :
    let batch : List PlacedOrder := [filledOrder, { id := "o2", receivedAt := 0 }]
    let orders : List OrderRow :=
      [{ OrderRow.placed "A" "o1" with origin := .zts, signalId := some "SIG-1" },
        { OrderRow.placed "A" "o2" with clientOrderId := some "C-1" }]
    let h : HistoryStore := ⟨.seeded [] orders [], .empty _, .empty _⟩
    ((OrderRepository.importHistory bySymbol batch "A" h).2.store.orders.get 1).map
        OrderRow.averageFillPrice = some (some 10) ∧
      OnlyEnriches bySymbol batch "A" h := by
  intro batch orders h
  exact ⟨by decide +kernel, onlyEnriches_of_ids bySymbol batch "A" h (by decide) (by decide)⟩

/-- A broker order under the empty id would lose its client order id in the resync. -/
theorem not_onlyEnriches_emptyId :
    let batch : List PlacedOrder := [{ id := "", receivedAt := 0 }]
    let order : OrderRow := { OrderRow.placed "A" "" with clientOrderId := some "C-1" }
    (batch.map PlacedOrder.id).Nodup ∧ ¬OnlyEnriches bySymbol batch "A" (oneOrder order) := by
  intro batch order
  refine ⟨by decide, fun h => ?_⟩
  have hstored : (oneOrder order).store.orders.get 1 = some order := by decide +kernel
  have hlost : ((OrderRepository.importHistory bySymbol batch "A"
      (oneOrder order)).2.store.orders.get 1).map OrderRow.clientOrderId = some none := by
    decide +kernel
  obtain ⟨order', horder', henriches⟩ := h.rows 1 order hstored
  rw [horder', Option.map_some, henriches.clientOrderId] at hlost
  cases hlost

end TtLedger
