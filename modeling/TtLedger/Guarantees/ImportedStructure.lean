import TtLedger.Guarantees.OrderResync
import TtLedger.Guarantees.StructureReads

/-!
# Reading back an import

What the history import writes is what the structure reads return. `placedLegs` and `placedFills`
are the legs and fills of one order of the batch, straight from the broker's record. The legs read
for the order after an import are these, by place, exactly when no leg was stored for it past the
last one, and its fills are these exactly when no fill was stored for it that the batch does not
list (`reads_back_iff`): the import writes over legs and fills, and removes none.
-/

namespace TtLedger

/-! ## One order of the batch -/

/-- A leg that was read, without its id. -/
def LegDetailRow.row (leg : LegDetailRow) : LegRow where
  orderId := leg.orderId
  legIndex := leg.legIndex
  securityId := leg.securityId
  action := leg.action
  quantity := leg.quantity
  remainingQuantity := leg.remainingQuantity
  quantityDirection := leg.quantityDirection
  price := leg.price
  fillPrice := leg.fillPrice

/-- The legs of an order, under the id of its row. -/
def placedLegs (resolver : SecurityResolver) (po : PlacedOrder) (pk : ℕ) : List LegRow :=
  po.legs.zipIdx.map fun q =>
    { orderId := pk
      legIndex := q.2
      securityId := (legSecurity resolver q.1).getD ""
      action := some q.1.action
      quantity := some q.1.quantity
      remainingQuantity := some q.1.remainingQuantity
      fillPrice := vwap q.1.fills }

/-- The fills of an order, each under the id of the leg it fills. -/
def placedFills (legs : Table LegRow.key) (po : PlacedOrder) (pk : ℕ) : List FillRow :=
  po.legs.zipIdx.flatMap fun q => q.1.fills.map fun f =>
    { fillId := f.fillId
      orderId := some pk
      orderLegId := legs.idOf (pk, q.2)
      ttOrderId := some po.id
      quantity := some f.quantity
      fillPrice := some f.fillPrice
      filledAt := some f.filledAt
      destinationVenue := f.destinationVenue
      extExecId := f.extExecId
      extGroupFillId := f.extGroupFillId }

/-- The fills of a batch, by id. -/
def fillIds (placedOrders : List PlacedOrder) : List String :=
  placedOrders.flatMap fun po => po.legs.flatMap fun leg => leg.fills.map PlacedFill.fillId

section ReadBack

/-! ## Parts of a batch -/

/-- One element's share of a list that is put together element by element. -/
theorem filter_flatMap_of_mem {α β : Type} {l : List α} {f : α → List β}
    {p : β → Bool} {a : α} (hl : l.Nodup) (ha : a ∈ l) (hown : ∀ x ∈ f a, p x = true)
    (hother : ∀ b ∈ l, b ≠ a → ∀ x ∈ f b, p x = false) : (l.flatMap f).filter p = f a := by
  induction l with
  | nil => cases ha
  | cons b l ih =>
    obtain ⟨hb, hl⟩ := List.nodup_cons.mp hl
    rw [List.flatMap_cons, List.filter_append]
    rcases List.mem_cons.mp ha with rfl | hal
    · have hrest : (l.flatMap f).filter p = [] := by
        refine List.filter_eq_nil_iff.mpr fun x hx => ?_
        obtain ⟨c, hc, hxc⟩ := List.mem_flatMap.mp hx
        rw [hother c (.tail _ hc) (ne_of_mem_of_not_mem hc hb) x hxc]
        exact Bool.false_ne_true
      rw [hrest, List.append_nil]
      exact List.filter_eq_self.mpr hown
    · have hhead : (f b).filter p = [] := by
        refine List.filter_eq_nil_iff.mpr fun x hx => ?_
        rw [hother b (.head _) (ne_of_mem_of_not_mem hal hb).symm x hx]
        exact Bool.false_ne_true
      rw [hhead, List.nil_append]
      exact ih hl hal fun c hc => hother c (.tail _ hc)

variable {resolver : SecurityResolver} {placedOrders : List PlacedOrder} {account : String}

/-- The id that an order has in a table of orders. -/
def pkIn (orders : Table OrderRow.key) (po : PlacedOrder) : ℕ := (orders.idOf po.id).getD 0

/-- The legs of an order with what the importer knows of them. -/
def ownedBy (resolver : SecurityResolver) (pk : ℕ) (po : PlacedOrder) : List OwnedLeg :=
  po.legs.zipIdx.map fun q => ⟨po, pk, q.2, q.1, (legSecurity resolver q.1).getD ""⟩

theorem legRow_ownedBy (pk : ℕ) (po : PlacedOrder) :
    (ownedBy resolver pk po).map OwnedLeg.legRow = placedLegs resolver po pk := by
  rw [ownedBy, placedLegs, List.map_map]
  rfl

/-- The legs that the import stores, order by order. -/
theorem importedLegs_eq (hknown : SymbolsKnown resolver placedOrders) (s : InMemoryStore)
    (orders : Table OrderRow.key) :
    importedLegs resolver placedOrders orders
        (placedOrders.map (importedOrder resolver account s)) =
      placedOrders.flatMap fun po => ownedBy resolver (pkIn orders po) po := by
  have hids : idsIn orders (placedOrders.map (importedOrder resolver account s)) =
      placedOrders.map (pkIn orders) := by
    rw [idsIn, List.map_map]
    refine List.map_congr_left fun po _ => ?_
    rw [Function.comp_apply, OrderRow.key, ttOrderId_importedOrder]
    rfl
  rw [importedLegs, hids, ownedLegs, resolvedOrders, List.zip_map', List.flatMap_map]
  refine List.flatMap_congr fun po hpo => ?_
  have hsecurities : po.legs.filterMap (legSecurity resolver) =
      po.legs.map fun leg => (legSecurity resolver leg).getD "" := by
    rw [← List.filterMap_eq_map]
    refine List.filterMap_congr fun leg hleg => ?_
    obtain ⟨sid, hsid⟩ := Option.isSome_iff_exists.mp (hknown po hpo leg hleg)
    rw [Function.comp_apply, hsid]
    rfl
  have hzip : po.legs.zip (po.legs.map fun leg => (legSecurity resolver leg).getD "") =
      po.legs.map fun leg => (leg, (legSecurity resolver leg).getD "") := by
    simpa using List.zip_map' (f := fun leg : PlacedLeg => leg)
      (g := fun leg => (legSecurity resolver leg).getD "") (l := po.legs)
  simp only [hsecurities, hzip, List.zipIdx_map, List.map_map, ownedBy]
  rfl

/-- Distinct orders of a batch have distinct ids. -/
theorem pkIn_inj {orders : Table OrderRow.key} {po po' : PlacedOrder}
    (hpo : (orders.idOf po.id).isSome = true) (hpo' : (orders.idOf po'.id).isSome = true)
    (h : pkIn orders po = pkIn orders po') : po.id = po'.id := by
  obtain ⟨i, hi⟩ := Option.isSome_iff_exists.mp hpo
  obtain ⟨j, hj⟩ := Option.isSome_iff_exists.mp hpo'
  have hij : i = j := by simpa [pkIn, hi, hj] using h
  obtain ⟨r, hr, hk⟩ := Table.idOf_eq_some.mp hi
  obtain ⟨r', hr', hk'⟩ := Table.idOf_eq_some.mp hj
  have hrow := congrArg Prod.snd (Table.eq_of_mem_of_id hr hr' hij)
  rw [show r = r' from hrow] at hk
  exact Option.some.inj (hk.symm.trans hk')

/-- The legs of a batch have distinct keys. -/
theorem nodup_key_placedLegs (hids : (placedOrders.map PlacedOrder.id).Nodup)
    {pkOf : PlacedOrder → ℕ}
    (hpks : ∀ po ∈ placedOrders, ∀ po' ∈ placedOrders, pkOf po = pkOf po' → po.id = po'.id) :
    ((placedOrders.flatMap fun po => placedLegs resolver po (pkOf po)).map LegRow.key).Nodup := by
  have hkeys : ∀ po, (placedLegs resolver po (pkOf po)).map LegRow.key =
      (List.range po.legs.length).map fun i => some (pkOf po, i) := by
    intro po
    rw [placedLegs, List.map_map, List.range_eq_range', ← List.zipIdx_map_snd, List.map_map]
    rfl
  simp only [List.map_flatMap, hkeys]
  refine List.nodup_flatMap.mpr ⟨fun po _ => ?_, ?_⟩
  · refine List.nodup_range.map fun i j hij => ?_
    exact congrArg Prod.snd (Option.some.inj hij)
  · -- legs of different orders are under different ids
    have hne : placedOrders.Pairwise fun po po' => pkOf po ≠ pkOf po' := by
      refine (List.pairwise_map.mp hids).imp_of_mem fun hpo hpo' hid heq => hid ?_
      exact hpks _ hpo _ hpo' heq
    refine hne.imp fun hpk => List.disjoint_left.mpr fun k hk hk' => hpk ?_
    obtain ⟨i, -, rfl⟩ := List.mem_map.mp hk
    obtain ⟨j, -, heq⟩ := List.mem_map.mp hk'
    exact congrArg Prod.fst (Option.some.inj heq.symm)

/-! ## The fills that the import stores -/

/-- The fills of an order's legs under the ids of the legs are the order's fills. -/
theorem fillRows_ownedBy {legs : Table LegRow.key} {pk : ℕ} {po : PlacedOrder}
    (hlegs : ∀ leg ∈ placedLegs resolver po pk, (leg.key.bind legs.idOf).isSome = true) :
    ((ownedBy resolver pk po).flatMap fun o =>
        o.leg.fills.map (o.fillRow ((o.legRow.key.bind legs.idOf).getD 0))) =
      placedFills legs po pk := by
  rw [ownedBy, placedFills, List.flatMap_map]
  refine List.flatMap_congr fun q hq => List.map_congr_left fun f _ => ?_
  obtain ⟨i, hi⟩ := Option.isSome_iff_exists.mp (hlegs _ (List.mem_map_of_mem hq))
  have hleg : legs.idOf (pk, q.2) = some i := hi
  simp only [OwnedLeg.fillRow, OwnedLeg.legRow, LegRow.key, Option.bind_some, hleg,
    Option.getD_some]

/-- The fills that the import stores, order by order. -/
theorem fillRowsOf_eq {legs : Table LegRow.key} {pkOf : PlacedOrder → ℕ}
    (hlegs : ∀ po ∈ placedOrders, ∀ leg ∈ placedLegs resolver po (pkOf po),
      (leg.key.bind legs.idOf).isSome = true) :
    fillRowsOf (placedOrders.flatMap fun po => ownedBy resolver (pkOf po) po)
        (idsIn legs ((placedOrders.flatMap fun po => ownedBy resolver (pkOf po) po).map
          OwnedLeg.legRow)) =
      placedOrders.flatMap fun po => placedFills legs po (pkOf po) := by
  rw [fillRowsOf, idsIn, List.map_map]
  have hzip : ∀ l : List OwnedLeg, (l.zip (l.map
      ((fun row : LegRow => (row.key.bind legs.idOf).getD 0) ∘ OwnedLeg.legRow))) =
      l.map fun o => (o, (o.legRow.key.bind legs.idOf).getD 0) := by
    intro l
    simpa using List.zip_map' (f := fun o : OwnedLeg => o)
      (g := (fun row : LegRow => (row.key.bind legs.idOf).getD 0) ∘ OwnedLeg.legRow) (l := l)
  rw [hzip, List.flatMap_map, List.flatMap_assoc]
  exact List.flatMap_congr fun po hpo => fillRows_ownedBy (hlegs po hpo)

theorem map_fillId_placedFills (legs : Table LegRow.key) (po : PlacedOrder) (pk : ℕ) :
    (placedFills legs po pk).map FillRow.fillId =
      po.legs.flatMap fun leg => leg.fills.map PlacedFill.fillId := by
  rw [placedFills, List.map_flatMap]
  simp only [List.map_map]
  conv_rhs => rw [← List.zipIdx_map_fst 0 po.legs, List.flatMap_map]
  rfl

/-! ## After an import -/

variable {h h' : HistoryStore}

/-- An import whose symbols resolve stores the legs of its orders under the ids of the orders, and
the fills under the ids of the legs. -/
theorem importHistory_eq (hids : (placedOrders.map PlacedOrder.id).Nodup)
    (hknown : SymbolsKnown resolver placedOrders)
    (himport : (OrderRepository.importHistory resolver placedOrders account h).2 = h') :
    (∀ po ∈ placedOrders, (h'.store.orders.idOf po.id).isSome = true) ∧
      h'.legs = h.legs.upsertAll
        (placedOrders.flatMap fun po => placedLegs resolver po (pkIn h'.store.orders po)) ∧
      h'.fills = h.fills.upsertAll
        (placedOrders.flatMap fun po => placedFills h'.legs po (pkIn h'.store.orders po)) := by
  obtain ⟨store, horders, hrun⟩ := importHistory_of_known account h hids hknown
  rw [himport] at hrun
  simp only [← horders, importedLegs_eq hknown, List.map_flatMap, legRow_ownedBy] at hrun
  have hlegs : ∀ po ∈ placedOrders, ∀ leg ∈ placedLegs resolver po (pkIn store.orders po),
      (leg.key.bind (h.legs.upsertAll (placedOrders.flatMap fun po =>
        placedLegs resolver po (pkIn store.orders po))).idOf).isSome = true :=
    fun po hpo leg hleg =>
      Table.isSome_idOf_upsertAll (fun _ _ => rfl) (List.mem_flatMap.mpr ⟨po, hpo, hleg⟩)
  have hfills := fillRowsOf_eq hlegs
  simp only [List.map_flatMap, legRow_ownedBy] at hfills
  rw [hfills] at hrun
  subst hrun
  refine ⟨fun po hpo => ?_, rfl, rfl⟩
  rw [show (HistoryStore.mk store _ _).store.orders = _ from horders, Table.isSome_idOf,
    getByKey_imported hids h.store hpo]
  rfl

/-- The legs read for an order are the stored ones, by place. -/
theorem map_row_legsOf (pk : ℕ) :
    (h.legsOf pk).map LegDetailRow.row =
      sortOn LegRow.legIndex (h.legs.values.filter fun leg => leg.orderId = pk) := by
  rw [HistoryStore.legsOf, sortOn_map, List.map_map, Table.values, List.filter_map, sortOn_map]
  rfl

theorem perm_fillsOf (pk : ℕ) :
    (h.fillsOf pk).Perm (h.fills.values.filter fun fill => fill.orderId = some pk) := by
  rw [HistoryStore.fillsOf, Table.values, List.filter_map]
  exact (perm_sortOn _ _).map _

/-- A list of legs by place is read as it is when it has the legs of the order. -/
theorem legsOf_eq_placedLegs_iff (po : PlacedOrder) (pk : ℕ) :
    (h.legsOf pk).map LegDetailRow.row = placedLegs resolver po pk ↔
      (h.legs.values.filter fun leg => leg.orderId = pk).Perm (placedLegs resolver po pk) := by
  have hsorted : (placedLegs resolver po pk).Pairwise fun a b => a.legIndex < b.legIndex := by
    have hplaces : (placedLegs resolver po pk).map LegRow.legIndex =
        List.range po.legs.length := by
      rw [placedLegs, List.map_map, List.range_eq_range', ← List.zipIdx_map_snd]
      rfl
    rw [← List.pairwise_map, hplaces]
    exact List.pairwise_lt_range
  rw [map_row_legsOf]
  constructor
  · rintro heq
    rw [← heq]
    exact (perm_sortOn _ _).symm
  · exact fun hperm => sortOn_eq_of_perm LegRow.legIndex hperm hsorted

/-- The legs of one order after the import. -/
theorem legs_read_back_iff (hids : (placedOrders.map PlacedOrder.id).Nodup)
    (hknown : SymbolsKnown resolver placedOrders)
    (himport : (OrderRepository.importHistory resolver placedOrders account h).2 = h')
    {po : PlacedOrder} (hpo : po ∈ placedOrders) {pk : ℕ} (hpk : pk = pkIn h'.store.orders po) :
    (h'.legsOf pk).map LegDetailRow.row = placedLegs resolver po pk ↔
      ∀ leg ∈ h.legs.values, leg.orderId = pk → leg.legIndex < po.legs.length := by
  obtain ⟨hstored, hlegs, -⟩ := importHistory_eq hids hknown himport
  have hpks : ∀ po ∈ placedOrders, ∀ po' ∈ placedOrders,
      pkIn h'.store.orders po = pkIn h'.store.orders po' → po.id = po'.id :=
    fun po hpo po' hpo' => pkIn_inj (hstored po hpo) (hstored po' hpo')
  have hshare : (placedOrders.flatMap fun po =>
      placedLegs resolver po (pkIn h'.store.orders po)).filter (fun leg => leg.orderId = pk) =
      placedLegs resolver po pk := by
    rw [hpk]
    refine filter_flatMap_of_mem hids.of_map hpo (fun leg hleg => ?_)
      fun po' hpo' hne leg hleg => ?_
    · obtain ⟨q, -, rfl⟩ := List.mem_map.mp hleg
      exact decide_eq_true rfl
    · obtain ⟨q, -, rfl⟩ := List.mem_map.mp hleg
      refine decide_eq_false fun heq => hne ?_
      exact List.inj_on_of_nodup_map hids hpo' hpo (hpks po' hpo' po hpo heq)
  rw [legsOf_eq_placedLegs_iff, hlegs, ← hshare, Table.perm_filter_upsertAll_iff (fun _ => rfl)
    (nodup_key_placedLegs hids hpks)]
  refine forall₂_congr fun leg _ => ?_
  rw [decide_eq_true_eq]
  refine forall_congr' fun howner => ?_
  rw [List.mem_map]
  constructor
  · rintro ⟨leg', hleg', hkey⟩
    have hkey := Option.some.inj hkey
    have hmem : leg' ∈ placedLegs resolver po pk := by
      rw [← hshare]
      refine List.mem_filter.mpr ⟨hleg', decide_eq_true ?_⟩
      rw [← howner]
      exact congrArg Prod.fst hkey
    obtain ⟨q, hq, rfl⟩ := List.mem_map.mp hmem
    have hplace : q.2 = leg.legIndex := congrArg Prod.snd hkey
    rw [← hplace]
    exact (List.mem_zipIdx hq).2.1.trans_eq (Nat.zero_add _)
  · intro hlt
    have hq : (po.legs[leg.legIndex], leg.legIndex) ∈ po.legs.zipIdx := by
      simp [List.mem_zipIdx_iff_getElem?, hlt]
    refine ⟨_, List.mem_flatMap.mpr ⟨po, hpo, List.mem_map_of_mem hq⟩, ?_⟩
    rw [LegRow.key, LegRow.key, ← hpk, howner]

/-- The fills of one order after the import. -/
theorem fills_read_back_iff (hids : (placedOrders.map PlacedOrder.id).Nodup)
    (hknown : SymbolsKnown resolver placedOrders) (hfillIds : (fillIds placedOrders).Nodup)
    (himport : (OrderRepository.importHistory resolver placedOrders account h).2 = h')
    {po : PlacedOrder} (hpo : po ∈ placedOrders) {pk : ℕ} (hpk : pk = pkIn h'.store.orders po) :
    (h'.fillsOf pk).Perm (placedFills h'.legs po pk) ↔
      ∀ fill ∈ h.fills.values, fill.orderId = some pk → fill.fillId ∈ fillIds placedOrders := by
  obtain ⟨hstored, -, hfills⟩ := importHistory_eq hids hknown himport
  have hrows : (placedOrders.flatMap fun po =>
      placedFills h'.legs po (pkIn h'.store.orders po)).map FillRow.fillId =
      fillIds placedOrders := by
    rw [List.map_flatMap]
    simp only [map_fillId_placedFills]
    rfl
  have hkeys : (placedOrders.flatMap fun po =>
      placedFills h'.legs po (pkIn h'.store.orders po)).map FillRow.key =
      (fillIds placedOrders).map some := by
    rw [← hrows, List.map_map]
    rfl
  have hnodup : ((fillIds placedOrders).map some).Nodup :=
    hfillIds.map (Option.some_injective String)
  have hshare : (placedOrders.flatMap fun po =>
      placedFills h'.legs po (pkIn h'.store.orders po)).filter (fun fill =>
        fill.orderId = some pk) = placedFills h'.legs po pk := by
    rw [hpk]
    refine filter_flatMap_of_mem hids.of_map hpo (fun fill hfill => ?_)
      fun po' hpo' hne fill hfill => ?_
    · obtain ⟨q, -, hf⟩ := List.mem_flatMap.mp hfill
      obtain ⟨f, -, rfl⟩ := List.mem_map.mp hf
      exact decide_eq_true rfl
    · obtain ⟨q, -, hf⟩ := List.mem_flatMap.mp hfill
      obtain ⟨f, -, rfl⟩ := List.mem_map.mp hf
      refine decide_eq_false fun heq => hne (List.inj_on_of_nodup_map hids hpo' hpo ?_)
      exact pkIn_inj (hstored po' hpo') (hstored po hpo) (Option.some.inj heq)
  rw [(perm_fillsOf pk).congr_left, hfills, ← hshare,
    Table.perm_filter_upsertAll_iff (fun _ => rfl) (by rw [hkeys]; exact hnodup)]
  refine forall₂_congr fun fill _ => ?_
  rw [decide_eq_true_eq, hkeys, FillRow.key, List.mem_map_of_injective (Option.some_injective _)]

/-- A detail is of the order that its key names. -/
theorem orderPk_of_mem {f : OrderFilter} {d : OrderDetail} {k : String}
    (hd : d ∈ h.orderDetails f) (hk : d.order.ttOrderId = some k) :
    d = h.detailOf (d.orderPk, d.order) ∧ h.store.orders.idOf k = some d.orderPk := by
  rw [orderDetails_eq] at hd
  obtain ⟨p, hp, rfl⟩ := List.mem_map.mp hd
  obtain ⟨horder, -⟩ := (mem_queryOrdersWithIds f h.store).mp hp
  exact ⟨rfl, Table.idOf_eq_some.mpr ⟨p.2, Table.get_eq_some.mp horder, hk⟩⟩

/-- **Reading back an import**: after an import of distinct orders with distinct fills whose symbols
resolve, every order of the batch is read. Wherever it is read, its legs are the broker's legs, by
place, exactly when no leg was stored for it past the last one, and its fills are the broker's
fills, each with the leg it fills, exactly when no fill was stored for it that the batch does not
list. -/
theorem reads_back_iff (hids : (placedOrders.map PlacedOrder.id).Nodup)
    (hfillIds : (fillIds placedOrders).Nodup) (hknown : SymbolsKnown resolver placedOrders)
    (himport : (OrderRepository.importHistory resolver placedOrders account h).2 = h') :
    ∀ po ∈ placedOrders,
      (∃ d ∈ h'.orderDetails {}, d.order.ttOrderId = some po.id) ∧
      ∀ f, ∀ d ∈ h'.orderDetails f, d.order.ttOrderId = some po.id →
        (d.legs.map LegDetailRow.row = placedLegs resolver po d.orderPk ↔
          ∀ leg ∈ h.legs.values, leg.orderId = d.orderPk → leg.legIndex < po.legs.length) ∧
        (d.fills.Perm (placedFills h'.legs po d.orderPk) ↔
          ∀ fill ∈ h.fills.values, fill.orderId = some d.orderPk →
            fill.fillId ∈ fillIds placedOrders) := by
  intro po hpo
  obtain ⟨hstored, -, -⟩ := importHistory_eq hids hknown himport
  constructor
  · obtain ⟨pk, hpk⟩ := Option.isSome_iff_exists.mp (hstored po hpo)
    obtain ⟨order, horder, hkey⟩ := Table.idOf_eq_some.mp hpk
    have hkept : ({} : OrderFilter).keeps order = true := by
      cases hat : order.submittedAt <;> simp [OrderFilter.keeps, inRange, hat]
    refine ⟨h'.detailOf (pk, order), ?_, hkey⟩
    rw [orderDetails_eq]
    exact List.mem_map_of_mem
      ((mem_queryOrdersWithIds {} h'.store).mpr ⟨Table.get_eq_some.mpr horder, hkept⟩)
  · intro f d hd hk
    obtain ⟨hdetail, hid⟩ := orderPk_of_mem hd hk
    have hpk : d.orderPk = pkIn h'.store.orders po := by
      rw [pkIn, hid]
      rfl
    rw [show d.legs = h'.legsOf d.orderPk from congrArg OrderDetail.legs hdetail,
      show d.fills = h'.fillsOf d.orderPk from congrArg OrderDetail.fills hdetail]
    exact ⟨legs_read_back_iff hids hknown himport hpo hpk,
      fills_read_back_iff hids hknown hfillIds himport hpo hpk⟩

end ReadBack

/-- The filled order is read back, from a ledger that had it without legs. -/
theorem reads_back_filled :
    (∃ d ∈ (OrderRepository.importHistory bySymbol [filledOrder] "A"
      (oneOrder (.placed "A" "o1"))).2.orderDetails {}, d.order.ttOrderId = some "o1") ∧
    ∀ f, ∀ d ∈ (OrderRepository.importHistory bySymbol [filledOrder] "A"
      (oneOrder (.placed "A" "o1"))).2.orderDetails f, d.order.ttOrderId = some "o1" →
      d.legs.map LegDetailRow.row = placedLegs bySymbol filledOrder d.orderPk := by
  have hknown : SymbolsKnown bySymbol [filledOrder] := by
    intro po _ leg _
    rfl
  have himport : (OrderRepository.importHistory bySymbol [filledOrder] "A"
      (oneOrder (.placed "A" "o1"))).2 = _ := rfl
  obtain ⟨hread, hstructure⟩ := reads_back_iff (by decide) (by decide) hknown himport filledOrder
    (List.mem_singleton.mpr rfl)
  exact ⟨hread, fun f d hd hk => (hstructure f d hd hk).1.mpr fun leg hleg => by cases hleg⟩

end TtLedger
