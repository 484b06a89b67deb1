import TtLedger.Ingest.PassLaws

/-!
# Late broker truth

What the next pass does with a real settlement row that arrives after a lapse has settled the lot.
The pass routes it like any other settlement: to the first open group that still holds the
contract, else to the first with a member in it (`takerOf`), else into a new group. So the row
is a no-op if and only if some open group takes it and is not closed by it
(`late_settlement_iff`): when the lapse closed the only group that traded the contract, the row
opens a group of its own.
-/

namespace TtLedger

variable (s : InMemoryStore) (account : String) (args : ReconcileArgs)

/-- A real settlement row, not imported yet, of a lot that a lapse has settled: same account, same
contract, same quantity. -/
structure LateSettlement (pk : ℕ) (sid : String) (r : TxnRow) : Prop where
  settled : ∃ l ∈ s.members pk, l.ttTransactionId = lapseId account pk sid ∧
    l.quantity = r.quantity
  netted : netIn (s.getGroupTransactions pk) sid = 0
  contract : r.securityId = some sid
  own : r.account = account
  settles : r.isNontradeClose = true
  fresh : s.txn r.ttTransactionId = none
  ungrouped : r.tradeGroupId = none
  /-- Settlements belong to no order. -/
  unordered : r.orderId = none ∧ r.ttOrderId = none

/-- The row is all there is to do: no candidate waits, no settlement is due, nothing is to be
healed. -/
structure AtRest (r : TxnRow) : Prop where
  candidates : candidatesOf (linked s account) account args = []
  lapses : lapseSettlements (s.upsertTransaction r) account args = .ok []
  closed : closedOpenGroups s account = []

/-- No group is new, `pk` has its status, its realized P&L and its nets, and as many groups are
open. -/
structure NoOpFor (pk : ℕ) (s' : InMemoryStore) : Prop where
  groups : ∀ k, (s'.getTradeGroupById k).isSome = (s.getTradeGroupById k).isSome
  status : (s'.getTradeGroupById pk).map TradeGroupRow.status =
    (s.getTradeGroupById pk).map TradeGroupRow.status
  realized : (s'.getTradeGroupById pk).map TradeGroupRow.realizedPnl =
    (s.getTradeGroupById pk).map TradeGroupRow.realizedPnl
  nets : ∀ sid, netIn (s'.getGroupTransactions pk) sid = netIn (s.getGroupTransactions pk) sid
  openGroups : (openGroupsOf s' account).length = (openGroupsOf s account).length

/-- The open group the router gives a row to. -/
def takerOf (r : TxnRow) : Option OpenGroup :=
  (routeRow (openGroupsOf s account)
    ((openGroupsOf s account).map fun g => (g, netQuantities g.rows)) r).1

/-- The pass does not look at the row, or an open group takes it, stays open with it and, if it is
the settled group itself, has the same nets with it. -/
def Absorbed (pk : ℕ) (r : TxnRow) : Prop :=
  inRange r.executedAt args.since none = false ∨
    ∃ g, takerOf s account r = some g ∧ fullyClosed (g.rows ++ [r]) = false ∧
      (g.pk = pk → ∀ sid, netIn (g.rows ++ [r]) sid = netIn g.rows sid)

theorem AtRest.unclosed {s : InMemoryStore} {account : String} {args : ReconcileArgs} {r : TxnRow}
    (h : AtRest s account args r) : ∀ g ∈ openGroupsOf s account, fullyClosed g.rows = false := by
  intro g hg
  rw [← Bool.not_eq_true]
  intro hc
  have hmem := (mem_closedOpenGroups s account).mpr ⟨hg, hc⟩
  rw [h.closed] at hmem
  cases hmem

/-! ## The state the row is routed in -/

/-- The state after the import and the links. -/
def imported (r : TxnRow) : InMemoryStore := linked (s.upsertTransaction r) account

section Imported

variable {s account args} {pk : ℕ} {sid : String} {r : TxnRow}

@[simp] theorem tradeGroups_imported (r : TxnRow) :
    (imported s account r).tradeGroups = s.tradeGroups := rfl

theorem getTradeGroupById_imported (k : ℕ) :
    (imported s account r).getTradeGroupById k = s.getTradeGroupById k := rfl

theorem values_imported (h : LateSettlement s account pk sid r) :
    (imported s account r).transactions.values =
      s.transactions.values.map (linkRow s account) ++ [r] := by
  have hnew : (r.key).bind s.transactions.idOf = none := by
    rw [TxnRow.key, Option.bind_some, Table.idOf_eq_none]
    exact Table.getByKey_eq_none.mp h.fresh
  have hrow : (s.upsertTransaction r).transactions = (s.transactions.upsert r).2 := by
    have hnone : s.transactions.getByKey r.ttTransactionId = none := h.fresh
    rw [InMemoryStore.upsertTransaction]
    simp only [hnone]
  have hlink : linkRow (s.upsertTransaction r) account = linkRow s account := rfl
  -- a row without an order is not linked
  have hkeep : linkRow s account r = r := by
    unfold linkRow InMemoryStore.linksTransaction InMemoryStore.orderOf
    simp [h.unordered.2]
  rw [imported, values_linked, hrow, Table.values_upsert_of_new hnew, List.map_append, hlink,
    List.map_singleton, hkeep]

theorem members_imported (h : LateSettlement s account pk sid r) (k : ℕ) :
    (imported s account r).members k = (s.members k).map (linkRow s account) := by
  rw [InMemoryStore.members, values_imported h, List.filter_append, List.filter_map,
    InMemoryStore.members]
  simp [Function.comp_def, h.ungrouped]

theorem getGroupTransactions_imported (h : LateSettlement s account pk sid r) (k : ℕ) :
    (imported s account r).getGroupTransactions k =
      (s.getGroupTransactions k).map (linkRow s account) := by
  rw [InMemoryStore.getGroupTransactions, members_imported h, sortOn_map,
    InMemoryStore.getGroupTransactions]
  simp only [linkRow_executedAt]

/-- A group as the links leave it. -/
def linkGroup (s : InMemoryStore) (account : String) (g : OpenGroup) : OpenGroup :=
  ⟨g.pk, g.rows.map (linkRow s account)⟩

theorem openGroupsOf_imported (h : LateSettlement s account pk sid r) :
    openGroupsOf (imported s account r) account =
      (openGroupsOf s account).map (linkGroup s account) := by
  rw [openGroupsOf, openGroupsOf, List.map_filterMap]
  refine List.filterMap_congr fun tg _ => ?_
  rw [Option.map_map]
  simp only [Function.comp_def, getGroupTransactions_imported h]
  rfl

theorem ungrouped_imported (h : LateSettlement s account pk sid r) :
    Ungrouped (imported s account r) [r] := by
  refine ⟨by simp, fun r' hr' => ?_⟩
  obtain rfl := List.mem_singleton.mp hr'
  refine ⟨r', ?_, rfl, h.ungrouped⟩
  rw [← InMemoryStore.mem_values_iff_txn, values_imported h]
  simp

/-- The row is the one candidate, when the pass looks at it. -/
theorem candidatesOf_imported (h : LateSettlement s account pk sid r)
    (hrest : AtRest s account args r) :
    candidatesOf (imported s account r) account args =
      if inRange r.executedAt args.since none then [(imported s account r).activityRow r]
      else [] := by
  have hbefore := hrest.candidates
  rw [candidatesOf_eq, List.map_eq_nil_iff, values_linked] at hbefore
  have hcand : r.isUnrouted = true := by
    simp [TxnRow.isUnrouted, h.ungrouped, h.settles]
  rw [candidatesOf_eq, values_imported h, List.filter_append, hbefore, List.nil_append,
    List.filter_cons, List.filter_nil]
  simp only [h.own, decide_true, Bool.true_and, hcand, Bool.and_true]
  split <;> rfl

/-- The router gives the row to the same group. -/
theorem routeRow_imported (h : LateSettlement s account pk sid r) :
    (routeRow (openGroupsOf (imported s account r) account)
      ((openGroupsOf (imported s account r) account).map fun g => (g, netQuantities g.rows)) r).1 =
      (takerOf s account r).map (linkGroup s account) := by
  have hbook : ∀ g : OpenGroup, SameBook (linkGroup s account g).rows g.rows :=
    fun g => sameBook_linkRow s account g.rows
  have hids : ∀ g : OpenGroup, (linkGroup s account g).securityIds = g.securityIds :=
    fun g => (hbook g).securityIds_eq g.pk g.pk
  have hnets : ((openGroupsOf s account).map (linkGroup s account)).map
      (fun g => (g, netQuantities g.rows)) =
      ((openGroupsOf s account).map fun g => (g, netQuantities g.rows)).map
        fun e => (linkGroup s account e.1, e.2) := by
    rw [List.map_map, List.map_map]
    simp only [Function.comp_def, (hbook _).netQuantities_eq]
  rw [openGroupsOf_imported h, hnets, routeRow_map _ hids, takerOf]

/-! ## The pass -/

/-- Routing one row of no order. -/
theorem clusterStep_singleton (pass : Pass) (s : InMemoryStore) {a : ActivityRow}
    (ha : a.orderTradeGroupId = none) :
    clusterStep account false (pass, s) [a] =
      match (routeRow pass.openGroups (pass.openGroups.map fun g => (g, netQuantities g.rows))
        a.toTxnRow).1 with
      | some g => bucketStep none [] (pass, s) (g, [a])
      | none => ((restStep s account false pass [a.toTxnRow]).1.2,
          (restStep s account false pass [a.toTxnRow]).2) := by
  have hnone : (intentOf [a]).entries = [] := by
    unfold intentOf
    rw [groupBy_entries_eq_nil_iff]
    intro b hb
    obtain rfl := List.mem_singleton.mp hb
    exact ha
  have hintent : intentRows s pass.openGroups [a] false = ((pass.openGroups, [a]), s) := by
    simp [intentRows, hnone, unattributed, ha]
  unfold clusterStep routeCluster
  simp only [hintent, List.foldl_cons, List.foldl_nil, routeStep]
  cases (routeRow pass.openGroups (pass.openGroups.map fun g => (g, netQuantities g.rows))
    a.toTxnRow).1 with
  | none => simp
  | some g => simp [addToBucket, restStep]

/-- The cluster loop over the late row. -/
theorem routeLoop_imported (hdry : args.dryRun = false) (h : LateSettlement s account pk sid r)
    (hrest : AtRest s account args r) :
    (inRange r.executedAt args.since none = false ∧
        (routeLoop (imported s account r) account args).2 = imported s account r) ∨
      (inRange r.executedAt args.since none = true ∧ ∃ g deliveryPk,
        takerOf s account r = some g ∧
          (routeLoop (imported s account r) account args).2 =
            exitState (imported s account r) (linkGroup s account g) [r] none deliveryPk) ∨
      (inRange r.executedAt args.since none = true ∧ takerOf s account r = none ∧
        (routeLoop (imported s account r) account args).2 =
          createState (imported s account r) account [r]) := by
  unfold routeLoop
  rw [candidatesOf_imported h hrest, hdry]
  cases hrange : inRange r.executedAt args.since none with
  | false => exact Or.inl ⟨rfl, rfl⟩
  | true =>
    right
    have horder : ((imported s account r).activityRow r).orderTradeGroupId = none := by
      rw [InMemoryStore.activityRow, h.unordered.1]
      rfl
    have hroute := routeRow_imported h
    rw [if_pos rfl, clusterByTime_singleton, List.foldl_cons, List.foldl_nil,
      clusterStep_singleton _ _ horder]
    cases htaker : takerOf s account r with
    | none =>
      rw [htaker, Option.map_none] at hroute
      refine Or.inr ⟨rfl, rfl, ?_⟩
      rw [show ((imported s account r).activityRow r).toTxnRow = r from rfl]
      simp only [hroute]
      rfl
    | some g =>
      rw [htaker, Option.map_some] at hroute
      refine Or.inl ⟨rfl, g, deliveryOf (imported s account r) none [r] [], rfl, ?_⟩
      rw [show ((imported s account r).activityRow r).toTxnRow = r from rfl]
      simp only [hroute]
      unfold bucketStep
      simp only [ite_self]
      rfl

/-- The pass is the cluster loop, the events of the rolls and the heal. -/
theorem reconcile_imported (hdry : args.dryRun = false) (hrest : AtRest s account args r) :
    ∃ events, (exec (reconcile (some account) args) (s.upsertTransaction r)).2 =
      healed ((routeLoop (imported s account r) account args).2.addEvents events) account
        false := by
  have hlapses : lapseSettlements (linked (s.upsertTransaction r) account) account args =
      .ok [] := by
    rw [lapseSettlements_linked, hrest.lapses]
  obtain ⟨rows, loop, events, hrun⟩ :=
    passRun (s.upsertTransaction r) account args hdry ((errorFree_iff _ _ _).mpr ⟨[], hlapses⟩)
  obtain rfl : rows = [] := Except.ok.inj (hrun.due.symm.trans hlapses)
  refine ⟨events, ?_⟩
  rw [hrun.result, ← hrun.routed]
  rfl

/-! ## What the row changes -/

/-- The members of the group that takes the row. -/
theorem members_taken (h : LateSettlement s account pk sid r) (k : ℕ) :
    SameBook (((imported s account r).attached [r.ttTransactionId] k).members k)
      (s.members k ++ [r]) := by
  have hother : ∀ t ∈ s.transactions.values, t.ttTransactionId ≠ r.ttTransactionId := by
    intro t ht heq
    have hstored := s.mem_values_iff_txn.mp ht
    rw [heq, h.fresh] at hstored
    cases hstored
  have hbook : (TxnRow.book ∘ InMemoryStore.attachRow [r.ttTransactionId] k) = TxnRow.book := by
    funext t
    simp
  have hself : (InMemoryStore.attachRow [r.ttTransactionId] k r).tradeGroupId = some k := by
    simp [InMemoryStore.attachRow]
  rw [SameBook, InMemoryStore.members_attached, List.map_map, hbook, values_imported h,
    List.filter_append, List.filter_map, List.map_append, List.map_append, List.map_map]
  congr 1
  · rw [InMemoryStore.members]
    have hfilter : s.transactions.values.filter ((fun t => decide
        ((InMemoryStore.attachRow [r.ttTransactionId] k t).tradeGroupId = some k)) ∘
          linkRow s account) =
        s.transactions.values.filter fun t => decide (t.tradeGroupId = some k) := by
      refine List.filter_congr fun t ht => ?_
      simp [InMemoryStore.attachRow, hother t ht]
    rw [hfilter]
    exact List.map_congr_left fun t _ => linkRow_book s account t
  · simp [hself]

/-- The book of the group that takes the row, in time order. -/
theorem taken_book (h : LateSettlement s account pk sid r) (k : ℕ) :
    fullyClosed (((imported s account r).attached [r.ttTransactionId] k).getGroupTransactions k) =
        fullyClosed (s.getGroupTransactions k ++ [r]) ∧
      ∀ sid, netIn
        (((imported s account r).attached [r.ttTransactionId] k).getGroupTransactions k) sid =
          netIn (s.getGroupTransactions k ++ [r]) sid := by
  have hmem := members_taken h k
  constructor
  · rw [InMemoryStore.getGroupTransactions, fullyClosed_sortOn, hmem.fullyClosed_eq,
      InMemoryStore.getGroupTransactions, fullyClosed_sortOn_append]
  · intro sid
    rw [netIn, InMemoryStore.getGroupTransactions, netQuantities_sortOn, hmem.netQuantities_eq,
      InMemoryStore.getGroupTransactions, netIn, netQuantities_sortOn_append]

/-- The book of any other group. -/
theorem other_book (h : LateSettlement s account pk sid r) {k k' : ℕ} (hne : k' ≠ k) :
    SameBook (((imported s account r).attached [r.ttTransactionId] k).getGroupTransactions k')
      (s.getGroupTransactions k') := by
  have hmem := (ungrouped_imported h).members_attached_of_ne hne
  rw [List.map_singleton] at hmem
  rw [InMemoryStore.getGroupTransactions, hmem, ← InMemoryStore.getGroupTransactions,
    getGroupTransactions_imported h]
  exact sameBook_linkRow s account _

/-! ## When it is a no-op -/

/-- With the same group rows, as many groups are open. -/
theorem length_openGroupsOf_congr {s' : InMemoryStore}
    (hg : ∀ k, s'.getTradeGroupById k = s.getTradeGroupById k) (account : String) :
    (openGroupsOf s' account).length = (openGroupsOf s account).length := by
  have hmem : ∀ k, k ∈ (openGroupsOf s' account).map OpenGroup.pk ↔
      k ∈ (openGroupsOf s account).map OpenGroup.pk := by
    intro k
    simp only [mem_pks_openGroupsOf, hg]
  have hperm := (List.perm_ext_iff_of_nodup (nodup_openGroupsOf s' account)
    (nodup_openGroupsOf s account)).mpr hmem
  simpa using hperm.length_eq

/-- A pass that writes no group's row and leaves the open groups unclosed is a no-op for a group
whose nets it keeps. -/
theorem noOpFor_of_frame {f : InMemoryStore}
    (hg : ∀ k, f.getTradeGroupById k = s.getTradeGroupById k)
    (hopen : ∀ g ∈ openGroupsOf s account, fullyClosed (f.getGroupTransactions g.pk) = false)
    (hnets : ∀ sid, netIn (f.getGroupTransactions pk) sid =
      netIn (s.getGroupTransactions pk) sid) :
    NoOpFor s account pk (healed f account false) := by
  have hclosed : closedOpenGroups f account = [] := by
    rw [List.eq_nil_iff_forall_not_mem]
    intro g hmem
    obtain ⟨hg', hc⟩ := (mem_closedOpenGroups _ _).mp hmem
    obtain ⟨⟨tg, htg, hacc, hst⟩, hrows⟩ := (mem_openGroupsOf _).mp hg'
    have hold : (⟨g.pk, s.getGroupTransactions g.pk⟩ : OpenGroup) ∈ openGroupsOf s account :=
      (mem_openGroupsOf _).mpr ⟨⟨tg, (hg g.pk).symm.trans htg, hacc, hst⟩, rfl⟩
    rw [hrows, hopen _ hold] at hc
    cases hc
  have hheal : healed f account false = f := by
    rw [healed, hclosed]
    rfl
  rw [hheal]
  exact
    { groups := fun k => by rw [hg]
      status := by rw [hg]
      realized := by rw [hg]
      nets := hnets
      openGroups := length_openGroupsOf_congr hg account }

/-- The heal opens no group and stores none. -/
theorem getTradeGroupById_healed (f : InMemoryStore) (k : ℕ) :
    ((healed f account false).getTradeGroupById k).isSome = (f.getTradeGroupById k).isSome ∧
      ∀ tg, (healed f account false).getTradeGroupById k = some tg → tg.status = .open →
        f.getTradeGroupById k = some tg := by
  show (((closedOpenGroups f account).foldl healStep f).getTradeGroupById k).isSome = _ ∧ ∀ tg,
    ((closedOpenGroups f account).foldl healStep f).getTradeGroupById k = some tg → _
  rcases getTradeGroupById_healSteps f (nodup_closedOpenGroups f account) k with
    ⟨-, heq⟩ | ⟨g, -, -, heq⟩
  · rw [heq]
    exact ⟨rfl, fun tg htg _ => htg⟩
  · rw [heq]
    refine ⟨Option.isSome_map, fun tg htg hst => ?_⟩
    obtain ⟨tg', -, rfl⟩ := Option.map_eq_some_iff.mp htg
    exact absurd hst (closedStatus_ne_open _)

/-- A row nobody takes opens a group. -/
theorem not_noOpFor_of_created (events : List EventRow) :
    ¬NoOpFor s account pk
      (healed ((createState (imported s account r) account [r]).addEvents events) account
        false) := by
  intro hno
  have hnew := hno.groups s.tradeGroups.nextId
  have hbefore : s.getTradeGroupById s.tradeGroups.nextId = none :=
    Table.get_eq_none_of_le (le_refl _)
  rw [hbefore, (getTradeGroupById_healed _ _).1,
    InMemoryStore.getTradeGroupById_congr (InMemoryStore.tradeGroups_addEvents _ _),
    getTradeGroupById_createState, tradeGroups_imported, if_pos rfl] at hnew
  cases hnew

section Taken

variable {g : OpenGroup} (deliveryPk : Option ℕ) (events : List EventRow)

/-- The state after an open group has taken the row. -/
def takenState (s : InMemoryStore) (account : String) (r : TxnRow) (g : OpenGroup)
    (deliveryPk : Option ℕ) (events : List EventRow) : InMemoryStore :=
  (exitState (imported s account r) (linkGroup s account g) [r] none deliveryPk).addEvents events

theorem getGroupTransactions_takenState (k : ℕ) :
    (takenState s account r g deliveryPk events).getGroupTransactions k =
      ((imported s account r).attached [r.ttTransactionId] g.pk).getGroupTransactions k := by
  apply getGroupTransactions_congr
  rw [takenState, InMemoryStore.transactions_addEvents, transactions_exitState]
  rfl

/-- The row of the group that takes the row: stamped when the row closes it. -/
theorem getTradeGroupById_takenState (h : LateSettlement s account pk sid r)
    (hg : g ∈ openGroupsOf s account) (k : ℕ) :
    ∃ stamped : TradeGroupRow → TradeGroupRow, (∀ tg, (stamped tg).status ≠ .open) ∧
      (takenState s account r g deliveryPk events).getTradeGroupById k =
        if k = g.pk ∧ fullyClosed (g.rows ++ [r]) = true then (s.getTradeGroupById k).map stamped
        else s.getTradeGroupById k := by
  have hrows : (linkGroup s account g).rows = (imported s account r).getGroupTransactions g.pk := by
    rw [getGroupTransactions_imported h, ← ((mem_openGroupsOf s).mp hg).2]
    rfl
  have hnew : (linkGroup s account g).newRows [r] = [r] := by
    unfold OpenGroup.newRows
    rw [List.filter_eq_self]
    intro r' hr'
    obtain rfl := List.mem_singleton.mp hr'
    simp only [decide_eq_true_eq]
    intro hmem
    obtain ⟨m, hm, hid⟩ := List.mem_map.mp hmem
    rw [hrows, InMemoryStore.mem_getGroupTransactions] at hm
    exact (ungrouped_imported h).notMem_members m hm (by rw [hid]; simp)
  have hbook : SameBook ((linkGroup s account g).extendUnique [r]).rows (g.rows ++ [r]) := by
    rw [OpenGroup.extendUnique, hnew]
    exact (sameBook_linkRow s account g.rows).append [r]
  refine ⟨fun tg => stamp tg ((linkGroup s account g).extendUnique [r]).rows (lastExecutedAt [r])
    (realizedOf (imported s account r).getSecurity ((linkGroup s account g).extendUnique [r]).rows),
    fun tg => closedStatus_ne_open _, ?_⟩
  rw [takenState, InMemoryStore.getTradeGroupById_congr (InMemoryStore.tradeGroups_addEvents _ _),
    getTradeGroupById_exitState, hnew, hbook.fullyClosed_eq, getTradeGroupById_imported]
  simp only [ne_eq, List.cons_ne_nil, not_false_eq_true, true_and]
  rfl

/-- A row that closes the group that takes it leaves fewer groups open. -/
theorem not_noOpFor_of_closed (h : LateSettlement s account pk sid r)
    (hg : g ∈ openGroupsOf s account) (hc : fullyClosed (g.rows ++ [r]) = true) :
    ¬NoOpFor s account pk
      (healed (takenState s account r g deliveryPk events) account false) := by
  intro hno
  -- the keys of the groups open afterwards, all of which were open before
  have hafter : ∀ k, k ∈ (openGroupsOf (healed (takenState s account r g deliveryPk events)
      account false) account).map OpenGroup.pk →
      k ≠ g.pk ∧ k ∈ (openGroupsOf s account).map OpenGroup.pk := by
    intro k hk
    obtain ⟨tg, htg, hacc, hst⟩ := (mem_pks_openGroupsOf _).mp hk
    have hbefore := (getTradeGroupById_healed _ k).2 tg htg hst
    obtain ⟨stamped, hstamped, heq⟩ := getTradeGroupById_takenState
      deliveryPk events h hg k
    rw [heq] at hbefore
    by_cases hk : k = g.pk
    · rw [if_pos ⟨hk, hc⟩] at hbefore
      obtain ⟨tg', -, rfl⟩ := Option.map_eq_some_iff.mp hbefore
      exact absurd hst (hstamped tg')
    · rw [if_neg fun hand => hk hand.1] at hbefore
      exact ⟨hk, (mem_pks_openGroupsOf _).mpr ⟨tg, hbefore, hacc, hst⟩⟩
  have hnodup : (g.pk :: (openGroupsOf (healed (takenState s account r g deliveryPk events)
      account false) account).map OpenGroup.pk).Nodup :=
    List.nodup_cons.mpr ⟨fun hmem => (hafter _ hmem).1 rfl, nodup_openGroupsOf _ _⟩
  have hsubset : (g.pk :: (openGroupsOf (healed (takenState s account r g deliveryPk events)
      account false) account).map OpenGroup.pk) ⊆ (openGroupsOf s account).map OpenGroup.pk := by
    intro k hk
    rcases List.mem_cons.mp hk with rfl | hk
    · exact List.mem_map_of_mem hg
    · exact (hafter k hk).2
  have hlen := (List.subperm_of_subset hnodup hsubset).length_le
  have hsame := hno.openGroups
  simp only [List.length_cons, List.length_map] at hlen
  omega

/-- A row that leaves the group that takes it open is a no-op, for that group when its nets are the
same with the row. -/
theorem noOpFor_takenState_iff (h : LateSettlement s account pk sid r)
    (hrest : AtRest s account args r) (hg : g ∈ openGroupsOf s account)
    (hc : fullyClosed (g.rows ++ [r]) = false) :
    NoOpFor s account pk (healed (takenState s account r g deliveryPk events) account false) ↔
      (g.pk = pk → ∀ sid, netIn (g.rows ++ [r]) sid = netIn g.rows sid) := by
  have hrows := ((mem_openGroupsOf s).mp hg).2
  have htaken := taken_book h g.pk
  rw [← hrows] at htaken
  constructor
  · rintro hno rfl sid
    have hnets := hno.nets sid
    rw [getGroupTransactions_congr (transactions_healed _ _ _), getGroupTransactions_takenState,
      htaken.2, ← hrows] at hnets
    exact hnets
  · intro hnets
    refine noOpFor_of_frame ?_ ?_ ?_
    · intro k
      obtain ⟨stamped, -, heq⟩ := getTradeGroupById_takenState
        deliveryPk events h hg k
      rw [heq, if_neg (by simp [hc])]
    · intro g' hg'
      rw [getGroupTransactions_takenState]
      by_cases hpk : g'.pk = g.pk
      · rw [hpk, htaken.1, hc]
      · rw [(other_book h hpk).fullyClosed_eq, ← ((mem_openGroupsOf s).mp hg').2]
        exact hrest.unclosed g' hg'
    · intro sid
      rw [getGroupTransactions_takenState]
      by_cases hpk : g.pk = pk
      · rw [← hpk, htaken.2, hnets hpk, ← hrows]
      · exact (other_book h (Ne.symm hpk)).netIn_eq sid

end Taken

/-- **A late settlement is a no-op if and only if an open group absorbs it**: some open group
takes it, stays open with it and, if it is the settled group itself, has the same nets. -/
theorem late_settlement_iff (hdry : args.dryRun = false) (h : LateSettlement s account pk sid r)
    (hrest : AtRest s account args r) :
    NoOpFor s account pk (exec (reconcile (some account) args) (s.upsertTransaction r)).2 ↔
      Absorbed s account args pk r := by
  obtain ⟨events, hrun⟩ := reconcile_imported hdry hrest
  rcases routeLoop_imported hdry h hrest with ⟨hrange, hloop⟩ | ⟨hrange, g, de, htaker, hloop⟩ |
    ⟨hrange, htaker, hloop⟩
  · -- the pass does not look at the row
    refine iff_of_true ?_ (Or.inl hrange)
    rw [hrun, hloop]
    have hrows : ∀ k, SameBook
        (((imported s account r).addEvents events).getGroupTransactions k)
        (s.getGroupTransactions k) := by
      intro k
      rw [getGroupTransactions_congr (InMemoryStore.transactions_addEvents _ _),
        getGroupTransactions_imported h]
      exact sameBook_linkRow s account _
    refine noOpFor_of_frame ?_ ?_ fun sid => (hrows pk).netIn_eq sid
    · exact InMemoryStore.getTradeGroupById_congr (by simp)
    · intro g hg
      rw [(hrows g.pk).fullyClosed_eq, ← ((mem_openGroupsOf s).mp hg).2]
      exact hrest.unclosed g hg
  · -- an open group takes the row
    have hg : g ∈ openGroupsOf s account :=
      mem_of_routeRow _ (by rw [List.map_map]; exact List.map_id _) htaker
    have habsorbed : Absorbed s account args pk r ↔ fullyClosed (g.rows ++ [r]) = false ∧
        (g.pk = pk → ∀ sid, netIn (g.rows ++ [r]) sid = netIn g.rows sid) := by
      simp [Absorbed, hrange, htaker]
    rw [hrun, hloop, habsorbed]
    cases hc : fullyClosed (g.rows ++ [r]) with
    | true =>
      exact iff_of_false (not_noOpFor_of_closed de events h hg hc) fun hand => by cases hand.1
    | false =>
      rw [and_iff_right rfl]
      exact noOpFor_takenState_iff de events h hrest hg hc
  · -- no group takes the row: it opens one
    rw [hrun, hloop]
    refine iff_of_false (not_noOpFor_of_created events) ?_
    simp [Absorbed, hrange, htaker]

end Imported

/-! ## Late settlements of a closed and of an open group -/

/-- The ledger of one order's fills in X, which expired on day 0, and perhaps other contracts,
after the passes that group the order and settle X. -/
def settledLedger (fills : List TxnRow) : InMemoryStore :=
  let s := InMemoryStore.seeded
    [{ securityId := "X", productType := "E", expiry := some 0 },
      { securityId := "Y", productType := "E" }]
    [.placed "A" "o1", .placed "A" "o2"]
    (fills ++ [.fill "A" "t9" "o2" "Buy to Open" "Y" 1 (10 * day)])
  let s := (exec (reconcile (some "A") {}) s).2
  (exec (reconcile (some "A") {}) s).2

/-- The lapse closed the group. -/
def closedByLapse : InMemoryStore := settledLedger [.fill "A" "t1" "o1" "Buy to Open" "X" 1 0]

/-- The lapse settled one leg of two. -/
def openAfterLapse : InMemoryStore :=
  settledLedger [.fill "A" "t1" "o1" "Buy to Open" "X" 1 0,
    .fill "A" "t2" "o1" "Buy to Open" "Y" 1 0]

/-- The settlement row the broker sends after all. -/
def lateExpiration : TxnRow where
  ttTransactionId := "rd1"
  account := "A"
  transactionType := some "Receive Deliver"
  transactionSubType := some "Expiration"
  securityId := some "X"
  quantity := some 1
  netValue := some 0
  executedAt := some (lapsedAt 0)

theorem lateSettlement_openAfterLapse :
    LateSettlement openAfterLapse "A" 1 "X" lateExpiration where
  settled := by decide +kernel
  netted := by decide +kernel
  contract := rfl
  own := rfl
  settles := rfl
  fresh := by decide +kernel
  ungrouped := rfl
  unordered := ⟨rfl, rfl⟩

theorem atRest_openAfterLapse : AtRest openAfterLapse "A" {} lateExpiration where
  candidates := List.isEmpty_iff.mp (by decide +kernel)
  lapses := by decide +kernel
  closed := by decide +kernel

/-- The group with a leg left takes the row. -/
theorem late_settlement_openAfterLapse :
    NoOpFor openAfterLapse "A" 1
        (exec (reconcile (some "A") {}) (openAfterLapse.upsertTransaction lateExpiration)).2 ↔
      Absorbed openAfterLapse "A" {} 1 lateExpiration :=
  late_settlement_iff rfl lateSettlement_openAfterLapse atRest_openAfterLapse

theorem lateSettlement_closedByLapse :
    LateSettlement closedByLapse "A" 1 "X" lateExpiration where
  settled := by decide +kernel
  netted := by decide +kernel
  contract := rfl
  own := rfl
  settles := rfl
  fresh := by decide +kernel
  ungrouped := rfl
  unordered := ⟨rfl, rfl⟩

theorem atRest_closedByLapse : AtRest closedByLapse "A" {} lateExpiration where
  candidates := List.isEmpty_iff.mp (by decide +kernel)
  lapses := by decide +kernel
  closed := by decide +kernel

/-- With its group closed, the row opens a group of its own. -/
theorem late_settlement_not_noop :
    LateSettlement closedByLapse "A" 1 "X" lateExpiration ∧
      AtRest closedByLapse "A" {} lateExpiration ∧
      ¬NoOpFor closedByLapse "A" 1
        (exec (reconcile (some "A") {}) (closedByLapse.upsertTransaction lateExpiration)).2 := by
  refine ⟨lateSettlement_closedByLapse, atRest_closedByLapse, fun h => ?_⟩
  have hbefore : (openGroupsOf closedByLapse "A").length = 1 := by decide +kernel
  have hafter : (openGroupsOf (exec (reconcile (some "A") {})
      (closedByLapse.upsertTransaction lateExpiration)).2 "A").length = 2 := by decide +kernel
  have hsame := h.openGroups
  omega

end TtLedger
