import TtLedger.Ingest.HealLaws

/-!
# Laws of a pass

The stages of an error-free pass over one account, with what each does to the transactions:
links, settlement rows due (`lapsedState`), the cluster loop over the candidates, events and the
heal (`PassRun`, `passRun`). What a pass reads of the state are its transactions, trade groups and
securities (`openGroupsOf_congr`).
-/

namespace TtLedger

variable (s : InMemoryStore) (account : String) (args : ReconcileArgs)

/-! ## Groups of transactions -/

/-- The group of a transaction. -/
def InMemoryStore.groupOf (id : String) : Option ℕ := (s.txn id).bind TxnRow.tradeGroupId

theorem groupOf_linked (id : String) : (linked s account).groupOf id = s.groupOf id := by
  rw [InMemoryStore.groupOf, txn_linked, InMemoryStore.groupOf]
  cases s.txn id with
  | none => rfl
  | some r => simp

theorem groupOf_congr {s s' : InMemoryStore} (h : s'.transactions = s.transactions) (id : String) :
    s'.groupOf id = s.groupOf id := by
  rw [InMemoryStore.groupOf, InMemoryStore.txn, h, InMemoryStore.groupOf, InMemoryStore.txn]

theorem Attaches.groupOf_of_notMem {s s' : InMemoryStore} {ids : List String}
    (h : Attaches ids s s') {id : String} (hid : id ∉ ids) : s'.groupOf id = s.groupOf id := by
  rw [InMemoryStore.groupOf, h.txn_of_notMem hid, InMemoryStore.groupOf]

/-- A transaction is a member of its group and of no other. -/
theorem mem_members_iff_groupOf {id : String} {pk : ℕ} :
    (∃ r ∈ s.members pk, r.ttTransactionId = id) ↔ s.groupOf id = some pk := by
  constructor
  · rintro ⟨r, hr, rfl⟩
    obtain ⟨hrt, hrg⟩ := s.mem_members.mp hr
    rw [InMemoryStore.groupOf, hrt, Option.bind_some, hrg]
  · intro h
    obtain ⟨r, hr, hg⟩ := Option.bind_eq_some_iff.mp h
    have hid := s.txn_key hr
    exact ⟨r, s.mem_members.mpr ⟨hid.symm ▸ hr, hg⟩, hid⟩

/-! ## Candidates -/

/-- What makes a transaction a candidate does not depend on its order's or its group's row. -/
def TxnRow.isUnrouted (t : TxnRow) : Bool :=
  t.tradeGroupId.isNone && (t.orderId.isSome || t.isNontradeClose || t.isDelivery)

theorem candidatesOf_eq :
    candidatesOf s account args =
      (s.transactions.values.filter fun t =>
        t.account = account && inRange t.executedAt args.since none && t.isUnrouted).map
          s.activityRow := by
  rw [candidatesOf, InMemoryStore.accountActivity, List.filter_map, List.filter_filter]
  congr 1
  refine List.filter_congr fun t _ => ?_
  rw [Bool.eq_iff_iff]
  simp only [Function.comp_apply, Option.all_some, Bool.false_and, Bool.not_false, Bool.and_true,
    Bool.and_eq_true]
  exact and_comm

theorem mem_candidatesOf {a : ActivityRow} :
    a ∈ candidatesOf s account args ↔
      ∃ t, s.txn t.ttTransactionId = some t ∧ t.account = account ∧
        inRange t.executedAt args.since none = true ∧ t.isUnrouted = true ∧
          a = s.activityRow t := by
  simp only [candidatesOf_eq, List.mem_map, List.mem_filter, InMemoryStore.mem_values_iff_txn,
    Bool.and_eq_true, decide_eq_true_eq, and_assoc, @eq_comm _ _ a]

theorem mem_idsOf_candidatesOf {id : String} :
    id ∈ idsOf (candidatesOf s account args) ↔
      ∃ t, s.txn id = some t ∧ t.account = account ∧
        inRange t.executedAt args.since none = true ∧ t.isUnrouted = true := by
  constructor
  · intro h
    obtain ⟨a, ha, rfl⟩ := List.mem_map.mp h
    obtain ⟨t, ht, hacc, hrange, hc, rfl⟩ := (mem_candidatesOf s account args).mp ha
    exact ⟨t, ht, hacc, hrange, hc⟩
  · rintro ⟨t, ht, hacc, hrange, hc⟩
    have hid := s.txn_key ht
    exact List.mem_map.mpr ⟨s.activityRow t, (mem_candidatesOf s account args).mpr
      ⟨t, hid.symm ▸ ht, hacc, hrange, hc, rfl⟩, hid⟩

theorem TxnRow.group_of_isUnrouted {t : TxnRow} (h : t.isUnrouted = true) :
    t.tradeGroupId = none := by
  rw [TxnRow.isUnrouted, Bool.and_eq_true] at h
  simpa using h.1

/-- A candidate has no group. -/
theorem groupOf_candidate {id : String} (h : id ∈ idsOf (candidatesOf s account args)) :
    s.groupOf id = none := by
  obtain ⟨t, ht, -, -, hc⟩ := (mem_idsOf_candidatesOf s account args).mp h
  rw [InMemoryStore.groupOf, ht, Option.bind_some, TxnRow.group_of_isUnrouted hc]

/-! ## What a pass reads -/

theorem openGroupsOf_congr {s s' : InMemoryStore} (ht : s'.transactions = s.transactions)
    (hg : s'.tradeGroups = s.tradeGroups) (account : String) :
    openGroupsOf s' account = openGroupsOf s account := by
  unfold openGroupsOf
  have htrades : ∀ f, s'.unifiedTrades f = s.unifiedTrades f := fun f => by
    rw [InMemoryStore.unifiedTrades, hg, InMemoryStore.unifiedTrades]
  have hid : ∀ k, s'.getTradeGroupId k = s.getTradeGroupId k := fun k => by
    rw [InMemoryStore.getTradeGroupId, hg, InMemoryStore.getTradeGroupId]
  simp only [htrades, hid, getGroupTransactions_congr ht]

/-! ## The stages of a pass -/

/-- A pass over one account that records no failure. -/
def ErrorFree : Prop :=
  ∃ r, (exec (reconcile (some account) args) s).1 = .ok r ∧ r.errors = []

theorem errorFree_iff :
    ErrorFree s account args ↔
      ∃ rows, lapseSettlements (linked s account) account args = .ok rows := by
  cases h : lapseSettlements (linked s account) account args with
  | error e =>
    rw [ErrorFree, exec_reconcile_error s h]
    simp
  | ok rows =>
    obtain ⟨events, s₂, -, -, hrun⟩ := exec_reconcileAccount s h
    rw [ErrorFree, exec_reconcile_ok s rfl rfl hrun]
    simp

/-- The stages of a pass that writes: the settlement rows due, the state they leave, the cluster
loop, the events of the rolls and the state before the heal. -/
structure PassRun (rows : List TxnRow) (loop : Pass × InMemoryStore) (events : List EventRow) :
    Prop where
  due : lapseSettlements (linked s account) account args = .ok rows
  routed : routeLoop (lapsedState s account args rows) account args = loop
  rolls : loop.1.exits = [] → events = []
  result : exec (reconcile (some account) args) s =
    (.ok
      { transactions := rows.length
        tradeGroups := loop.1.tradeGroups
        healedGroups := (closedOpenGroups (loop.2.addEvents events) account).length },
      healed (loop.2.addEvents events) account false)

theorem passRun (hdry : args.dryRun = false) (h : ErrorFree s account args) :
    ∃ rows loop events, PassRun s account args rows loop events := by
  obtain ⟨rows, hrows⟩ := (errorFree_iff s account args).mp h
  obtain ⟨events, s₂, rfl, hrolls, hrun⟩ := exec_reconcileAccount s hrows
  refine ⟨rows, _, events, hrows, rfl, fun hexits => hrolls (Or.inr hexits), ?_⟩
  rw [exec_reconcile_ok s rfl rfl hrun, hdry]

namespace PassRun

variable {s account args} {rows : List TxnRow} {loop : Pass × InMemoryStore}
  {events : List EventRow}

/-- The transactions after the lapse step. -/
theorem transactions_lapsedState (h : PassRun s account args rows loop events)
    (hdry : args.dryRun = false) :
    (lapsedState s account args rows).transactions =
      ((linked s account).upsertTransactions rows).transactions := by
  rw [lapsedState, hdry, transactions_lapsed _ h.due]

/-- The transactions after the pass. -/
theorem transactions_after (h : PassRun s account args rows loop events) :
    (exec (reconcile (some account) args) s).2.transactions = loop.2.transactions := by
  rw [h.result, transactions_healed, InMemoryStore.transactions_addEvents]

/-- From the lapse step to the end, the pass attaches the candidates and nothing else. -/
theorem attaches (h : PassRun s account args rows loop events) (hdry : args.dryRun = false) :
    Attaches (idsOf (candidatesOf (lapsedState s account args rows) account args))
      (lapsedState s account args rows) loop.2 := by
  rw [← h.routed]
  exact attaches_routeLoop _ account args hdry

theorem sameOrders (h : PassRun s account args rows loop events) (hdry : args.dryRun = false) :
    SameOrders (linked s account) (exec (reconcile (some account) args) s).2 := by
  have hlapse : SameOrders (linked s account) (lapsedState s account args rows) :=
    .of_eq (orders_lapsed _ _ _ _)
  have hroute : SameOrders (lapsedState s account args rows) loop.2 := by
    rw [← h.routed]
    exact sameOrders_routeLoop _ account args hdry
  refine (hlapse.trans hroute).trans (.of_eq ?_)
  rw [h.result, orders_healed, InMemoryStore.orders_addEvents]

/-- What follows the loop keeps the groups it left. -/
theorem isSome_after (h : PassRun s account args rows loop events) {pk : ℕ}
    (hsome : (loop.2.getTradeGroupById pk).isSome = true) :
    ((exec (reconcile (some account) args) s).2.getTradeGroupById pk).isSome = true := by
  have hevents : (loop.2.addEvents events).getTradeGroupById pk = loop.2.getTradeGroupById pk :=
    InMemoryStore.getTradeGroupById_congr (InMemoryStore.tradeGroups_addEvents _ _) pk
  rw [h.result]
  show (((closedOpenGroups (loop.2.addEvents events) account).foldl healStep
    (loop.2.addEvents events)).getTradeGroupById pk).isSome = true
  rcases getTradeGroupById_healSteps (loop.2.addEvents events)
      (nodup_closedOpenGroups _ account) pk with ⟨-, heq⟩ | ⟨g, -, -, heq⟩
  · rw [heq, hevents, hsome]
  · rw [heq, Option.isSome_map, hevents, hsome]

/-- Stored groups stay stored. -/
theorem keeps_group (h : PassRun s account args rows loop events) (hdry : args.dryRun = false)
    {pk : ℕ} (hpk : ((lapsedState s account args rows).getTradeGroupById pk).isSome = true) :
    ((exec (reconcile (some account) args) s).2.getTradeGroupById pk).isSome = true :=
  h.isSome_after ((h.attaches hdry).keeps pk hpk)

end PassRun

/-- The lapse step, with nothing to skip. -/
theorem lapsed_eq (rows : List TxnRow) :
    lapsed s account false rows =
      (openGroupsOf s account).foldl (lapseStep rows) (s.upsertTransactions rows) := by
  unfold lapsed
  split
  · rename_i hskip
    have hnil : rows = [] := by simpa using hskip
    subst hnil
    have hid : ∀ groups : List OpenGroup, groups.foldl (lapseStep []) s = s := by
      intro groups
      induction groups with
      | nil => rfl
      | cons g groups ih => exact ih
    exact (hid _).symm
  · rfl

/-- The lapse step keeps stored groups stored. -/
theorem isSome_getTradeGroupById_lapsedState (rows : List TxnRow) (pk : ℕ) :
    ((lapsedState s account args rows).getTradeGroupById pk).isSome =
      (s.getTradeGroupById pk).isSome := by
  have hsteps : ∀ (groups : List OpenGroup) (s : InMemoryStore),
      ((groups.foldl (lapseStep rows) s).getTradeGroupById pk).isSome =
        (s.getTradeGroupById pk).isSome := by
    intro groups
    induction groups with
    | nil => exact fun s => rfl
    | cons g groups ih =>
      intro s
      rw [List.foldl_cons, ih, getTradeGroupById_lapseStep]
      split
      · exact Option.isSome_map
      · rfl
  unfold lapsedState lapsed
  split
  · rfl
  · rw [hsteps, InMemoryStore.getTradeGroupById_congr
      (InMemoryStore.tradeGroups_upsertTransactions _ _)]
    rfl

end TtLedger
