import TtLedger.Ingest.PassRuns

/-!
# Frames

Which tables the steps of a pass leave alone, one lemma for each step and table. A pass changes
transactions by upserting settlement rows and by attaching rows to groups only; a stamp, a
refresh and a new group change one row of the trade groups (`getTradeGroupById_stamped`,
`getTradeGroupById_groupWritten`), and nothing changes the securities.
-/

namespace TtLedger

namespace InMemoryStore

variable (s : InMemoryStore)

/-! ## Events -/

theorem addEvents_cons (event : EventRow) (events : List EventRow) :
    s.addEvents (event :: events) = (s.addTradeGroupEvent event).addEvents events := rfl

section Events

variable (events : List EventRow)

@[simp] theorem transactions_addEvents : (s.addEvents events).transactions = s.transactions := by
  induction events generalizing s with
  | nil => rfl
  | cons event events ih => exact ih (s.addTradeGroupEvent event)

@[simp] theorem tradeGroups_addEvents : (s.addEvents events).tradeGroups = s.tradeGroups := by
  induction events generalizing s with
  | nil => rfl
  | cons event events ih => exact ih (s.addTradeGroupEvent event)

@[simp] theorem securities_addEvents : (s.addEvents events).securities = s.securities := by
  induction events generalizing s with
  | nil => rfl
  | cons event events ih => exact ih (s.addTradeGroupEvent event)

@[simp] theorem orders_addEvents : (s.addEvents events).orders = s.orders := by
  induction events generalizing s with
  | nil => rfl
  | cons event events ih => exact ih (s.addTradeGroupEvent event)

end Events

@[simp] theorem transactions_addTradeGroupEvent (event : EventRow) :
    (s.addTradeGroupEvent event).transactions = s.transactions := rfl

@[simp] theorem tradeGroups_addTradeGroupEvent (event : EventRow) :
    (s.addTradeGroupEvent event).tradeGroups = s.tradeGroups := rfl

@[simp] theorem securities_addTradeGroupEvent (event : EventRow) :
    (s.addTradeGroupEvent event).securities = s.securities := rfl

@[simp] theorem orders_addTradeGroupEvent (event : EventRow) :
    (s.addTradeGroupEvent event).orders = s.orders := rfl

/-! ## Orders -/

section Orders

variable (rows : List OrderRow)

/-- Upserting orders, one row at a time. -/
theorem upsertOrders_eq (ids : List ℕ) :
    ∃ orders ids', rows.foldl (fun r row => let u := upsertOrder r.2 row; (r.1 ++ [u.1], u.2))
      (ids, s) = (ids', { s with orders }) := by
  induction rows generalizing s ids with
  | nil => exact ⟨s.orders, ids, rfl⟩
  | cons row rows ih =>
    obtain ⟨orders, ids', h⟩ := ih (upsertOrder s row).2 (ids ++ [(upsertOrder s row).1])
    exact ⟨orders, ids', h⟩

/-- What holds of a store and is kept by the upsert of each row holds after all of them. -/
theorem upsertOrders_induction {P : InMemoryStore → Prop} (h : P s)
    (step : ∀ row ∈ rows, ∀ s', P s' → P (upsertOrder s' row).2) : P (s.upsertOrders rows).2 := by
  have hall : ∀ (rows : List OrderRow) (ids : List ℕ) (s : InMemoryStore), P s →
      (∀ row ∈ rows, ∀ s', P s' → P (upsertOrder s' row).2) →
      P (rows.foldl (fun r row => let u := upsertOrder r.2 row; (r.1 ++ [u.1], u.2))
        (ids, s)).2 := by
    intro rows
    induction rows with
    | nil => exact fun _ s h _ => h
    | cons row rows ih =>
      intro ids s h step
      exact ih _ _ (step row (by simp) s h) fun row' hrow' => step row' (.tail _ hrow')
  exact hall rows [] s h step

theorem upsertOrders_frame : ∃ orders, (s.upsertOrders rows).2 = { s with orders } := by
  obtain ⟨orders, ids', h⟩ := s.upsertOrders_eq rows []
  exact ⟨orders, congrArg Prod.snd h⟩

@[simp] theorem transactions_upsertOrders :
    (s.upsertOrders rows).2.transactions = s.transactions := by
  obtain ⟨orders, h⟩ := s.upsertOrders_frame rows
  rw [h]

@[simp] theorem tradeGroups_upsertOrders : (s.upsertOrders rows).2.tradeGroups = s.tradeGroups := by
  obtain ⟨orders, h⟩ := s.upsertOrders_frame rows
  rw [h]

@[simp] theorem securities_upsertOrders : (s.upsertOrders rows).2.securities = s.securities := by
  obtain ⟨orders, h⟩ := s.upsertOrders_frame rows
  rw [h]

@[simp] theorem events_upsertOrders : (s.upsertOrders rows).2.events = s.events := by
  obtain ⟨orders, h⟩ := s.upsertOrders_frame rows
  rw [h]

end Orders

/-! ## Attaches and transactions -/

section Attach

variable (ids : List String) (pk : ℕ)

@[simp] theorem attached_nil : s.attached [] pk = s := by
  have h := Table.modify_id s.transactions
    (fun txn => if txn.ttTransactionId ∈ ([] : List String) then
      { txn with tradeGroupId := some pk } else txn)
    (fun txn => by split <;> rfl) (fun r _ => by simp)
  show { s with transactions := _ } = s
  rw [h]

@[simp] theorem tradeGroups_attached : (s.attached ids pk).tradeGroups = s.tradeGroups := rfl

@[simp] theorem securities_attached : (s.attached ids pk).securities = s.securities := rfl

@[simp] theorem orders_attached : (s.attached ids pk).orders = s.orders := rfl

@[simp] theorem events_attached : (s.attached ids pk).events = s.events := rfl

end Attach

section Upsert

variable (rows : List TxnRow)

theorem upsertTransactions_frame :
    ∃ transactions, s.upsertTransactions rows = { s with transactions } := by
  unfold upsertTransactions
  induction rows generalizing s with
  | nil => exact ⟨s.transactions, rfl⟩
  | cons row rows ih =>
    obtain ⟨transactions, h⟩ := ih (s.upsertTransaction row)
    exact ⟨transactions, h⟩

@[simp] theorem tradeGroups_upsertTransactions :
    (s.upsertTransactions rows).tradeGroups = s.tradeGroups := by
  obtain ⟨transactions, h⟩ := s.upsertTransactions_frame rows
  rw [h]

@[simp] theorem securities_upsertTransactions :
    (s.upsertTransactions rows).securities = s.securities := by
  obtain ⟨transactions, h⟩ := s.upsertTransactions_frame rows
  rw [h]

@[simp] theorem orders_upsertTransactions : (s.upsertTransactions rows).orders = s.orders := by
  obtain ⟨transactions, h⟩ := s.upsertTransactions_frame rows
  rw [h]

@[simp] theorem events_upsertTransactions : (s.upsertTransactions rows).events = s.events := by
  obtain ⟨transactions, h⟩ := s.upsertTransactions_frame rows
  rw [h]

end Upsert

/-! ## Groups -/

section Groups

variable (tg : TradeGroupRow) (group : OpenGroup) (closedAt : Option Datetime)

@[simp] theorem transactions_putGroup : (s.putGroup tg).transactions = s.transactions := rfl

@[simp] theorem securities_putGroup : (s.putGroup tg).securities = s.securities := rfl

@[simp] theorem orders_putGroup : (s.putGroup tg).orders = s.orders := rfl

@[simp] theorem events_putGroup : (s.putGroup tg).events = s.events := rfl

/-- A stamp is the upsert of one group, or nothing. -/
theorem stamped_frame : ∃ tradeGroups, s.stamped group closedAt = { s with tradeGroups } := by
  unfold stamped
  split
  · exact ⟨s.tradeGroups, rfl⟩
  · exact ⟨_, rfl⟩

/-- A refresh is the upsert of one group, or nothing. -/
theorem refreshedGroup_frame : ∃ tradeGroups, s.refreshedGroup group = { s with tradeGroups } := by
  unfold refreshedGroup
  split
  · exact ⟨s.tradeGroups, rfl⟩
  · exact ⟨_, rfl⟩

@[simp] theorem transactions_stamped :
    (s.stamped group closedAt).transactions = s.transactions := by
  obtain ⟨tradeGroups, h⟩ := s.stamped_frame group closedAt
  rw [h]

@[simp] theorem securities_stamped : (s.stamped group closedAt).securities = s.securities := by
  obtain ⟨tradeGroups, h⟩ := s.stamped_frame group closedAt
  rw [h]

@[simp] theorem orders_stamped : (s.stamped group closedAt).orders = s.orders := by
  obtain ⟨tradeGroups, h⟩ := s.stamped_frame group closedAt
  rw [h]

@[simp] theorem events_stamped : (s.stamped group closedAt).events = s.events := by
  obtain ⟨tradeGroups, h⟩ := s.stamped_frame group closedAt
  rw [h]

@[simp] theorem transactions_refreshedGroup :
    (s.refreshedGroup group).transactions = s.transactions := by
  obtain ⟨tradeGroups, h⟩ := s.refreshedGroup_frame group
  rw [h]

@[simp] theorem securities_refreshedGroup : (s.refreshedGroup group).securities = s.securities := by
  obtain ⟨tradeGroups, h⟩ := s.refreshedGroup_frame group
  rw [h]

@[simp] theorem orders_refreshedGroup : (s.refreshedGroup group).orders = s.orders := by
  obtain ⟨tradeGroups, h⟩ := s.refreshedGroup_frame group
  rw [h]

@[simp] theorem events_refreshedGroup : (s.refreshedGroup group).events = s.events := by
  obtain ⟨tradeGroups, h⟩ := s.refreshedGroup_frame group
  rw [h]

end Groups

/-! ## The row of one group -/

theorem getTradeGroupById_congr {s s' : InMemoryStore} (h : s'.tradeGroups = s.tradeGroups)
    (pk : ℕ) : s'.getTradeGroupById pk = s.getTradeGroupById pk := by
  rw [getTradeGroupById, h, getTradeGroupById]

/-- Writing what a group has become changes its row only. -/
theorem getTradeGroupById_putGroup {pk : ℕ} {tg row : TradeGroupRow}
    (h : s.getTradeGroupById pk = some tg) (hid : row.groupId = tg.groupId) (pk' : ℕ) :
    (s.putGroup row).getTradeGroupById pk' =
      if pk' = pk then some row else s.getTradeGroupById pk' := by
  have hk : row.key = tg.key := by rw [TradeGroupRow.key, hid]
  have hs : tg.key.isSome := rfl
  rw [getTradeGroupById, putGroup, upsertTradeGroup]
  simp only [Table.upsert_of_get h hk hs]
  exact Table.get_overwrite h hk hs pk'

@[simp] theorem groupId_stamp (tg : TradeGroupRow) (rows : List TxnRow)
    (closedAt : Option Datetime) (realized : ℚ) :
    (stamp tg rows closedAt realized).groupId = tg.groupId := rfl

@[simp] theorem groupId_refreshed (tg : TradeGroupRow) (fields : GroupFields) :
    (refreshed tg fields).groupId = tg.groupId := rfl

/-- A stamp changes the row of its group only. -/
theorem getTradeGroupById_stamped (group : OpenGroup) (closedAt : Option Datetime) (pk : ℕ) :
    (s.stamped group closedAt).getTradeGroupById pk =
      if pk = group.pk then
        (s.getTradeGroupById pk).map fun tg =>
          stamp tg group.rows closedAt (realizedOf s.getSecurity group.rows)
      else s.getTradeGroupById pk := by
  unfold stamped
  cases htg : s.getTradeGroupById group.pk with
  | none =>
    by_cases hpk : pk = group.pk
    · rw [if_pos hpk, hpk, htg, Option.map_none]
    · rw [if_neg hpk]
  | some tg =>
    simp only []
    rw [s.getTradeGroupById_putGroup htg (groupId_stamp _ _ _ _) pk]
    by_cases hpk : pk = group.pk
    · rw [if_pos hpk, if_pos hpk, hpk, htg, Option.map_some]
    · rw [if_neg hpk, if_neg hpk]

/-- A refresh changes the row of its group only. -/
theorem getTradeGroupById_refreshedGroup (group : OpenGroup) (pk : ℕ) :
    (s.refreshedGroup group).getTradeGroupById pk =
      if pk = group.pk then
        (s.getTradeGroupById pk).map fun tg => refreshed tg (fieldsOf s.getSecurity group.rows)
      else s.getTradeGroupById pk := by
  unfold refreshedGroup
  cases htg : s.getTradeGroupById group.pk with
  | none =>
    by_cases hpk : pk = group.pk
    · rw [if_pos hpk, hpk, htg, Option.map_none]
    · rw [if_neg hpk]
  | some tg =>
    simp only []
    rw [s.getTradeGroupById_putGroup htg (groupId_refreshed _ _) pk]
    by_cases hpk : pk = group.pk
    · rw [if_pos hpk, if_pos hpk, hpk, htg, Option.map_some]
    · rw [if_neg hpk, if_neg hpk]

end InMemoryStore

/-! ## Exits and intents -/

variable (s : InMemoryStore)

section Exits

variable (group : OpenGroup) (rows : List TxnRow) (rolledToPk deliveryPk : Option ℕ)

@[simp] theorem transactions_exitState :
    (exitState s group rows rolledToPk deliveryPk).transactions =
      (s.attached (rows.map TxnRow.ttTransactionId) group.pk).transactions := by
  unfold exitState
  simp only []
  split
  · rfl
  · split <;> simp

@[simp] theorem securities_exitState :
    (exitState s group rows rolledToPk deliveryPk).securities = s.securities := by
  unfold exitState
  simp only []
  split
  · rfl
  · split <;> simp

@[simp] theorem orders_exitState :
    (exitState s group rows rolledToPk deliveryPk).orders = s.orders := by
  unfold exitState
  simp only []
  split
  · rfl
  · split <;> simp

/-- The row of a group after an exit: stamped when the exit closes that group. -/
theorem getTradeGroupById_exitState (pk : ℕ) :
    (exitState s group rows rolledToPk deliveryPk).getTradeGroupById pk =
      if pk = group.pk ∧ group.newRows rows ≠ [] ∧
          fullyClosed (group.extendUnique rows).rows = true then
        (s.getTradeGroupById pk).map fun tg =>
          stamp tg (group.extendUnique rows).rows (lastExecutedAt (group.newRows rows))
            (realizedOf s.getSecurity (group.extendUnique rows).rows)
      else s.getTradeGroupById pk := by
  unfold exitState
  simp only [List.isEmpty_iff]
  by_cases hnew : group.newRows rows = []
  · rw [if_pos hnew, if_neg (by simp [hnew])]
    exact InMemoryStore.getTradeGroupById_congr rfl pk
  · rw [if_neg hnew]
    by_cases hclosed : fullyClosed (group.extendUnique rows).rows = true
    · rw [if_pos hclosed, InMemoryStore.getTradeGroupById_stamped]
      have hcongr : ∀ events, ((s.attached (rows.map TxnRow.ttTransactionId) group.pk).addEvents
          events).getTradeGroupById pk = s.getTradeGroupById pk :=
        fun events => InMemoryStore.getTradeGroupById_congr (by simp) pk
      have hsec : ∀ events, ((s.attached (rows.map TxnRow.ttTransactionId) group.pk).addEvents
          events).getSecurity = s.getSecurity := by
        intro events
        funext sid
        rw [InMemoryStore.getSecurity, InMemoryStore.securities_addEvents]
        rfl
      simp only [hcongr, hsec, OpenGroup.pk_extendUnique, hnew, hclosed, ne_eq, not_false_eq_true,
        and_true]
    · rw [if_neg hclosed, if_neg (by simp [hclosed])]
      exact InMemoryStore.getTradeGroupById_congr (by simp) pk

@[simp] theorem transactions_intentExitState :
    (intentExitState s group rows).transactions =
      (s.attached (rows.map TxnRow.ttTransactionId) group.pk).transactions := by
  unfold intentExitState
  cases rows with
  | nil => simp
  | cons r rows => exact transactions_exitState s group (r :: rows) none none

@[simp] theorem securities_intentExitState :
    (intentExitState s group rows).securities = s.securities := by
  unfold intentExitState
  split
  · rfl
  · exact securities_exitState s group rows none none

@[simp] theorem orders_intentExitState : (intentExitState s group rows).orders = s.orders := by
  unfold intentExitState
  split
  · rfl
  · exact orders_exitState s group rows none none

@[simp] theorem orders_openingState : (openingState s group rows).orders = s.orders := by
  unfold openingState
  split
  · rfl
  · simp

@[simp] theorem transactions_openingState :
    (openingState s group rows).transactions =
      (s.attached (rows.map TxnRow.ttTransactionId) group.pk).transactions := by
  unfold openingState
  cases rows with
  | nil => simp
  | cons r rows => simp

@[simp] theorem securities_openingState :
    (openingState s group rows).securities = s.securities := by
  unfold openingState
  split
  · rfl
  · simp

end Exits

/-! ## New groups -/

section Create

variable (account : String) (cluster : List TxnRow)

/-- The length of the next identifier bounds those in use, and is the least to do so. -/
theorem length_freshGroupId_le {n : ℕ} : s.freshGroupId.length ≤ n ↔
    s.drawn < n ∧ ∀ tg ∈ s.tradeGroups.values, tg.groupId.length < n := by
  have hfold : ∀ (l : List TradeGroupRow) (m : ℕ),
      l.foldl (fun n tg => max n tg.groupId.length) m < n ↔
        m < n ∧ ∀ tg ∈ l, tg.groupId.length < n := by
    intro l
    induction l with
    | nil => simp
    | cons tg l ih =>
      intro m
      rw [List.foldl_cons, ih, max_lt_iff, and_assoc, List.forall_mem_cons]
  rw [InMemoryStore.freshGroupId, String.length_ofList, List.length_replicate, Nat.succ_le_iff,
    hfold]

theorem length_lt_freshGroupId {tg : TradeGroupRow} (h : tg ∈ s.tradeGroups.values) :
    tg.groupId.length < s.freshGroupId.length :=
  ((length_freshGroupId_le s).mp (Nat.le_refl _)).2 tg h

/-- The identifier drawn for a new group is no stored group's. -/
theorem freshGroupId_idOf : s.tradeGroups.idOf s.freshGroupId = none := by
  rw [Table.idOf_eq_none]
  intro p hp hk
  have hlt := length_lt_freshGroupId s (List.mem_map.mpr ⟨p, hp, rfl⟩)
  rw [Option.some.inj hk] at hlt
  exact Nat.lt_irrefl _ hlt

theorem upsertTradeGroup_fresh (row : TradeGroupRow) (h : row.groupId = s.freshGroupId) :
    (row.key).bind s.uuid4.2.tradeGroups.idOf = none := by
  rw [TradeGroupRow.key, h, Option.bind_some]
  exact freshGroupId_idOf s

theorem newPk_eq : newPk s account cluster = s.tradeGroups.nextId :=
  (Table.upsert_of_new _ _ (upsertTradeGroup_fresh s _ rfl)).1

/-- Writing a new group adds its row. -/
theorem getTradeGroupById_groupWritten (pk : ℕ) :
    (groupWritten s account cluster).getTradeGroupById pk =
      if pk = s.tradeGroups.nextId then
        some (newGroupRow s.freshGroupId account (fieldsOf s.getSecurity cluster))
      else s.getTradeGroupById pk :=
  Table.get_upsert_of_new (upsertTradeGroup_fresh s _ rfl) pk

@[simp] theorem tradeGroups_createState :
    (createState s account cluster).tradeGroups = (groupWritten s account cluster).tradeGroups := by
  simp [createState, stampedOrders, groupAttached]

/-- Creating a group adds its row. -/
theorem getTradeGroupById_createState (pk : ℕ) :
    (createState s account cluster).getTradeGroupById pk =
      if pk = s.tradeGroups.nextId then
        some (newGroupRow s.freshGroupId account (fieldsOf s.getSecurity cluster))
      else s.getTradeGroupById pk := by
  rw [← getTradeGroupById_groupWritten]
  exact InMemoryStore.getTradeGroupById_congr (by simp) pk

@[simp] theorem transactions_createState :
    (createState s account cluster).transactions =
      (s.attached (cluster.map TxnRow.ttTransactionId) (newPk s account cluster)).transactions := by
  simp only [createState, stampedOrders, InMemoryStore.transactions_addTradeGroupEvent,
    InMemoryStore.transactions_upsertOrders]
  rfl

@[simp] theorem securities_createState :
    (createState s account cluster).securities = s.securities := by
  simp only [createState, stampedOrders, InMemoryStore.securities_addTradeGroupEvent,
    InMemoryStore.securities_upsertOrders]
  rfl

end Create

end TtLedger
