import TtLedger.Ingest.Frames
import TtLedger.Ingest.TaskCalls

/-!
# Linkage never regresses

Once a transaction has an order, a leg or a group, or an order one of the host's columns, it keeps
one, whatever tasks run against the ledger and however their calls interleave and fail
(`linksKept_of_reaches`). Writers replace whole rows, often built from stale or partial copies; what
carries the links is the store: an upsert keeps those the row does not set, the link steps fill
empty ones only, and no task moves a transaction out of its group without a group to move it to.
-/

namespace TtLedger

open LedgerStore Prog

/-! ## Links -/

/-- The same transaction, with the links it had. -/
structure TxnRow.LinksLe (txn txn' : TxnRow) : Prop where
  ttTransactionId : txn'.ttTransactionId = txn.ttTransactionId
  orderId : txn.orderId.isSome → txn'.orderId.isSome
  orderLegId : txn.orderLegId.isSome → txn'.orderLegId.isSome
  tradeGroupId : txn.tradeGroupId.isSome → txn'.tradeGroupId.isSome

/-- The same order, with the links it had. -/
structure OrderRow.LinksLe (order order' : OrderRow) : Prop where
  ttOrderId : order'.ttOrderId = order.ttOrderId
  omsOrderId : order.omsOrderId.isSome → order'.omsOrderId.isSome
  clientOrderId : order.clientOrderId.isSome → order'.clientOrderId.isSome
  signalId : order.signalId.isSome → order'.signalId.isSome
  traceId : order.traceId.isSome → order'.traceId.isSome
  strategyId : order.strategyId.isSome → order'.strategyId.isSome
  tradeGroupId : order.tradeGroupId.isSome → order'.tradeGroupId.isSome
  marketContextId : order.marketContextId.isSome → order'.marketContextId.isSome

theorem TxnRow.LinksLe.refl (txn : TxnRow) : txn.LinksLe txn := ⟨rfl, id, id, id⟩

theorem TxnRow.LinksLe.trans {txn txn' txn'' : TxnRow} (h : txn.LinksLe txn')
    (h' : txn'.LinksLe txn'') : txn.LinksLe txn'' where
  ttTransactionId := h'.ttTransactionId.trans h.ttTransactionId
  orderId := h'.orderId ∘ h.orderId
  orderLegId := h'.orderLegId ∘ h.orderLegId
  tradeGroupId := h'.tradeGroupId ∘ h.tradeGroupId

/-- An order whose broker identifier is not the empty text keeps its links. -/
def OrderRow.LinksKept (order order' : OrderRow) : Prop :=
  order.ttOrderId ≠ some "" → order.LinksLe order'

theorem OrderRow.LinksKept.refl (order : OrderRow) : order.LinksKept order :=
  fun _ => ⟨rfl, id, id, id, id, id, id, id⟩

theorem OrderRow.LinksKept.trans {order order' order'' : OrderRow} (h : order.LinksKept order')
    (h' : order'.LinksKept order'') : order.LinksKept order'' := by
  intro hid
  have h₁ := h hid
  have h₂ := h' (h₁.ttOrderId ▸ hid)
  exact ⟨h₂.ttOrderId.trans h₁.ttOrderId, h₂.omsOrderId ∘ h₁.omsOrderId,
    h₂.clientOrderId ∘ h₁.clientOrderId, h₂.signalId ∘ h₁.signalId, h₂.traceId ∘ h₁.traceId,
    h₂.strategyId ∘ h₁.strategyId, h₂.tradeGroupId ∘ h₁.tradeGroupId,
    h₂.marketContextId ∘ h₁.marketContextId⟩

/-- Every transaction and every order stored is still stored, with the links it had. -/
structure LinksKept (s s' : InMemoryStore) : Prop where
  transactions : s.transactions.Keeps TxnRow.LinksLe s'.transactions
  orders : s.orders.Keeps OrderRow.LinksKept s'.orders

theorem LinksKept.refl (s : InMemoryStore) : LinksKept s s :=
  ⟨.refl .refl _, .refl .refl _⟩

theorem LinksKept.trans {s s' s'' : InMemoryStore} (h : LinksKept s s') (h' : LinksKept s' s'') :
    LinksKept s s'' :=
  ⟨.trans .trans h.transactions h'.transactions, .trans .trans h.orders h'.orders⟩

/-! ## The calls -/

section Calls

variable (s : InMemoryStore)

theorem isSome_orElse_of_right {α : Type} {a b : Option α} (h : b.isSome) : (a <|> b).isSome := by
  cases a <;> simp [h]

/-- An upsert of an order keeps the links it does not set. -/
theorem linksLe_preserveOrder (existing row : OrderRow)
    (hid : row.ttOrderId = existing.ttOrderId) :
    existing.LinksLe (InMemoryStore.preserveOrder existing row) :=
  ⟨hid, isSome_orElse_of_right, isSome_orElse_of_right, isSome_orElse_of_right,
    isSome_orElse_of_right, isSome_orElse_of_right, isSome_orElse_of_right, isSome_orElse_of_right⟩

theorem keeps_upsertOrder (row : OrderRow) :
    s.orders.Keeps OrderRow.LinksKept (InMemoryStore.upsertOrder s row).2.orders := by
  unfold InMemoryStore.upsertOrder
  simp only []
  refine .upsert .refl fun k r hk hr hne => ?_
  have hrk : r.ttOrderId = some k := (Table.getByKey_eq_some.mp hr).2
  split at hk
  · rename_i existing he
    -- what is preserved is the row of the key
    obtain ⟨htruthy, hbind⟩ : truthy row.ttOrderId ∧
        row.ttOrderId.bind s.orders.getByKey = some existing := by
      split at he
      · exact ⟨‹_›, he⟩
      · cases he
    have hrow : row.ttOrderId = some k := hk
    rw [hrow, Option.bind_some, hr] at hbind
    obtain rfl := Option.some.inj hbind
    exact linksLe_preserveOrder r row (hrow.trans hrk.symm)
  · rename_i he
    -- the key is not the empty text, so its row would have been preserved
    have hrow : row.ttOrderId = some k := hk
    have htruthy : truthy row.ttOrderId := by
      rw [hrow]
      simpa [truthy] using fun hk => hne (hrk.trans (congrArg some hk))
    rw [if_pos htruthy, hrow, Option.bind_some, hr] at he
    cases he

theorem linksKept_upsertOrders (rows : List OrderRow) : LinksKept s (s.upsertOrders rows).2 := by
  refine InMemoryStore.upsertOrders_induction (P := LinksKept s) s rows (.refl s) ?_
  intro row _ s' hs'
  exact hs'.trans ⟨.refl .refl _, keeps_upsertOrder s' row⟩

theorem keeps_upsertTransaction (row : TxnRow) :
    s.transactions.Keeps TxnRow.LinksLe (InMemoryStore.upsertTransaction s row).transactions := by
  unfold InMemoryStore.upsertTransaction
  simp only []
  refine .upsert .refl fun k r hk hr => ?_
  have hrk : some r.ttTransactionId = some k := (Table.getByKey_eq_some.mp hr).2
  split at hk
  · rename_i existing he
    obtain rfl : row.ttTransactionId = k := Option.some.inj hk
    obtain rfl := Option.some.inj (hr.symm.trans he)
    exact ⟨(Option.some.inj hrk).symm, isSome_orElse_of_right, isSome_orElse_of_right,
      isSome_orElse_of_right⟩
  · rename_i he
    obtain rfl : row.ttTransactionId = k := Option.some.inj hk
    rw [hr] at he
    cases he

theorem linksKept_upsertTransactions (rows : List TxnRow) :
    LinksKept s (s.upsertTransactions rows) := by
  unfold InMemoryStore.upsertTransactions
  induction rows generalizing s with
  | nil => exact .refl s
  | cons row rows ih => exact LinksKept.trans ⟨keeps_upsertTransaction s row, .refl .refl _⟩ (ih _)

/-- **One call** keeps the links, unless it takes transactions out of their groups. -/
theorem linksKept_step {op : LedgerOp} (hop : ∀ ids, op ≠ .moveTransactionsToGroup ids none) :
    LinksKept s (s.step op).2 := by
  have htxns : ∀ {f : TxnRow → TxnRow} {hf : ∀ r, TxnRow.key (f r) = TxnRow.key r},
      (∀ txn : TxnRow, txn.LinksLe (f txn)) →
        LinksKept s { s with transactions := s.transactions.modify f hf } :=
    fun {f hf} hR => ⟨.modify f hf hR, .refl .refl _⟩
  cases op with
  | upsertOrders rows => exact linksKept_upsertOrders s rows
  | upsertTransactions rows => exact linksKept_upsertTransactions s rows
  | linkTransactionsToOrders account =>
    refine htxns fun txn => ?_
    split
    · rename_i hlinks
      simp only [InMemoryStore.linksTransaction, Bool.and_eq_true] at hlinks
      exact ⟨rfl, fun _ => hlinks.2, id, id⟩
    · exact .refl txn
  | linkOrdersToGroups account =>
    refine ⟨.refl .refl _, .modify _ _ fun order _ => ⟨rfl, id, id, id, id, id, fun h => ?_, id⟩⟩
    simp [h]
  | attachTransactionsToTradeGroup ids pk =>
    refine htxns fun txn => ?_
    split
    · exact ⟨rfl, id, id, fun _ => rfl⟩
    · exact .refl txn
  | moveTransactionsToGroup ids pk? =>
    refine htxns fun txn => ?_
    split
    · refine ⟨rfl, id, id, fun _ => ?_⟩
      cases pk? with
      | none => exact absurd rfl (hop ids)
      | some pk => rfl
    · exact .refl txn
  | linkTransactionsToPositions links =>
    refine htxns fun txn => ?_
    unfold InMemoryStore.relink
    split
    · exact ⟨rfl, id, id, id⟩
    · exact .refl txn
  | _ => exact ⟨.refl .refl _, .refl .refl _⟩

/-- On either store. -/
theorem linksKept_handler (kind : StoreKind) {op : LedgerOp}
    (hop : ∀ ids, op ≠ .moveTransactionsToGroup ids none) : LinksKept s (kind.handler op s).2 := by
  cases kind with
  | memory => exact linksKept_step s hop
  | sql money scan =>
    cases op with
    | upsertOrders rows =>
      exact @linksKept_step s (.upsertOrders (rows.map (OrderRow.heldIn money))) (by simp)
    | upsertTransactions rows =>
      exact @linksKept_step s (.upsertTransactions (rows.map (TxnRow.heldIn money))) (by simp)
    | upsertClosedPosition row =>
      show LinksKept s (SqlLedgerStore.upsertClosedPosition s (row.heldIn money)).2
      unfold SqlLedgerStore.upsertClosedPosition
      split <;> exact ⟨.refl .refl _, .refl .refl _⟩
    | upsertSecurity _ | upsertPositions _ | upsertTradeGroup _ | addTradeGroupEvent _
    | linkClosedPositionsToGroups _ => exact ⟨.refl .refl _, .refl .refl _⟩
    | accountActivity f => exact .refl s
    | _ => exact linksKept_step s hop

end Calls

/-! ## Tasks -/

/-- No task takes a transaction out of its group without a group to move it to. -/
theorem calls_program (task : Task) :
    task.program.Calls fun op => ∀ ids, op ≠ .moveTransactionsToGroup ids none := by
  refine (taskCalls_program task {} {} (taskCalls_grows.refl _)).calls fun known op hop ids he => ?_
  subst he
  exact absurd hop (by simp [taskCalls, Learned.Allows])

/-- **Linkage never regresses**: in every pool of tasks, whatever interleaving its calls are issued
in and whichever of them fail, a link that is set in a state reached is set in every later one. -/
theorem linksKept_of_reaches {ι : Type} [DecidableEq ι] (kind : StoreKind) (tasks : ι → Task)
    {s s₁ s₂ : InMemoryStore} {ps₁ ps₂ : ι → LedgerProg (Option TradeGroupRow)}
    (h₁ : Pool.Reaches kind.meaning (fun i => (tasks i).program) s ps₁ s₁)
    (h₂ : Pool.Reaches kind.meaning ps₁ s₁ ps₂ s₂) : LinksKept s₁ s₂ := by
  refine h₂.rel .refl (fun _ _ _ => .trans) (fun op s r s' hop hstep => ?_)
    (h₁.calls fun i => calls_program (tasks i))
  obtain ⟨clock, hrun | ⟨-, rfl⟩⟩ := hstep
  · have hkept := linksKept_handler { s with clock } kind hop
    rw [hrun] at hkept
    exact ⟨hkept.transactions, hkept.orders⟩
  · exact ⟨.refl .refl _, .refl .refl _⟩

/-! ### A resync of a working order -/

/-- An order pre-attributed to a group, and a host's fill of it. -/
def workingOrder : InMemoryStore :=
  .seeded [] [{ OrderRow.placed "A" "O" with tradeGroupId := some 1, omsOrderId := some "oms" }] []

/-- The order history is imported while a fill of the stream is applied. -/
def resyncTasks : Bool → Task
  | true => .importOrders noSymbols [{ id := "O", receivedAt := 0, status := some "Live" }] "A"
  | false => .applyFill { ttOrderId := "O", status := some "Filled", filledQuantity := some 1 }

/-- The import reads the order first and writes it last. -/
def resynced : (Bool → LedgerProg (Option TradeGroupRow)) × InMemoryStore :=
  Pool.play memory [true, false, false, true] (fun i => (resyncTasks i).program) workingOrder

theorem linksKept_resynced :
    LinksKept workingOrder resynced.2 ∧
      (resynced.2.getOrder "O").map OrderRow.ttStatus = some (some "Live") ∧
      (resynced.2.getOrder "O").bind OrderRow.tradeGroupId = some 1 :=
  ⟨linksKept_of_reaches .memory resyncTasks (.refl _ _)
      (StoreKind.memory.reaches_play [true, false, false, true] _ workingOrder),
    by decide +kernel, by decide +kernel⟩

end TtLedger
