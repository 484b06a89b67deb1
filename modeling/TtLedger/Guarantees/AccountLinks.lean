import TtLedger.Ingest.Consistency
import TtLedger.Ingest.Imports
import TtLedger.Sdk

/-!
# Accounts and groups

What a host asks of the ledger goes through keys that are not an account's: `record_order` takes
the group an order names as given, and `regroup` the transactions it is told to move. While a
command names groups, orders and transactions of its own account only (`Command.WithinAccount`),
no transaction and no order ends up in a group of another account
(`accountsAgree_of_withinAccount`); an order recorded for one account under another account's group
does (`not_accountsAgree`).

`Keeps p s Φ` says that from `s`, whatever calls fail, `p` keeps links within accounts and ends in
`Φ` when it returns. Opening a group, importing positions, applying a fill, linking an order,
remapping a group, retiring it and every pass keep them without a condition.
-/

namespace TtLedger

open LedgerStore Prog

/-- Whatever calls fail, links stay within accounts, and a run that returns ends in `Φ`. -/
def Keeps {α : Type} (p : LedgerProg α) (s : InMemoryStore) (Φ : α → InMemoryStore → Prop) :
    Prop :=
  Triple memory.faulty (fun _ _ => True) (fun _ s' => Consistent s') p s Φ

instance : IsTrans InMemoryStore (fun _ s' => Consistent s') where
  trans _ _ _ _ h' := h'

namespace Keeps

variable {α β : Type} {s : InMemoryStore}

theorem bind {p : LedgerProg α} {f : α → LedgerProg β} {Φ : α → InMemoryStore → Prop}
    {Ψ : β → InMemoryStore → Prop} (hp : Keeps p s Φ)
    (hf : ∀ a s', Consistent s' → Φ a s' → Keeps (f a) s' Ψ) : Keeps (p >>= f) s Ψ :=
  Triple.bind hp fun a s' hR => hf a s' hR

theorem mono {p : LedgerProg α} {Φ Ψ : α → InMemoryStore → Prop} (hp : Keeps p s Φ)
    (hΦ : ∀ a s', Consistent s' → Φ a s' → Ψ a s') : Keeps p s Ψ :=
  Triple.mono hp fun a s' hR => hΦ a s' hR

theorem pure {a : α} {Φ : α → InMemoryStore → Prop} (h : Consistent s) (hΦ : Φ a s) :
    Keeps (Pure.pure a : LedgerProg α) s Φ :=
  Triple.pure h hΦ

theorem raise {e : String} {Φ : α → InMemoryStore → Prop} (h : Consistent s) :
    Keeps (Prog.raise e : LedgerProg α) s Φ :=
  Triple.raise h

/-- One safe call. -/
theorem issue {op : LedgerOp} {Φ : op.Reply → InMemoryStore → Prop} (h : Consistent s)
    (hop : LinkSafe s op) (hΦ : Φ (s.step op).1 (s.step op).2) : Keeps (LedgerStore.issue op) s Φ :=
  Triple.invoke trivial rfl h (h.step hop) hΦ

/-- A sequence whose first call is safe. -/
theorem bind_issue {op : LedgerOp} {f : op.Reply → LedgerProg β} {Ψ : β → InMemoryStore → Prop}
    (h : Consistent s) (hop : LinkSafe s op)
    (hf : Consistent (s.step op).2 → Keeps (f (s.step op).1) (s.step op).2 Ψ) :
    Keeps (LedgerStore.issue op >>= f) s Ψ := by
  refine (issue h hop ⟨rfl, rfl⟩ : Keeps (LedgerStore.issue op) s
    fun r s' => r = (s.step op).1 ∧ s' = (s.step op).2).bind fun r s' h' hr => ?_
  obtain ⟨rfl, rfl⟩ := hr
  exact hf h'

theorem bind_reads {p : LedgerProg α} {f : α → LedgerProg β} {Ψ : β → InMemoryStore → Prop}
    (hp : ReadOnly p) (h : Consistent s) (hf : ∀ a, exec p s = (.ok a, s) → Keeps (f a) s Ψ) :
    Keeps (p >>= f) s Ψ :=
  hp.triple_bind (fun _ _ _ => trivial) h hf

theorem bind_read {op : LedgerOp} {f : op.Reply → LedgerProg β} {Ψ : β → InMemoryStore → Prop}
    (hop : op.IsRead) (h : Consistent s) (hf : Keeps (f (s.step op).1) s Ψ) :
    Keeps (LedgerStore.issue op >>= f) s Ψ :=
  hop.triple_bind (fun _ _ _ => trivial) h hf

theorem foldlM {f : β → α → LedgerProg β} {l : List α} (I : β → InMemoryStore → Prop)
    (step : ∀ b, ∀ a ∈ l, ∀ s', Consistent s' → I b s' → Keeps (f b a) s' I) {b : β}
    (h : Consistent s) (hI : I b s) : Keeps (l.foldlM f b) s I :=
  Triple.foldlM I step (fun _ hR => hR) h hI

/-- What a walk of an account's calls keeps. -/
theorem of_walk {account : String} {settles : String → Prop} {p : LedgerProg α}
    {Φ : α → InMemoryStore → Prop} (h : Consistent s) (hp : Walk account settles p s Φ) :
    Keeps p s Φ := by
  refine Guarded.weaken (fun _ _ _ => trivial) (Guarded.mono (fun x s' hx => ?_)
    (Guarded.preserves (I := Consistent) (fun op s r s' hop hr h => ?_) hp h))
  · exact ⟨hx.2, hx.1.2⟩
  · rcases hr with hr | ⟨-, rfl⟩
    · obtain ⟨-, rfl⟩ := Prod.mk.inj hr
      exact h.step (hop.linkSafe h)
    · exact h

/-- The run keeps links within accounts, whether it returns or throws. -/
theorem consistent {p : LedgerProg α} {Φ : α → InMemoryStore → Prop} (hp : Keeps p s Φ) :
    Consistent (exec p s).2 :=
  (Guarded.of_runs hp (runs_run memory p s).faulty).1

end Keeps

section Programs

variable {s s' : InMemoryStore}

/-! ## Passes -/

theorem keeps_reconcileInto (h : Consistent s) (args : ReconcileArgs) (result : SyncResult)
    (account : String) : Keeps (reconcileInto args result account) s fun _ _ => True := by
  have hdue : SettlesDue account (fun _ => True) args s := fun _ _ _ _ => trivial
  have hpass : Keeps (reconcileAccount args account) s fun _ _ => True :=
    .of_walk h (walk_reconcileAccount (h.linksWithin account) hdue)
  have hsum := hpass.bind (Ψ := fun _ _ => True) fun pass s' h' _ =>
    Keeps.pure (a := { result with
      transactions := result.transactions + pass.transactions
      tradeGroups := result.tradeGroups + pass.tradeGroups
      healedGroups := result.healedGroups + pass.healedGroups }) h' trivial
  exact Guarded.tryCatch hsum (fun a s' hQ => hQ) fun e s' hQ =>
    Keeps.pure (Φ := fun _ _ => True) hQ.1 trivial

theorem keeps_reconcile (h : Consistent s) (account : Option String) (args : ReconcileArgs) :
    Keeps (reconcile account args) s fun _ _ => True := by
  refine Keeps.bind_reads (readOnly_accountsOf account args.since) h fun accounts _ => ?_
  exact Keeps.foldlM _ (fun result account _ s' h' _ => keeps_reconcileInto h' args result account)
    h trivial

/-! ## Groups -/

/-- A group is written back under its account. -/
theorem linkSafe_upsertTradeGroup {tg row : TradeGroupRow}
    (htg : s.getTradeGroup tg.groupId = some tg)
    (hid : row.groupId = tg.groupId) (hacc : row.account = tg.account) :
    LinkSafe s (.upsertTradeGroup row) := by
  intro tg' htg'
  rw [hid, htg] at htg'
  rw [← Option.some.inj htg', hacc]

theorem getTradeGroup_of_get {pk : ℕ} {tg : TradeGroupRow}
    (htg : s.getTradeGroupById pk = some tg) : s.getTradeGroup tg.groupId = some tg :=
  Table.getByKey_of_mem_values (Table.mem_values.mpr ⟨pk, htg⟩) rfl

theorem groupId_of_getTradeGroup {groupId : String} {tg : TradeGroupRow}
    (htg : s.getTradeGroup groupId = some tg) : tg.groupId = groupId :=
  Option.some.inj (Table.getByKey_eq_some.mp htg).2

/-- A drawn identifier names no group. -/
theorem linkSafe_fresh {row : TradeGroupRow} (hid : row.groupId = s.freshGroupId) :
    LinkSafe s.uuid4.2 (.upsertTradeGroup row) := by
  intro tg' htg'
  have hnone := Table.idOf_eq_none.mp (freshGroupId_idOf s)
  obtain ⟨⟨i, hi⟩, hk⟩ := Table.getByKey_eq_some.mp htg'
  rw [hid] at hk
  exact absurd hk (hnone _ hi)

theorem groupOf_upsertTradeGroup (row : TradeGroupRow) :
    GroupOf row.account (s.upsertTradeGroup row).2 (s.upsertTradeGroup row).1 :=
  ⟨row, Table.get_upsert_self _ _, rfl⟩

theorem keeps_event {α : Type} (h : Consistent s) (ev : EventRow) (a : α) :
    Keeps (addTradeGroupEvent ev >>= fun _ => pure a) s fun _ _ => True :=
  Keeps.bind_issue h trivial fun h' => Keeps.pure h' trivial

theorem keeps_openTradeGroup (h : Consistent s) (account : String) (input : TradeGroupInput) :
    Keeps (openTradeGroup account input) s fun _ _ => True := by
  refine Keeps.bind_read trivial h ?_
  refine Keeps.bind_issue h trivial fun h₁ => ?_
  refine Keeps.bind_issue h₁ (linkSafe_fresh rfl) fun h₂ => ?_
  exact Keeps.bind_issue h₂ trivial fun h₃ => Keeps.pure h₃ trivial

theorem readOnly_transactionsOf (groupId : String) : ReadOnly (transactionsOf groupId) := by
  refine (Direct.invoke.mpr trivial).bind fun pk => ?_
  split
  · exact Direct.invoke.mpr trivial
  · exact Direct.pure _

theorem keeps_markTradeGroupUnfilled (h : Consistent s) (groupId reviewedBy reason : String) :
    Keeps (markTradeGroupUnfilled groupId reviewedBy reason) s fun _ _ => True := by
  refine Keeps.bind_read trivial h ?_
  cases htg : s.getTradeGroup groupId with
  | none =>
    simp only [InMemoryStore.step, htg]
    exact Keeps.raise h
  | some tg =>
    simp only [InMemoryStore.step, htg]
    obtain rfl := groupId_of_getTradeGroup htg
    refine Keeps.bind_reads (readOnly_transactionsOf tg.groupId) h fun rows _ => ?_
    split
    · exact Keeps.raise h
    · refine Keeps.bind_read trivial h ?_
      refine Keeps.bind_issue h (linkSafe_upsertTradeGroup htg rfl rfl) fun h₁ => ?_
      exact Keeps.bind_issue h₁ trivial fun h₂ => Keeps.pure h₂ trivial

/-! ## Attribution -/

/-- Stored orders are written back under their account and group. -/
theorem linkSafe_upsertOrders_stored (h : Consistent s) {rows : List OrderRow}
    (f : OrderRow → OrderRow)
    (hrows : ∀ o ∈ rows, o ∈ s.orders.values) (hid : ∀ o, (f o).ttOrderId = o.ttOrderId)
    (hacc : ∀ o, (f o).account = o.account)
    (hgroup : ∀ o, (f o).tradeGroupId = o.tradeGroupId) :
    LinkSafe s (.upsertOrders (rows.map f)) := by
  -- the order stored under an identifier is the row itself
  have hstored : ∀ o ∈ rows, ∀ k, o.ttOrderId = some k → s.getOrder k = some o := fun o ho k hk =>
    Table.getByKey_of_mem_values (hrows o ho) hk
  refine ⟨fun row hrow => ?_, fun row hrow row' hrow' k hk hk' => ?_⟩
  · obtain ⟨o, ho, rfl⟩ := List.mem_map.mp hrow
    refine ⟨fun k hk o' ho' => ?_, fun k hk t ht hfree htk => ?_, fun pk hpk => ?_⟩
    · rw [hid] at hk
      rw [hacc, Option.some.inj ((hstored o ho k hk).symm.trans ho')]
    · rw [hid] at hk
      rw [hacc, (h.txns t ht).names hfree k htk o (hstored o ho k hk)]
    · rw [hgroup] at hpk
      rw [hacc]
      exact h.orders o (hrows o ho) pk hpk
  · obtain ⟨o, ho, rfl⟩ := List.mem_map.mp hrow
    obtain ⟨o', ho', rfl⟩ := List.mem_map.mp hrow'
    rw [hid] at hk hk'
    rw [hacc, hacc, Option.some.inj ((hstored o ho k hk).symm.trans (hstored o' ho' k hk'))]

theorem keeps_cascadeToPosition (h : Consistent s) (strategy groupPk : ℕ)
    (updated : TradeGroupRow) :
    Keeps (cascadeToPosition strategy groupPk updated) s fun _ _ => True := by
  unfold cascadeToPosition
  split
  · exact Keeps.pure h trivial
  · refine Keeps.bind_read trivial h ?_
    split
    · exact Keeps.pure h trivial
    · exact Keeps.issue h trivial trivial

theorem keeps_cascadeStrategy (h : Consistent s) (strategy groupPk : ℕ)
    (updated : TradeGroupRow) :
    Keeps (cascadeStrategy strategy groupPk updated) s fun _ _ => True := by
  refine Keeps.bind_reads (Direct.invoke.mpr trivial) h fun orders horders => ?_
  have hrows : ∀ o ∈ orders, o ∈ s.orders.values := by
    intro o ho
    obtain rfl : s.queryOrders _ = orders := Except.ok.inj (congrArg Prod.fst horders)
    exact List.mem_of_mem_filter ((mem_sortOn _).mp ho)
  split
  · refine Keeps.bind_issue h (linkSafe_upsertOrders_stored h _ hrows (fun _ => rfl) (fun _ => rfl)
      fun _ => rfl) fun h₁ => ?_
    exact keeps_cascadeToPosition h₁ strategy groupPk updated
  · exact keeps_cascadeToPosition h strategy groupPk updated

theorem keeps_remapTradeGroup (h : Consistent s) (groupId : String) (attribution : Attribution) :
    Keeps (remapTradeGroup groupId attribution) s fun _ _ => True := by
  refine Keeps.bind_read trivial h ?_
  cases htg : s.getTradeGroup groupId with
  | none =>
    simp only [InMemoryStore.step, htg]
    exact Keeps.raise h
  | some tg =>
    simp only [InMemoryStore.step, htg]
    obtain rfl := groupId_of_getTradeGroup htg
    refine Keeps.bind_read trivial h ?_
    refine Keeps.bind_issue h (linkSafe_upsertTradeGroup htg rfl rfl) fun h₁ => ?_
    cases attribution.strategy with
    | none => exact keeps_event h₁ _ _
    | some strategy =>
      exact (keeps_cascadeStrategy h₁ strategy _ _).bind fun _ s₂ h₂ _ => keeps_event h₂ _ _

/-! ## Fills -/

theorem keeps_applyFillEvent (h : Consistent s) (evt : FillEvent) :
    Keeps (applyFillEvent evt) s fun _ _ => True := by
  refine Keeps.bind_read trivial h ?_
  cases ho : s.getOrder evt.ttOrderId with
  | none =>
    simp only [InMemoryStore.step, ho]
    exact Keeps.pure h trivial
  | some existing =>
    simp only [InMemoryStore.step, ho]
    refine Keeps.bind_issue h ?_ fun h₁ => Keeps.pure h₁ trivial
    have hstored : ∀ o ∈ [existing], o ∈ s.orders.values := fun o hmem =>
      List.mem_singleton.mp hmem ▸ Table.mem_values_of_getByKey ho
    exact linkSafe_upsertOrders_stored h evt.apply hstored (fun _ => rfl) (fun _ => rfl)
      fun _ => rfl

/-! ## Securities and positions -/

theorem Consistent.of_sameLinks (h : Consistent s) (hs : SameLinks s s') : Consistent s' :=
  h.of_txns hs.tradeGroups hs.orders fun t ht => h.txns t (hs.transactions ▸ ht)

/-- What a resolving program keeps. -/
theorem Keeps.of_resolves {α : Type} {p : LedgerProg α} {Φ : α → InMemoryStore → Prop}
    (h : Consistent s) (hp : Resolves p s Φ) : Keeps p s fun a s' => SameLinks s s' ∧ Φ a s' := by
  refine Guarded.mono (fun x s' hx => ?_) hp
  obtain ⟨hsame, hΦ⟩ := hx
  exact ⟨h.of_sameLinks hsame, fun a ha => ⟨hsame, hΦ a ha⟩⟩

theorem keeps_resolveSecurity (h : Consistent s) (resolver : SecurityResolver)
    (seen : List String) (symbol : String) (instrumentType : Option String) :
    Keeps (resolveSecurity resolver seen symbol instrumentType) s fun _ s' => SameLinks s s' :=
  (Keeps.of_resolves h (resolves_resolveSecurity resolver seen symbol instrumentType)).mono
    fun _ _ _ hΦ => hΦ.1

theorem keeps_addPosition (h : Consistent s) (resolver : SecurityResolver) (account : String)
    (w : List String × List PositionRow) (p : BrokerPosition) :
    Keeps (PositionRepository.addRow resolver account w p) s fun _ _ => True := by
  refine (keeps_resolveSecurity h resolver w.1 p.symbol p.instrumentType).bind
    fun r s' h' _ => ?_
  exact Keeps.bind_read trivial h' (Keeps.pure h' trivial)

theorem keeps_importPositions (h : Consistent s) (resolver : SecurityResolver)
    (positions : List BrokerPosition) (account : String) :
    Keeps (PositionRepository.upsert resolver positions account) s fun _ _ => True := by
  unfold PositionRepository.upsert
  split
  · exact Keeps.pure h trivial
  · refine (Keeps.foldlM (fun _ _ => True) (fun w p _ s' h' _ =>
      keeps_addPosition h' resolver account w p) h trivial).bind fun w s' h' _ => ?_
    exact Keeps.bind_issue h' trivial fun h₁ => Keeps.pure h₁ trivial

/-! ## Orders -/

theorem SameLinks.namedWithin (h : SameLinks s s') {account k : String}
    (hk : NamedWithin account s k) : NamedWithin account s' k := by
  rw [NamedWithin, h.transactions]
  exact hk

theorem readOnly_tradeGroupPk (tradeGroup : Option String) :
    ReadOnly (tradeGroupPk tradeGroup) := by
  unfold tradeGroupPk
  split
  · exact Direct.pure _
  · refine (Direct.invoke.mpr trivial).bind fun pk => ?_
    split
    · exact Direct.raise _
    · exact Direct.pure _

/-- The key of a group of the account. -/
theorem groupOf_tradeGroupPk {account : String} {tradeGroup : Option String} {pk? : Option ℕ}
    (hrun : exec (tradeGroupPk tradeGroup) s = (.ok pk?, s))
    (hown : ∀ g tg, tradeGroup = some g → s.getTradeGroup g = some tg → tg.account = account) :
    ∀ pk, pk? = some pk → GroupOf account s pk := by
  rintro pk rfl
  unfold tradeGroupPk at hrun
  split at hrun
  · cases hrun
  · rename_i g
    rw [exec_bind (exec_getTradeGroupId s g)] at hrun
    split at hrun
    · cases hrun
    · rename_i pk' hid
      obtain rfl : pk' = pk := Option.some.inj (Except.ok.inj (congrArg Prod.fst hrun))
      obtain ⟨tg, htg, hk⟩ := Table.idOf_eq_some.mp hid
      exact ⟨tg, Table.get_eq_some.mpr htg,
        hown g tg rfl (Table.getByKey_eq_some.mpr ⟨⟨_, htg⟩, hk⟩)⟩

theorem keeps_recordOrder (h : Consistent s) (resolver : SecurityResolver) (order : OrderInput)
    (hgroup : ∀ g tg, order.tradeGroup = some g → s.getTradeGroup g = some tg →
      tg.account = order.account)
    (hid : ∀ k, order.ttOrderId = some k →
      OrderOf order.account s k ∧ NamedWithin order.account s k) :
    Keeps (recordOrder resolver order) s fun _ _ => True := by
  refine Keeps.bind_reads (readOnly_tradeGroupPk order.tradeGroup) h fun pk? hpk? => ?_
  refine Keeps.bind_read trivial h ?_
  refine Keeps.bind_issue h ?_ fun h₁ => ?_
  · refine ⟨fun row hrow => ?_, fun row hrow row' hrow' _ _ _ => ?_⟩
    · obtain rfl := List.mem_singleton.mp hrow
      exact ⟨fun k hk => (hid k hk).1, fun k hk => (hid k hk).2, groupOf_tradeGroupPk hpk? hgroup⟩
    · rw [List.mem_singleton.mp hrow, List.mem_singleton.mp hrow']
  · refine (Keeps.foldlM (fun _ _ => True) (fun seen leg _ s' h' _ => ?_) h₁ trivial).bind
      fun _ _ h₂ _ => Keeps.pure h₂ trivial
    exact (keeps_resolveSecurity h' resolver seen leg.symbol leg.instrumentType).bind
      fun _ _ h'' _ => Keeps.pure h'' trivial

/-- The row built for a broker order: an order the host submitted stays of its account, any other
is of the importing one. -/
theorem orderSafe_buildOrderRow (h : Consistent s) {account : String} {securityId : Option String}
    {po : PlacedOrder} {row : OrderRow}
    (hrun : exec (OrderRepository.buildOrderRow account securityId po) s = (.ok row, s))
    (hstored : ∀ o, s.getOrder po.id = some o → o.origin = .zts ∨ o.account = account)
    (hnamed : s.getOrder po.id = none → NamedWithin account s po.id) :
    row.ttOrderId = some po.id ∧ OrderSafe s row ∧
      row.account = ((s.getOrder po.id).map OrderRow.account).getD account := by
  have hrow := builtRow_buildOrderRow hrun
  cases ho : s.getOrder po.id with
  | none =>
    obtain ⟨hacc, htg⟩ := hrow.new ho
    refine ⟨hrow.id, ⟨fun k hk o hget => ?_, fun k hk => ?_, fun pk hpk => ?_⟩, hacc⟩
    · obtain rfl := Option.some.inj (hrow.id.symm.trans hk)
      rw [ho] at hget
      cases hget
    · obtain rfl := Option.some.inj (hrow.id.symm.trans hk)
      rw [hacc]
      exact hnamed ho
    · rw [htg] at hpk
      cases hpk
  | some o =>
    have hgroup := h.orders o (Table.mem_values_of_getByKey ho)
    obtain ⟨htg, hacc⟩ := hrow.known o ho
    have hsame : row.account = o.account := by
      rw [hacc]
      split
      · rfl
      · rename_i hbroker
        exact ((hstored o ho).resolve_left hbroker).symm
    refine ⟨hrow.id, ⟨fun k hk o' hget => ?_, fun k hk => ?_, fun pk hpk => ?_⟩, hsame⟩
    · obtain rfl := Option.some.inj (hrow.id.symm.trans hk)
      rw [hsame, Option.some.inj (ho.symm.trans hget)]
    · obtain rfl := Option.some.inj (hrow.id.symm.trans hk)
      rw [hsame]
      exact h.namedWithin ho
    · rw [hsame]
      exact hgroup pk (htg.symm.trans hpk)

theorem keeps_importOrders (h : Consistent s) (resolver : SecurityResolver)
    (placedOrders : List PlacedOrder) (account : String)
    (hstored : ∀ po ∈ placedOrders, ∀ o, s.getOrder po.id = some o →
      o.origin = .zts ∨ o.account = account)
    (hnamed : ∀ po ∈ placedOrders, s.getOrder po.id = none → NamedWithin account s po.id) :
    Keeps (OrderRepository.upsertFromHistory resolver placedOrders account) s fun _ _ => True := by
  unfold OrderRepository.upsertFromHistory
  split
  · exact Keeps.pure h trivial
  · refine (Keeps.of_resolves h (resolves_resolveOrders resolver placedOrders)).bind
      fun w s₁ h₁ hw => ?_
    obtain ⟨hsame, hmem⟩ := hw
    have hread : ∀ p ∈ w.2, ReadOnly (OrderRepository.buildOrderRow account p.2 p.1) :=
      fun p _ => readOnly_buildOrderRow account p.2 p.1
    refine Keeps.bind_reads (Direct.mapM hread) h₁ fun rows hrows => ?_
    have hbuilt : ∀ row ∈ rows, ∃ k, row.ttOrderId = some k ∧ OrderSafe s₁ row ∧
        row.account = ((s₁.getOrder k).map OrderRow.account).getD account := by
      intro row hrow
      obtain ⟨p, hp, hrun⟩ := ReadOnly.of_mem_mapM hread hrows hrow
      refine ⟨p.1.id, orderSafe_buildOrderRow h₁ hrun (fun o ho => ?_) fun hnone => ?_⟩
      · rw [hsame.getOrder] at ho
        exact hstored p.1 (hmem p hp) o ho
      · rw [hsame.getOrder] at hnone
        exact hsame.namedWithin (hnamed p.1 (hmem p hp) hnone)
    refine Keeps.bind_issue h₁ ⟨fun row hrow => ?_, fun row hrow row' hrow' k hk hk' => ?_⟩
      fun h₂ => Keeps.pure h₂ trivial
    · obtain ⟨-, -, hsafe, -⟩ := hbuilt row hrow
      exact hsafe
    · obtain ⟨k₁, hk₁, -, hacc⟩ := hbuilt row hrow
      obtain ⟨k₂, hk₂, -, hacc'⟩ := hbuilt row' hrow'
      obtain rfl := Option.some.inj (hk.symm.trans hk₁)
      obtain rfl := Option.some.inj (hk'.symm.trans hk₂)
      rw [hacc, hacc']

/-! ## Transactions -/

theorem keeps_importTransactions (h : Consistent s) (resolver : SecurityResolver)
    (txns : List BrokerTransaction) (account sourceSystem : String)
    (hstored : ∀ b ∈ txns, ∀ t, s.txn b.id = some t →
      t.account = account ∨ t.tradeGroupId = none ∧ t.orderId = none)
    (hnames : ∀ b ∈ txns, (∀ t, s.txn b.id = some t → t.tradeGroupId = none) →
      ∀ k, b.orderId = some k → OrderOf account s k) :
    Keeps (TransactionRepository.upsert resolver txns account sourceSystem) s fun _ _ => True := by
  unfold TransactionRepository.upsert
  split
  · exact Keeps.pure h trivial
  · refine (Keeps.of_resolves h (resolves_addRows resolver txns account sourceSystem)).bind
      fun w s₁ h₁ hw => ?_
    obtain ⟨hsame, hrows⟩ := hw
    refine Keeps.bind_issue h₁ ⟨fun r hr => ?_, fun r hr r' hr' => ?_⟩
      fun h₂ => Keeps.pure h₂ trivial
    · obtain ⟨b, hb, securityId, rfl⟩ := hrows r hr
      refine ⟨fun _ hpk => (by cases hpk), fun _ t ht => ?_, fun _ => rfl, fun _ hfree k hk => ?_⟩
      · rw [hsame.txn] at ht
        exact hstored b hb t ht
      · intro o ho
        rw [hsame.getOrder] at ho
        refine hnames b hb (fun t ht => hfree t ?_) k hk o ho
        rw [hsame.txn]
        exact ht
    · obtain ⟨b, -, _, rfl⟩ := hrows r hr
      obtain ⟨b', -, _, rfl⟩ := hrows r' hr'
      rfl

/-! ## Linking an order -/

theorem keeps_linkTarget (h : Consistent s) (order : OrderRow) (ttOrderId : String)
    (targetGroupId : Option String) (reviewedBy : String) (at_ : Datetime) :
    Keeps (linkTarget order ttOrderId targetGroupId reviewedBy at_) s fun pk s' =>
      GroupOf order.account s' pk ∧ s'.orders = s.orders := by
  unfold linkTarget
  split
  · refine Keeps.bind_issue h trivial fun h₁ => ?_
    exact Keeps.issue h₁ (linkSafe_fresh rfl) ⟨groupOf_upsertTradeGroup _, rfl⟩
  · rename_i targetGroupId
    refine Keeps.bind_read trivial h ?_
    cases htg : s.getTradeGroup targetGroupId with
    | none =>
      simp only [InMemoryStore.step, htg]
      exact Keeps.raise h
    | some tg =>
      simp only [InMemoryStore.step, htg]
      obtain rfl := groupId_of_getTradeGroup htg
      split
      · exact Keeps.raise h
      · rename_i hacc
        refine Keeps.issue h (linkSafe_upsertTradeGroup htg rfl rfl) ⟨?_, rfl⟩
        rw [← not_not.mp hacc]
        exact groupOf_upsertTradeGroup (reviewed tg reviewedBy at_)

theorem keeps_linkOrderToGroup (h : Consistent s) (ttOrderId : String)
    (targetGroupId : Option String) (reviewedBy : String) :
    Keeps (linkOrderToGroup ttOrderId targetGroupId reviewedBy) s fun _ _ => True := by
  refine Keeps.bind_read trivial h ?_
  cases ho : s.getOrder ttOrderId with
  | none =>
    simp only [InMemoryStore.step, ho]
    exact Keeps.raise h
  | some order =>
    simp only [InMemoryStore.step, ho]
    have hkey : order.ttOrderId = some ttOrderId := (Table.getByKey_eq_some.mp ho).2
    split
    · exact Keeps.raise h
    · refine Keeps.bind_read trivial h ?_
      refine (keeps_linkTarget h order ttOrderId targetGroupId reviewedBy _).bind
        fun pk s₁ h₁ hpk => ?_
      obtain ⟨hpk, horders⟩ := hpk
      have ho₁ : s₁.getOrder ttOrderId = some order := by
        rw [InMemoryStore.getOrder, horders]
        exact ho
      refine Keeps.bind_issue h₁ ⟨fun row hrow => ?_, fun row hrow row' hrow' _ _ _ => ?_⟩
        fun h₂ => ?_
      · obtain rfl := List.mem_singleton.mp hrow
        refine ⟨fun k hk o hget => ?_, fun k hk => ?_, fun pk' hpk' => ?_⟩
        · obtain rfl := Option.some.inj (hkey.symm.trans hk)
          rw [← Option.some.inj (ho₁.symm.trans hget)]
        · obtain rfl := Option.some.inj (hkey.symm.trans hk)
          have hnamed : NamedWithin order.account s₁ ttOrderId := h₁.namedWithin ho₁
          exact hnamed
        · obtain rfl := Option.some.inj hpk'
          exact hpk
      · rw [List.mem_singleton.mp hrow, List.mem_singleton.mp hrow']
      · refine Keeps.bind_issue h₂ trivial fun h₃ => ?_
        refine (keeps_reconcile h₃ (some order.account) {}).bind fun _ s₄ h₄ _ => ?_
        refine Keeps.bind_read trivial h₄ ?_
        split
        · exact Keeps.raise h₄
        · exact Keeps.pure h₄ trivial

/-! ## Regrouping -/

theorem readOnly_recomputedLifecycle (tg : TradeGroupRow) (cluster : List TxnRow) :
    ReadOnly (recomputedLifecycle tg cluster) := by
  unfold recomputedLifecycle
  split
  · exact Direct.pure _
  · split
    · exact (readOnly_groupRealized cluster).bind fun _ => Direct.pure _
    · exact Direct.pure _

/-- A lifecycle change keeps the group's identifier and account. -/
theorem keys_recomputedLifecycle {tg updated : TradeGroupRow} {cluster : List TxnRow}
    (hrun : exec (recomputedLifecycle tg cluster) s = (.ok updated, s)) :
    updated.groupId = tg.groupId ∧ updated.account = tg.account := by
  unfold recomputedLifecycle at hrun
  split at hrun
  · obtain rfl := Except.ok.inj (congrArg Prod.fst hrun)
    exact ⟨rfl, rfl⟩
  · split at hrun
    · rw [exec_bind (exec_groupRealized s cluster)] at hrun
      obtain rfl := Except.ok.inj (congrArg Prod.fst hrun)
      exact ⟨rfl, rfl⟩
    · obtain rfl := Except.ok.inj (congrArg Prod.fst hrun)
      exact ⟨rfl, rfl⟩

theorem keeps_recomputeGroup (h : Consistent s) {pk : ℕ} {tg : TradeGroupRow}
    (htg : s.getTradeGroupById pk = some tg) :
    Keeps (recomputeGroup pk tg) s fun _ _ => True := by
  refine Keeps.bind_read trivial h ?_
  refine Keeps.bind_reads (readOnly_computeGroupFields _) h fun fields _ => ?_
  refine Keeps.bind_reads (readOnly_recomputedLifecycle _ _) h fun updated hupdated => ?_
  obtain ⟨hid, hacc⟩ := keys_recomputedLifecycle hupdated
  exact Keeps.bind_issue h (linkSafe_upsertTradeGroup (getTradeGroup_of_get htg) hid hacc)
    fun h₁ => Keeps.pure h₁ trivial

theorem keeps_recomputeAffected (h : Consistent s) (reviewedBy : String) (at_ : Datetime)
    (updated : List TradeGroupRow) (pk : ℕ) :
    Keeps (recomputeAffected reviewedBy at_ updated pk) s fun _ _ => True := by
  refine Keeps.bind_read trivial h ?_
  cases htg : s.getTradeGroupById pk with
  | none =>
    simp only [InMemoryStore.step, htg]
    exact Keeps.pure h trivial
  | some tg =>
    simp only [InMemoryStore.step, htg]
    exact (keeps_recomputeGroup h htg).bind fun _ _ h₁ _ => keeps_event h₁ _ _

/-- The target belongs to the account of the group named, or to the account given. -/
theorem keeps_regroupTarget (h : Consistent s) (account : String) (targetGroupId : Option String)
    (reviewedBy : String) (at_ : Datetime) {owner : String}
    (hnew : targetGroupId = none → account = owner)
    (hold : ∀ g tg, targetGroupId = some g → s.getTradeGroup g = some tg → tg.account = owner) :
    Keeps (regroupTarget account targetGroupId reviewedBy at_) s fun pk s' =>
      GroupOf owner s' pk ∧ s'.transactions = s.transactions := by
  unfold regroupTarget
  cases targetGroupId with
  | none =>
    refine Keeps.bind_issue h trivial fun h₁ => ?_
    refine Keeps.issue h₁ (linkSafe_fresh rfl) ⟨?_, rfl⟩
    rw [← hnew rfl]
    exact groupOf_upsertTradeGroup _
  | some g =>
    refine Keeps.bind_read trivial h ?_
    cases htg : s.getTradeGroup g with
    | none =>
      simp only [InMemoryStore.step, htg]
      exact Keeps.raise h
    | some tg =>
      simp only [InMemoryStore.step, htg]
      have hkey : s.getTradeGroup tg.groupId = some tg := by
        rw [groupId_of_getTradeGroup htg]
        exact htg
      refine Keeps.issue h (linkSafe_upsertTradeGroup hkey rfl rfl) ⟨?_, rfl⟩
      rw [← hold g tg rfl htg]
      exact groupOf_upsertTradeGroup (reviewed tg reviewedBy at_)

theorem keeps_regroupTransactions (h : Consistent s) (txnIds : List ℕ)
    (targetGroupId : Option String) (reviewedBy : String) {owner : String}
    (hrows : ∀ t ∈ s.getTransactionsById txnIds, t.account = owner)
    (htarget : ∀ g tg, targetGroupId = some g → s.getTradeGroup g = some tg →
      tg.account = owner) :
    Keeps (regroupTransactions txnIds targetGroupId reviewedBy) s fun _ _ => True := by
  unfold regroupTransactions
  split
  · exact Keeps.pure h trivial
  · refine Keeps.bind_read trivial h ?_
    cases hfirst : (s.getTransactionsById txnIds).head? with
    | none =>
      simp only [InMemoryStore.step, hfirst]
      exact Keeps.pure h trivial
    | some first =>
      simp only [InMemoryStore.step, hfirst]
      refine Keeps.bind_read trivial h ?_
      refine (keeps_regroupTarget h first.account targetGroupId reviewedBy _
        (fun _ => hrows first (List.mem_of_head? hfirst)) htarget).bind fun pk s₁ h₁ hpk => ?_
      obtain ⟨hpk, htxns⟩ := hpk
      refine Keeps.bind_issue h₁ ⟨owner, pk, rfl, hpk, ?_⟩ fun h₂ => ?_
      · rw [InMemoryStore.getTransactionsById, htxns]
        exact hrows
      · exact Keeps.foldlM (fun _ _ => True) (fun updated pk' _ s' h' _ =>
          keeps_recomputeAffected h' reviewedBy _ updated pk') h₂ trivial

end Programs

/-! ## Runs -/

/-- What the property says of a state: a transaction or an order in a group is of its account. -/
structure AccountsAgree (s : InMemoryStore) : Prop where
  txns : ∀ t ∈ s.transactions.values, ∀ pk tg, t.tradeGroupId = some pk →
    s.getTradeGroupById pk = some tg → t.account = tg.account
  orders : ∀ o ∈ s.orders.values, ∀ pk tg, o.tradeGroupId = some pk →
    s.getTradeGroupById pk = some tg → o.account = tg.account

theorem Consistent.accountsAgree {s : InMemoryStore} (h : Consistent s) : AccountsAgree s where
  txns t ht pk tg hpk htg := ((h.linksWithin t.account).txnGroup t ht rfl pk hpk tg htg).symm
  orders o ho pk tg hpk htg := ((h.linksWithin o.account).orderGroup o ho rfl pk hpk tg htg).symm

namespace Command

/-- The groups, orders and transactions a command is given, by key, are of its account. An order
recorded under a group is of the group's account, and its identifier is no other account's. The
broker's orders and transactions come under identifiers that no other account uses: an order
stored under one is of the importing account, unless the host submitted it, and a transaction
stored under one is of the importing account, or has no links yet. The transactions regrouped are
of one account, that of the target when there is one. -/
def WithinAccount (s : InMemoryStore) : Command → Prop
  | recordOrder _ order =>
    (∀ g tg, order.tradeGroup = some g → s.getTradeGroup g = some tg →
      tg.account = order.account) ∧
    ∀ k, order.ttOrderId = some k → OrderOf order.account s k ∧ NamedWithin order.account s k
  | importOrders _ placedOrders account => ∀ po ∈ placedOrders,
    (∀ o, s.getOrder po.id = some o → o.origin = .zts ∨ o.account = account) ∧
    (s.getOrder po.id = none → NamedWithin account s po.id)
  | importTransactions _ txns account _ => ∀ b ∈ txns,
    (∀ t, s.txn b.id = some t → t.account = account ∨ t.tradeGroupId = none ∧ t.orderId = none) ∧
    ((∀ t, s.txn b.id = some t → t.tradeGroupId = none) →
      ∀ k, b.orderId = some k → OrderOf account s k)
  | regroup txnIds targetGroupId _ => ∃ owner,
    (∀ t ∈ s.getTransactionsById txnIds, t.account = owner) ∧
    ∀ g tg, targetGroupId = some g → s.getTradeGroup g = some tg → tg.account = owner
  | _ => True

/-- One command keeps links within accounts. -/
theorem consistent_exec {s : InMemoryStore} (h : Consistent s) {cmd : Command}
    (hcmd : WithinAccount s cmd) : Consistent (exec s cmd) := by
  cases cmd with
  | openTradeGroup account input => exact (keeps_openTradeGroup h account input).consistent
  | recordOrder resolver order =>
    exact (keeps_recordOrder h resolver order hcmd.1 hcmd.2).consistent
  | importOrders resolver placedOrders account =>
    exact (keeps_importOrders h resolver placedOrders account (fun po hpo => (hcmd po hpo).1)
      fun po hpo => (hcmd po hpo).2).consistent
  | importTransactions resolver txns account sourceSystem =>
    exact (keeps_importTransactions h resolver txns account sourceSystem
      (fun b hb => (hcmd b hb).1) fun b hb => (hcmd b hb).2).consistent
  | importPositions resolver positions account =>
    exact (keeps_importPositions h resolver positions account).consistent
  | applyFill evt => exact (keeps_applyFillEvent h evt).consistent
  | linkOrderToGroup ttOrderId targetGroupId reviewedBy =>
    exact (keeps_linkOrderToGroup h ttOrderId targetGroupId reviewedBy).consistent
  | regroup txnIds targetGroupId reviewedBy =>
    obtain ⟨owner, hrows, htarget⟩ := hcmd
    exact (keeps_regroupTransactions h txnIds targetGroupId reviewedBy hrows htarget).consistent
  | remap groupId attribution => exact (keeps_remapTradeGroup h groupId attribution).consistent
  | markTradeGroupUnfilled groupId reviewedBy reason =>
    exact (keeps_markTradeGroupUnfilled h groupId reviewedBy reason).consistent
  | reconcile account args => exact (keeps_reconcile h account args).consistent
  | tick clock => exact h.of_txns rfl rfl h.txns

theorem consistent_execAll {s : InMemoryStore} (h : Consistent s) {run : List Command}
    (hrun : Along WithinAccount s run) : Consistent (execAll s run) := by
  unfold execAll
  induction run generalizing s with
  | nil => exact h
  | cons cmd run ih => exact ih (consistent_exec h hrun.1) hrun.2

end Command

/-- **In a run whose commands stay within their accounts**, every transaction and every order that
names a group belongs to the group's account, in every state the run reaches. -/
theorem accountsAgree_of_withinAccount (clock : Datetime) (run : List Command)
    (h : Command.Along Command.WithinAccount (InMemoryStore.empty clock) run) :
    ∀ reached rest, run = reached ++ rest →
      AccountsAgree (Command.execAll (InMemoryStore.empty clock) reached) := by
  rintro reached rest rfl
  exact (Command.consistent_execAll (consistent_empty clock) h.of_append.1).accountsAgree

/-- A group is opened for account `A`, and an order of `account` recorded under it. -/
def recordUnder (account : String) : List Command :=
  [.openTradeGroup "A" {},
   .recordOrder noSymbols { account, ttOrderId := some "1", tradeGroup := some "x" }]

theorem accountsAgree_recordUnder :
    AccountsAgree (Command.execAll (InMemoryStore.empty 0) (recordUnder "A")) := by
  refine accountsAgree_of_withinAccount 0 (recordUnder "A") ⟨trivial, ⟨?_, ?_⟩, trivial⟩
    (recordUnder "A") [] (List.append_nil _).symm
  · intro g tg hg htg
    obtain rfl : "x" = g := Option.some.inj hg
    have hrow : ((Command.exec (InMemoryStore.empty 0) (.openTradeGroup "A" {})).getTradeGroup
        "x").map TradeGroupRow.account = some "A" := by decide +kernel
    rw [htg] at hrow
    exact Option.some.inj hrow
  · intro k hk
    obtain rfl : "1" = k := Option.some.inj hk
    have hnone : (Command.exec (InMemoryStore.empty 0) (.openTradeGroup "A" {})).getOrder "1" =
        none := by decide +kernel
    refine ⟨fun o ho => ?_, fun t ht => by cases ht⟩
    rw [hnone] at ho
    cases ho

/-- An order of account `B` is recorded under the group of account `A`. -/
theorem not_accountsAgree :
    ¬ ∀ (clock : Datetime) (run : List Command),
      AccountsAgree (Command.execAll (InMemoryStore.empty clock) run) := by
  intro h
  set s := Command.execAll (InMemoryStore.empty 0) (recordUnder "B") with hs
  have horder : (s.orders.values.head?.map fun o => (o.account, o.tradeGroupId)) =
      some ("B", some 1) := by decide +kernel
  have hgroup : (s.getTradeGroupById 1).map TradeGroupRow.account = some "A" := by decide +kernel
  obtain ⟨o, ho, hpair⟩ := Option.map_eq_some_iff.mp horder
  obtain ⟨tg, htg, hacc⟩ := Option.map_eq_some_iff.mp hgroup
  obtain ⟨hown, hpk⟩ := Prod.mk.inj hpair
  have hagree := (h 0 (recordUnder "B")).orders o (List.mem_of_head? ho) 1 tg hpk htg
  rw [hown, hacc] at hagree
  exact absurd hagree (by decide)

end TtLedger
