import TtLedger.Guarantees.Attribution
import TtLedger.Ingest.Imports
import TtLedger.Ingest.IntentLaws
import TtLedger.Ingest.Passes
import TtLedger.Ingest.Scope

/-!
# An order in its group

`Pinned account k pk s₀ s` says of a state `s` reached from `s₀`, in which the order `k` was linked
to `pk`: the order is still in its group, and each of its transactions is where it was, in the
order's group, or still to be routed there. Imports of orders and transactions, fills and passes
keep it (`Pinned.importOrders`, `Pinned.importTransactions`, `Pinned.applyFill`, `Pinned.pass`),
and a pass over the whole account leaves none to be routed (`Pinned.isSome_groupOf_pass`).
-/

namespace TtLedger

open LedgerStore

/-! ## The invariant -/

/-- The transaction is in the group it had, or in `pk`; or it is in none and linked to no order but
`k`. -/
def BoundFor (k : String) (pk : ℕ) (s₀ s : InMemoryStore) (id : String) : Prop :=
  ∀ t, s.txn id = some t →
    t.tradeGroupId = some ((s₀.groupOf id).getD pk) ∨
      t.tradeGroupId = none ∧ (t.orderId = none ∨ t.orderId = s.orders.idOf k)

/-- The order is of the account and in its group. -/
def InGroup (account k : String) (pk : ℕ) (s : InMemoryStore) : Prop :=
  ∃ o, s.getOrder k = some o ∧ o.account = account ∧ o.tradeGroupId = some pk

/-- The rows the lapse step writes are under identifiers of settlements due. -/
theorem settlement_of_mem {s : InMemoryStore} {account : String} {args : ReconcileArgs}
    {rows : List TxnRow} (h : lapseSettlements (linked s account) account args = .ok rows)
    {r : TxnRow} (hr : r ∈ rows) :
    ∃ g sid, SettlementDue s account args g sid ∧ r.ttTransactionId = lapseId account g.pk sid := by
  rw [lapseSettlements_linked] at h
  obtain ⟨g, sid, hg, hne, sec, expiry, points, hl, rfl⟩ := (mem_lapseSettlements s h).mp hr
  exact ⟨g, sid, ⟨hg, hne, sec, expiry, points, hl⟩, rfl⟩

/-- No settlement due is written over a transaction of the order. -/
def SparesOrder (s₀ : InMemoryStore) (k : String) (args : ReconcileArgs) (s : InMemoryStore)
    (account : String) : Prop :=
  ∀ g sid, SettlementDue s account args g sid →
    ¬Names s₀ k (lapseId account g.pk sid) ∧ ¬Names s k (lapseId account g.pk sid)

/-- The order stays in its group, and its transactions are on their way there. -/
structure Pinned (account k : String) (pk : ℕ) (s₀ s : InMemoryStore) : Prop where
  order : InGroup account k pk s
  group : (s.getTradeGroupById pk).isSome = true
  own : ∀ id t, s.txn id = some t → t.ttOrderId = some k → t.account = account
  grouped : ∀ id, (s₀.groupOf id).isSome = true → (s.groupOf id).isSome = true
  bound : ∀ id, Names s k id → BoundFor k pk s₀ s id
  held : ∀ id g, Names s₀ k id → s₀.groupOf id = some g → s.groupOf id = some g

namespace Pinned

variable {account k : String} {pk : ℕ} {s₀ s s' : InMemoryStore}

/-- A step that changes no transaction and leaves the order in its group. -/
theorem of_orders (h : Pinned account k pk s₀ s) (ht : s'.transactions = s.transactions)
    (ho : InGroup account k pk s') (hid : s'.orders.idOf k = s.orders.idOf k)
    (hg : (s'.getTradeGroupById pk).isSome = true) : Pinned account k pk s₀ s' := by
  have htxn : ∀ id, s'.txn id = s.txn id := fun id => by
    rw [InMemoryStore.txn, ht, InMemoryStore.txn]
  have hgroup := groupOf_congr ht
  refine ⟨ho, hg, fun id t h' => h.own id t ((htxn id).symm.trans h'), fun id h' => ?_,
    fun id hn t h' => ?_, fun id g hn h' => ?_⟩
  · rw [hgroup]
    exact h.grouped id h'
  · obtain ⟨t', ht', hk⟩ := hn
    rw [hid]
    exact h.bound id ⟨t', (htxn id).symm.trans ht', hk⟩ t ((htxn id).symm.trans h')
  · rw [hgroup]
    exact h.held id g hn h'

/-- Resolving symbols. -/
theorem of_sameLinks (h : Pinned account k pk s₀ s) (hs : SameLinks s s') :
    Pinned account k pk s₀ s' := by
  apply h.of_orders hs.transactions
  · rw [InGroup, hs.getOrder]
    exact h.order
  · rw [hs.orders]
  · rw [InMemoryStore.getTradeGroupById_congr hs.tradeGroups]
    exact h.group

theorem idOf (h : Pinned account k pk s₀ s) : ∃ i, s.orders.idOf k = some i := by
  obtain ⟨o, ho, -⟩ := h.order
  rw [InMemoryStore.getOrder] at ho
  rw [← Option.isSome_iff_exists, Table.isSome_idOf, ho]
  rfl

/-! ## Orders -/

theorem upsertOrder (h : Pinned account k pk s₀ s) {row : OrderRow} {k' : String}
    (hk' : row.ttOrderId = some k')
    (hrow : k' = k → row.account = account ∧ row.tradeGroupId = some pk) :
    Pinned account k pk s₀ (s.upsertOrder row).2 := by
  obtain ⟨i, hi⟩ := h.idOf
  refine h.of_orders (show (s.upsertOrder row).2.transactions = s.transactions from rfl) ?_ ?_ ?_
  · have hget : (s.upsertOrder row).2.getOrder k =
        if k = k' then some (storedOrder s row) else s.getOrder k := by
      rw [upsertOrder_eq]
      exact Table.getByKey_upsert _ _ ((ttOrderId_storedOrder s row).trans hk') k
    rw [InGroup, hget]
    split
    · rename_i heq
      obtain ⟨hacc, htg⟩ := hrow heq.symm
      refine ⟨storedOrder s row, rfl, (account_storedOrder s row).trans hacc, ?_⟩
      unfold storedOrder
      split
      · rw [InMemoryStore.preserveOrder, htg]
        rfl
      · exact htg
    · exact h.order
  · rw [hi, upsertOrder_eq]
    exact Table.idOf_upsert_of_some hi
  · exact h.group

/-- An import of orders. -/
theorem importOrders (h : Pinned account k pk s₀ s) (resolver : SecurityResolver)
    (placedOrders : List PlacedOrder) {account' : String}
    (hown : ∀ po ∈ placedOrders, po.id = k → account' = account) :
    Pinned account k pk s₀
      (exec (OrderRepository.upsertFromHistory resolver placedOrders account') s).2 := by
  obtain ⟨s₁, hsame, hrun | ⟨rows, hrun, hrows⟩⟩ :=
    upsertFromHistory_cases s resolver placedOrders account'
  · rw [hrun]
    exact h.of_sameLinks hsame
  · rw [hrun]
    obtain ⟨o, ho, hacc, htg⟩ := h.order
    apply InMemoryStore.upsertOrders_induction (P := Pinned account k pk s₀) s₁ rows
      (h.of_sameLinks hsame)
    intro row hrow s' hs'
    obtain ⟨po, hpo, hbuilt⟩ := hrows row hrow
    refine hs'.upsertOrder hbuilt.id fun hid => ?_
    -- the row built for the order is in the group the order was read in
    obtain ⟨htg', hacc'⟩ := hbuilt.known o (hid ▸ ho)
    refine ⟨?_, htg'.trans htg⟩
    rw [hacc']
    split
    · exact hacc
    · exact hown po hpo hid

/-- A fill of the stream. -/
theorem applyFill (h : Pinned account k pk s₀ s) (evt : FillEvent) :
    Pinned account k pk s₀ (exec (applyFillEvent evt) s).2 := by
  unfold applyFillEvent
  rw [exec_bind (exec_getOrder s evt.ttOrderId)]
  cases ho : s.getOrder evt.ttOrderId with
  | none => exact h
  | some existing =>
    simp only []
    rw [exec_bind (exec_upsertOrders s _)]
    have hkey : existing.ttOrderId = some evt.ttOrderId := (Table.getByKey_eq_some.mp ho).2
    refine h.upsertOrder (show (evt.apply existing).ttOrderId = _ from hkey) fun hid => ?_
    obtain ⟨o, ho', hacc, htg⟩ := h.order
    obtain rfl := Option.some.inj (ho.symm.trans (hid ▸ ho'))
    exact ⟨hacc, htg⟩

/-! ## Transactions -/

/-- The group and the order of a transaction after an import: those it had. -/
theorem links_written {r : TxnRow} (hg : r.tradeGroupId = none) (ho : r.orderId = none) :
    (written s r).tradeGroupId = (s.txn r.ttTransactionId).bind TxnRow.tradeGroupId ∧
      (written s r).orderId = (s.txn r.ttTransactionId).bind TxnRow.orderId ∧
        (written s r).ttOrderId = r.ttOrderId ∧ (written s r).account = r.account := by
  unfold written
  split
  · rename_i t ht
    rw [ht, InMemoryStore.preserveTransaction, hg, ho]
    exact ⟨rfl, rfl, rfl, rfl⟩
  · rename_i ht
    rw [ht, hg, ho]
    exact ⟨rfl, rfl, rfl, rfl⟩

theorem groupOf_upsertTransaction {r : TxnRow} (hg : r.tradeGroupId = none)
    (ho : r.orderId = none) (id : String) :
    (s.upsertTransaction r).groupOf id = s.groupOf id := by
  rw [InMemoryStore.groupOf, txn_upsertTransaction]
  split
  · rename_i hid
    rw [Option.bind_some, (links_written hg ho).1, hid, InMemoryStore.groupOf]
  · rfl

/-- A row without links leaves every transaction bound that was. -/
theorem boundFor_upsertTransaction {r : TxnRow} (hg : r.tradeGroupId = none)
    (ho : r.orderId = none) {id : String} (h : BoundFor k pk s₀ s id) :
    BoundFor k pk s₀ (s.upsertTransaction r) id := by
  intro t ht
  rw [txn_upsertTransaction] at ht
  split at ht
  · rename_i hid
    obtain rfl := Option.some.inj ht
    obtain ⟨hwg, hwo, -⟩ := links_written (s := s) hg ho
    rw [hwg, hwo, ← hid]
    cases hold : s.txn id with
    | none => exact Or.inr ⟨rfl, Or.inl rfl⟩
    | some t => exact h t hold
  · exact h t ht

theorem upsertTransaction (h : Pinned account k pk s₀ s) {r : TxnRow}
    (hg : r.tradeGroupId = none) (ho : r.orderId = none)
    (hk : r.ttOrderId = some k → r.account = account ∧ BoundFor k pk s₀ s r.ttTransactionId) :
    Pinned account k pk s₀ (s.upsertTransaction r) := by
  obtain ⟨-, -, hname, hacc⟩ := links_written (s := s) hg ho
  refine ⟨h.order, h.group, fun id t ht htk => ?_, fun id h' => ?_, fun id hn => ?_,
    fun id g hn h' => ?_⟩
  · rw [txn_upsertTransaction] at ht
    split at ht
    · obtain rfl := Option.some.inj ht
      exact hacc.trans (hk (hname.symm.trans htk)).1
    · exact h.own id t ht htk
  · rw [groupOf_upsertTransaction hg ho]
    exact h.grouped id h'
  · apply boundFor_upsertTransaction hg ho
    obtain ⟨t, ht, htk⟩ := hn
    rw [txn_upsertTransaction] at ht
    split at ht
    · rename_i hid
      obtain rfl := Option.some.inj ht
      rw [hid]
      exact (hk (hname.symm.trans htk)).2
    · exact h.bound id ⟨t, ht, htk⟩
  · rw [groupOf_upsertTransaction hg ho]
    exact h.held id g hn h'

/-- An import of transactions. -/
theorem importTransactions (h : Pinned account k pk s₀ s) (resolver : SecurityResolver)
    (txns : List BrokerTransaction) {account' : String} (sourceSystem : String)
    (hown : ∀ b ∈ txns, b.orderId = some k → account' = account ∧ BoundFor k pk s₀ s b.id) :
    Pinned account k pk s₀
      (exec (TransactionRepository.upsert resolver txns account' sourceSystem) s).2 := by
  obtain ⟨s₁, hsame, hrun | ⟨rows, hrun, hrows⟩⟩ :=
    upsertTransactions_cases s resolver txns account' sourceSystem
  · rw [hrun]
    exact h.of_sameLinks hsame
  · rw [hrun]
    have hown₁ : ∀ b ∈ txns, b.orderId = some k → account' = account ∧
        BoundFor k pk s₀ s₁ b.id := by
      intro b hb hbk
      refine ⟨(hown b hb hbk).1, fun t ht => ?_⟩
      rw [hsame.orders]
      exact (hown b hb hbk).2 t ((hsame.txn b.id).symm.trans ht)
    have hall : ∀ (rows : List TxnRow) (s : InMemoryStore), Pinned account k pk s₀ s →
        (∀ b ∈ txns, b.orderId = some k → account' = account ∧ BoundFor k pk s₀ s b.id) →
        (∀ r ∈ rows, ∃ b ∈ txns, ∃ securityId, r = txnRow account' sourceSystem securityId b) →
        Pinned account k pk s₀ (s.upsertTransactions rows) := by
      intro rows
      induction rows with
      | nil => exact fun s h _ _ => h
      | cons r rows ih =>
        intro s h hown hrows
        obtain ⟨b, hb, sid, rfl⟩ := hrows r (by simp)
        refine ih _ (h.upsertTransaction rfl rfl fun hk => hown b hb hk) (fun b' hb' hk => ?_)
          fun r' hr' => hrows r' (.tail _ hr')
        exact ⟨(hown b' hb' hk).1, boundFor_upsertTransaction rfl rfl (hown b' hb' hk).2⟩
    exact hall rows s₁ (h.of_sameLinks hsame) hown₁ hrows

/-! ## Passes -/

section Passes

variable {account' : String} {args : ReconcileArgs}

/-- The link step gives a transaction that names the order no other order. -/
theorem orderId_linkRow (s : InMemoryStore) (account' : String) {t : TxnRow}
    (hk : t.ttOrderId = some k) :
    (linkRow s account' t).orderId = t.orderId ∨
      (linkRow s account' t).orderId = s.orders.idOf k := by
  unfold linkRow
  split
  · rename_i hlinks
    right
    simp only [InMemoryStore.linksTransaction, Bool.and_eq_true] at hlinks
    obtain ⟨i, hi⟩ := Option.isSome_iff_exists.mp hlinks.2
    show s.orderOf account' t = _
    unfold InMemoryStore.orderOf at hi ⊢
    simp only [hk] at hi ⊢
    cases hget : s.orders.getByKey k with
    | none =>
      rw [hget] at hi
      cases hi
    | some o =>
      rw [hget] at hi
      simp only [] at hi ⊢
      split at hi
      · rename_i hacc
        exact if_pos hacc
      · cases hi
  · exact Or.inl rfl

/-- The link steps. -/
theorem links (h : Pinned account k pk s₀ s) (account' : String) :
    Pinned account k pk s₀ (linked s account') := by
  have hid : (linked s account').orders.idOf k = s.orders.idOf k := by
    rw [orders_linked, Table.idOf_modify]
  refine ⟨?_, h.group, fun id t ht hk => ?_, fun id h' => ?_, fun id hn t ht => ?_,
    fun id g hn h' => ?_⟩
  · obtain ⟨o, ho, hacc, htg⟩ := h.order
    rw [InMemoryStore.getOrder] at ho
    refine ⟨linkOrderRow (s.linkTransactionsToOrders account').2 account' o, ?_, hacc, ?_⟩
    · rw [InMemoryStore.getOrder, orders_linked, Table.getByKey_modify, ho]
      rfl
    · rw [linkOrderRow, htg]
      rfl
  · rw [txn_linked] at ht
    obtain ⟨t₀, ht₀, rfl⟩ := Option.map_eq_some_iff.mp ht
    rw [linkRow_account]
    exact h.own id t₀ ht₀ ((linkRow_ttOrderId t₀).symm.trans hk)
  · rw [groupOf_linked]
    exact h.grouped id h'
  · rw [txn_linked] at ht
    obtain ⟨t₀, ht₀, rfl⟩ := Option.map_eq_some_iff.mp ht
    obtain ⟨t₁, ht₁, hk⟩ := names_linked.mp hn
    obtain rfl := Option.some.inj (ht₀.symm.trans ht₁)
    rw [linkRow_group, hid]
    refine (h.bound id ⟨_, ht₀, hk⟩ _ ht₀).imp_right fun hfree => ⟨hfree.1, ?_⟩
    rcases orderId_linkRow s account' hk with hsame | hlinked
    · rw [hsame]
      exact hfree.2
    · exact Or.inr hlinked
  · rw [groupOf_linked]
    exact h.held id g hn h'

/-- After the link steps, what the order's account has to route under it is linked to it. -/
theorem orderId_of_links (h : Pinned account k pk s₀ s) {id : String} {t : TxnRow}
    (ht : (linked s account).txn id = some t) (hk : t.ttOrderId = some k)
    (hfree : t.tradeGroupId = none) :
    t.orderId = (linked s account).orders.idOf k := by
  have hor := (h.links account).bound id ⟨t, ht, hk⟩ t ht
  rw [hfree] at hor
  rcases (hor.resolve_left (by simp)).2 with hnone | hid
  · -- an unlinked row would have been linked
    obtain ⟨o, ho, hacc, -⟩ := h.order
    obtain ⟨i, hi⟩ := h.idOf
    rw [txn_linked] at ht
    obtain ⟨t₀, ht₀, rfl⟩ := Option.map_eq_some_iff.mp ht
    rw [linkRow_ttOrderId] at hk
    have horder : s.orderOf account t₀ = some i := by
      rw [InMemoryStore.getOrder] at ho
      unfold InMemoryStore.orderOf
      simp only [hk, ho, hacc, if_true, hi]
    unfold linkRow at hnone
    split at hnone
    · rw [horder] at hnone
      cases hnone
    · rename_i hnot
      exact absurd (by
        simp [InMemoryStore.linksTransaction, h.own id t₀ ht₀ hk, hnone, horder]) hnot
  · exact hid

/-- The lapse step. -/
theorem lapses (h : Pinned account k pk s₀ (linked s account')) (hdry : args.dryRun = false)
    (hspare : SparesOrder s₀ k args s account') {rows : List TxnRow}
    (hdue : lapseSettlements (linked s account') account' args = .ok rows) :
    Pinned account k pk s₀ (lapsedState s account' args rows) := by
  have horders : (lapsedState s account' args rows).orders = (linked s account').orders :=
    orders_lapsed _ _ _ _
  have hkept : ∀ id t, (lapsedState s account' args rows).txn id = some t →
      t.ttOrderId = some k → (linked s account').txn id = some t :=
    fun _ _ => txn_of_lapsedState hdry hdue
  refine ⟨?_, ?_, fun id t ht hk => h.own id t (hkept id t ht hk) hk, fun id h' => ?_,
    fun id hn t ht => ?_, fun id g hn h' => ?_⟩
  · rw [InGroup, InMemoryStore.getOrder, horders]
    exact h.order
  · rw [isSome_getTradeGroupById_lapsedState]
    exact h.group
  · exact isSome_groupOf_lapsedState hdry hdue (h.grouped id h')
  · obtain ⟨t', ht', hk⟩ := hn
    obtain rfl := Option.some.inj (ht.symm.trans ht')
    rw [horders]
    exact h.bound id ⟨t, hkept id t ht hk, hk⟩ t (hkept id t ht hk)
  · have hid : id ∉ rows.map TxnRow.ttTransactionId := by
      intro hmem
      obtain ⟨r, hr, rfl⟩ := List.mem_map.mp hmem
      obtain ⟨g', sid, hdue', hrid⟩ := settlement_of_mem hdue hr
      exact (hspare g' sid hdue').1 (hrid ▸ hn)
    rw [InMemoryStore.groupOf, txn_lapsedState_of_notMem hdry hdue hid]
    exact h.held id g hn h'

/-- The transactions that name the order and are to be routed are linked to it. -/
def LinkedFor (account k : String) (s : InMemoryStore) : Prop :=
  ∀ id t, s.txn id = some t → t.ttOrderId = some k → t.account = account →
    t.tradeGroupId = none → t.orderId = s.orders.idOf k

/-- A candidate that names the order is pre-attributed to its group. -/
theorem orderTradeGroupId_candidate (h : Pinned account k pk s₀ s)
    (hlinked : LinkedFor account' k s) {a : ActivityRow}
    (ha : a ∈ candidatesOf s account' args) (hk : a.ttOrderId = some k) :
    a.orderTradeGroupId = some pk := by
  obtain ⟨t, ht, hacc, -, hc, rfl⟩ := (mem_candidatesOf s account' args).mp ha
  obtain ⟨i, hi⟩ := h.idOf
  obtain ⟨o, ho, -, htg⟩ := h.order
  have hid : t.orderId = some i :=
    (hlinked _ t ht hk hacc (TxnRow.group_of_isUnrouted hc)).trans hi
  show ((t.orderId.bind s.orders.get).bind OrderRow.tradeGroupId) = some pk
  rw [hid, Option.bind_some, Table.get_of_idOf hi]
  rw [InMemoryStore.getOrder] at ho
  rw [ho, Option.bind_some, htg]

/-- The cluster loop. -/
theorem routes (h : Pinned account k pk s₀ s) (hdry : args.dryRun = false)
    (hlinked : LinkedFor account' k s) :
    Pinned account k pk s₀ (routeLoop s account' args).2 := by
  have hattach := attaches_routeLoop s account' args hdry
  have hcandidate : ∀ a ∈ candidatesOf s account' args, a.ttOrderId = some k →
      a.orderTradeGroupId = some pk := fun a ha hk => h.orderTradeGroupId_candidate hlinked ha hk
  have hbefore : ∀ id t', (routeLoop s account' args).2.txn id = some t' → ∃ t,
      s.txn id = some t ∧ t.ttOrderId = t'.ttOrderId ∧ t.account = t'.account :=
    fun _ _ => hattach.txn_before
  have hgrouped : ∀ id, (s₀.groupOf id).isSome = true →
      id ∉ idsOf (candidatesOf s account' args) := by
    intro id h' hmem
    have := h.grouped id h'
    rw [groupOf_candidate s account' args hmem] at this
    cases this
  refine ⟨?_, hattach.keeps pk h.group, fun id t' ht' hk => ?_, fun id h' => ?_,
    fun id hn t' ht' => ?_, fun id g hn h' => ?_⟩
  · rw [InGroup, getOrder_routeLoop hdry fun a ha hk => ⟨pk, hcandidate a ha hk, h.group⟩]
    exact h.order
  · obtain ⟨t, ht, hname, hacc⟩ := hbefore id t' ht'
    exact hacc.symm.trans (h.own id t ht (hname.trans hk))
  · rw [hattach.groupOf_of_notMem (hgrouped id h')]
    exact h.grouped id h'
  · obtain ⟨t₁, ht₁, hk⟩ := hn
    obtain rfl := Option.some.inj (ht'.symm.trans ht₁)
    obtain ⟨t, ht, hname, -⟩ := hbefore id t' ht'
    by_cases hmem : id ∈ idsOf (candidatesOf s account' args)
    · -- routed now: into the order's group
      obtain ⟨a, ha, rfl⟩ := List.mem_map.mp hmem
      obtain ⟨t₂, ht₂, -, -, -, rfl⟩ := (mem_candidatesOf s account' args).mp ha
      obtain rfl := Option.some.inj (ht.symm.trans ht₂)
      have hgroup := groupOf_routeLoop_of_intent hdry ha
        (hcandidate _ ha (hname.trans hk)) h.group
      rw [InMemoryStore.groupOf, ht', Option.bind_some] at hgroup
      have hnew : s₀.groupOf (s.activityRow t).ttTransactionId = none := by
        rw [← Option.not_isSome_iff_eq_none]
        exact fun h' => hgrouped _ h' hmem
      rw [hnew]
      exact Or.inl hgroup
    · rw [hattach.txn_of_notMem hmem] at ht'
      rw [(sameOrders_routeLoop s account' args hdry k).1]
      exact h.bound id ⟨t', ht', hk⟩ t' ht'
  · rw [hattach.groupOf_of_notMem (hgrouped id (by rw [h']; rfl))]
    exact h.held id g hn h'

/-- A pass over any account. -/
theorem pass (h : Pinned account k pk s₀ s) (hspare : SparesOrder s₀ k args s account') :
    Pinned account k pk s₀ (passed args s account') := by
  by_cases hw : args.dryRun = false ∧ ErrorFree s account' args
  · obtain ⟨rows, loop, events, hrun⟩ := passRun s account' args hw.1 hw.2
    have hlapsed := (h.links account').lapses hw.1 hspare hrun.due
    have hlinked : LinkedFor account' k (lapsedState s account' args rows) := by
      intro id t ht hk hacc hfree
      have hkept := txn_of_lapsedState hw.1 hrun.due ht hk
      obtain rfl := hacc.symm.trans (hlapsed.own id t ht hk)
      rw [h.orderId_of_links hkept hk hfree]
      exact congrArg (·.idOf k) (orders_lapsed _ _ _ _).symm
    have hloop := hlapsed.routes hw.1 hlinked
    rw [hrun.routed] at hloop
    have horders : (passed args s account').orders = loop.2.orders := by
      rw [passed, hrun.result, orders_healed, InMemoryStore.orders_addEvents]
    refine hloop.of_orders (hrun.transactions_after) ?_ (by rw [horders])
      (hrun.keeps_group hw.1 hlapsed.group)
    rw [InGroup, InMemoryStore.getOrder, horders]
    exact hloop.order
  · rw [passed_of_not_writes s args hw]
    exact h.links account'

/-- **A pass over the order's whole account routes every transaction of it.** -/
theorem isSome_groupOf_pass (h : Pinned account k pk s₀ s)
    (hspare : SparesOrder s₀ k args s account) (hdry : args.dryRun = false)
    (hsince : args.since = none) (herrors : ErrorFree s account args) {id : String}
    (hn : Names (passed args s account) k id) :
    ((passed args s account).groupOf id).isSome = true := by
  obtain ⟨rows, loop, events, hrun⟩ := passRun s account args hdry herrors
  have hlapsed := (h.links account).lapses hdry hspare hrun.due
  obtain ⟨t', ht', hk⟩ := hn
  rw [InMemoryStore.txn, passed, hrun.transactions_after] at ht'
  obtain ⟨t, ht, hname, -⟩ := (hrun.attaches hdry).txn_before ht'
  have hkt := hname.trans hk
  rw [passed, groupOf_congr hrun.transactions_after]
  cases hfree : t.tradeGroupId with
  | some pk' =>
    apply (hrun.attaches hdry).isSome_groupOf
    rw [InMemoryStore.groupOf, ht, Option.bind_some, hfree]
    rfl
  | none =>
    -- ungrouped and linked: a candidate
    obtain ⟨i, hi⟩ := (h.links account).idOf
    have hkept := txn_of_lapsedState hdry hrun.due ht hkt
    have horder : t.orderId = some i := (h.orderId_of_links hkept hkt hfree).trans hi
    have hmem : id ∈ idsOf (candidatesOf (lapsedState s account args rows) account args) := by
      refine (mem_idsOf_candidatesOf _ account args).mpr
        ⟨t, ht, hlapsed.own id t ht hkt, ?_, ?_⟩
      · rw [hsince]
        cases t.executedAt <;> rfl
      · simp [TxnRow.isUnrouted, hfree, horder]
    obtain ⟨pk', hpk', -⟩ := (hrun.attaches hdry).txn_of_mem hmem ht
    rw [InMemoryStore.groupOf, hpk']
    rfl

end Passes

end Pinned

end TtLedger
