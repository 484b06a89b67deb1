import TtLedger.Ingest.ReadOnly
import TtLedger.Ingest.Membership
import TtLedger.Repositories

/-!
# What the importers write

An import resolves its symbols first, which writes securities and may raise, and then upserts its
rows in one call. `Resolves p s Φ` says that `p` leaves orders, transactions and groups alone,
whatever calls fail, and ends in `Φ` when it returns; the rows upserted are those built from the
broker's records (`upsertFromHistory_cases`, `upsertTransactions_cases`).
-/

namespace TtLedger

open LedgerStore Prog

/-- The orders, transactions and groups are the same. -/
structure SameLinks (s s' : InMemoryStore) : Prop where
  orders : s'.orders = s.orders
  transactions : s'.transactions = s.transactions
  tradeGroups : s'.tradeGroups = s.tradeGroups

namespace SameLinks

variable {s s' s'' : InMemoryStore}

theorem refl (s : InMemoryStore) : SameLinks s s := ⟨rfl, rfl, rfl⟩

theorem trans (h : SameLinks s s') (h' : SameLinks s' s'') : SameLinks s s'' :=
  ⟨h'.orders.trans h.orders, h'.transactions.trans h.transactions,
    h'.tradeGroups.trans h.tradeGroups⟩

theorem getOrder (h : SameLinks s s') (k : String) : s'.getOrder k = s.getOrder k := by
  rw [InMemoryStore.getOrder, h.orders, InMemoryStore.getOrder]

theorem txn (h : SameLinks s s') (id : String) : s'.txn id = s.txn id := by
  rw [InMemoryStore.txn, h.transactions, InMemoryStore.txn]

end SameLinks

instance : IsTrans InMemoryStore SameLinks where
  trans _ _ _ := SameLinks.trans

/-- Whatever calls fail, the links stay the same, and a run that returns ends in `Φ`. -/
def Resolves {α : Type} (p : LedgerProg α) (s : InMemoryStore) (Φ : α → InMemoryStore → Prop) :
    Prop :=
  Triple memory.faulty (fun _ _ => True) SameLinks p s Φ

namespace Resolves

variable {α β : Type} {s : InMemoryStore}

theorem pure {a : α} {Φ : α → InMemoryStore → Prop} (hΦ : Φ a s) :
    Resolves (Pure.pure a : LedgerProg α) s Φ := Triple.pure (.refl s) hΦ

theorem bind {p : LedgerProg α} {f : α → LedgerProg β} {Φ : α → InMemoryStore → Prop}
    {Ψ : β → InMemoryStore → Prop} (hp : Resolves p s Φ)
    (hf : ∀ a s', SameLinks s s' → Φ a s' → Resolves (f a) s' Ψ) : Resolves (p >>= f) s Ψ :=
  Triple.bind hp hf

theorem foldlM {f : β → α → LedgerProg β} {l : List α} (I : β → InMemoryStore → Prop)
    (step : ∀ b, ∀ a ∈ l, ∀ s', I b s' → Resolves (f b a) s' I) {b : β} (hI : I b s) :
    Resolves (l.foldlM f b) s I :=
  Triple.foldlM I (fun b a ha s' _ hb => step b a ha s' hb) (fun s' _ => .refl s') (.refl s) hI

/-- The run of a resolving program. -/
theorem run {p : LedgerProg α} {Φ : α → InMemoryStore → Prop} (hp : Resolves p s Φ) :
    SameLinks s (exec p s).2 ∧ ∀ a, (exec p s).1 = .ok a → Φ a (exec p s).2 :=
  Guarded.of_runs hp (runs_run memory p s).faulty

end Resolves

/-! ## Symbols -/

variable {s : InMemoryStore}

theorem resolves_resolveSecurity (resolver : SecurityResolver) (seen : List String)
    (symbol : String) (instrumentType : Option String) :
    Resolves (resolveSecurity resolver seen symbol instrumentType) s fun _ _ => True := by
  unfold resolveSecurity
  refine ReadOnly.triple_bind (Direct.ofExcept _) (fun _ _ _ => trivial) (.refl s)
    fun resolved _ => ?_
  split
  · exact Resolves.pure trivial
  · refine Resolves.bind (Φ := fun _ _ => True) ?_ fun _ _ _ _ => Resolves.pure trivial
    exact Triple.invoke trivial rfl (.refl s) ⟨rfl, rfl, rfl⟩ trivial

theorem resolves_resolveLegs (resolver : SecurityResolver) (seen : List String)
    (legs : List PlacedLeg) :
    Resolves (OrderRepository.resolveLegs resolver seen legs) s fun _ _ => True :=
  Resolves.foldlM _ (fun w leg _ _ _ =>
    (resolves_resolveSecurity resolver w.1 leg.symbol (some leg.instrumentType)).bind
      fun _ _ _ _ => Resolves.pure trivial) trivial

/-- The orders resolved are those asked for. -/
theorem resolves_resolveOrders (resolver : SecurityResolver) (placedOrders : List PlacedOrder) :
    Resolves (OrderRepository.resolveOrders resolver placedOrders) s fun w _ =>
      ∀ p ∈ w.2, p.1 ∈ placedOrders := by
  refine Resolves.foldlM (fun (w : List String × List (PlacedOrder × Option String)) _ =>
    ∀ p ∈ w.2, p.1 ∈ placedOrders) (fun w po hpo s' hw => ?_) (by simp)
  refine (resolves_resolveLegs resolver w.1 po.legs).bind fun r s'' _ _ => ?_
  refine Resolves.pure fun p hp => ?_
  rcases List.mem_append.mp hp with hp | hp
  · exact hw p hp
  · rw [List.mem_singleton.mp hp]
    exact hpo

/-- The rows resolved are those of the transactions asked for. -/
theorem resolves_addRows (resolver : SecurityResolver) (txns : List BrokerTransaction)
    (account sourceSystem : String) :
    Resolves (txns.foldlM (TransactionRepository.addRow resolver account sourceSystem) ([], [])) s
      fun w _ => ∀ r ∈ w.2, ∃ b ∈ txns, ∃ securityId,
        r = txnRow account sourceSystem securityId b := by
  refine Resolves.foldlM (fun (w : List String × List TxnRow) _ => ∀ r ∈ w.2, ∃ b ∈ txns,
    ∃ securityId, r = txnRow account sourceSystem securityId b) (fun w b hb s' hw => ?_) (by simp)
  have happend : ∀ (seen : List String) (securityId : Option String),
      ∀ r ∈ w.2 ++ [txnRow account sourceSystem securityId b], ∃ b ∈ txns, ∃ securityId,
        r = txnRow account sourceSystem securityId b := by
    intro seen securityId r hr
    rcases List.mem_append.mp hr with hr | hr
    · exact hw r hr
    · exact ⟨b, hb, securityId, List.mem_singleton.mp hr⟩
  unfold TransactionRepository.addRow
  split
  · exact (resolves_resolveSecurity resolver w.1 _ b.instrumentType).bind fun r _ _ _ =>
      Resolves.pure (happend r.2 (some r.1))
  · exact Resolves.pure (happend w.1 none)

/-! ## Orders -/

theorem readOnly_buildOrderRow (account : String) (securityId : Option String) (po : PlacedOrder) :
    ReadOnly (OrderRepository.buildOrderRow account securityId po) := by
  refine (Direct.invoke.mpr trivial).bind fun existing => ?_
  split
  · split
    · exact Direct.pure _
    · exact Direct.pure _
  · exact Direct.pure _

/-- The row is built from a broker order: an order the host submitted stays of its account, any
other is of the importing one, and a known order keeps its group. -/
structure BuiltRow (s : InMemoryStore) (account : String) (po : PlacedOrder) (row : OrderRow) :
    Prop where
  id : row.ttOrderId = some po.id
  new : s.getOrder po.id = none → row.account = account ∧ row.tradeGroupId = none
  known : ∀ o, s.getOrder po.id = some o → row.tradeGroupId = o.tradeGroupId ∧
    row.account = if o.origin = .zts then o.account else account

theorem builtRow_buildOrderRow {account : String} {securityId : Option String} {po : PlacedOrder}
    {row : OrderRow}
    (hrun : exec (OrderRepository.buildOrderRow account securityId po) s = (.ok row, s)) :
    BuiltRow s account po row := by
  unfold OrderRepository.buildOrderRow at hrun
  rw [exec_bind (exec_getOrder s po.id)] at hrun
  cases ho : s.getOrder po.id with
  | none =>
    rw [ho] at hrun
    obtain rfl := Except.ok.inj (congrArg Prod.fst hrun)
    refine ⟨rfl, fun _ => ⟨rfl, rfl⟩, fun o ho' => ?_⟩
    rw [ho] at ho'
    cases ho'
  | some o =>
    rw [ho] at hrun
    have hkey : o.ttOrderId = some po.id := (Table.getByKey_eq_some.mp ho).2
    have hrow : row.ttOrderId = some po.id ∧ row.tradeGroupId = o.tradeGroupId ∧
        row.account = if o.origin = .zts then o.account else account := by
      simp only [] at hrun
      split at hrun
      · rename_i hzts
        obtain rfl := Except.ok.inj (congrArg Prod.fst hrun)
        exact ⟨hkey, rfl, (if_pos hzts).symm⟩
      · rename_i hbroker
        obtain rfl := Except.ok.inj (congrArg Prod.fst hrun)
        exact ⟨rfl, rfl, (if_neg hbroker).symm⟩
    refine ⟨hrow.1, fun hnone => ?_, fun o' ho' => ?_⟩
    · rw [ho] at hnone
      cases hnone
    · obtain rfl := Option.some.inj (ho.symm.trans ho')
      exact hrow.2

theorem BuiltRow.congr {s' : InMemoryStore} {account : String} {po : PlacedOrder} {row : OrderRow}
    (h : SameLinks s s') (hrow : BuiltRow s' account po row) : BuiltRow s account po row := by
  have horder := h.getOrder po.id
  exact ⟨hrow.id, fun hnone => hrow.new (horder.trans hnone),
    fun o ho => hrow.known o (horder.trans ho)⟩

variable (s)

/-- **An import of orders** upserts rows built from the broker's orders, unless a symbol does not
resolve. -/
theorem upsertFromHistory_cases (resolver : SecurityResolver) (placedOrders : List PlacedOrder)
    (account : String) :
    ∃ s₁, SameLinks s s₁ ∧
      ((exec (OrderRepository.upsertFromHistory resolver placedOrders account) s).2 = s₁ ∨
        ∃ rows, (exec (OrderRepository.upsertFromHistory resolver placedOrders account) s).2 =
            (s₁.upsertOrders rows).2 ∧
          ∀ row ∈ rows, ∃ po ∈ placedOrders, BuiltRow s account po row) := by
  unfold OrderRepository.upsertFromHistory
  split
  · exact ⟨s, .refl s, Or.inl rfl⟩
  · obtain ⟨hsame, hmem⟩ := (resolves_resolveOrders (s := s) resolver placedOrders).run
    cases hres : exec (OrderRepository.resolveOrders resolver placedOrders) s with
    | mk x s₁ =>
      rw [hres] at hsame hmem
      refine ⟨s₁, hsame, ?_⟩
      cases x with
      | error e =>
        rw [exec_bind_error hres]
        exact Or.inl rfl
      | ok w =>
        rw [exec_bind hres]
        have hread : ∀ p ∈ w.2, ReadOnly (OrderRepository.buildOrderRow account p.2 p.1) :=
          fun p _ => readOnly_buildOrderRow account p.2 p.1
        have hstate : (exec (w.2.mapM fun p =>
            OrderRepository.buildOrderRow account p.2 p.1) s₁).2 = s₁ :=
          (Guarded.of_runs (ReadOnly.guarded (Direct.mapM hread)
            (C := fun _ _ => True) (fun _ _ _ => trivial) s₁) (runs_run memory _ s₁).faulty).1
        cases hrows : exec (w.2.mapM fun p => OrderRepository.buildOrderRow account p.2 p.1) s₁ with
        | mk y s₂ =>
          rw [hrows] at hstate
          obtain rfl : s₂ = s₁ := hstate
          cases y with
          | error e =>
            rw [exec_bind_error hrows]
            exact Or.inl rfl
          | ok rows =>
            rw [exec_bind hrows, exec_bind (exec_upsertOrders _ rows)]
            refine Or.inr ⟨rows, rfl, fun row hrow => ?_⟩
            obtain ⟨p, hp, hrun⟩ := ReadOnly.of_mem_mapM hread hrows hrow
            exact ⟨p.1, hmem w rfl p hp, .congr hsame (builtRow_buildOrderRow hrun)⟩

/-! ## Transactions -/

/-- **An import of transactions** upserts their rows, unless a symbol does not resolve. -/
theorem upsertTransactions_cases (resolver : SecurityResolver) (txns : List BrokerTransaction)
    (account sourceSystem : String) :
    ∃ s₁, SameLinks s s₁ ∧
      ((exec (TransactionRepository.upsert resolver txns account sourceSystem) s).2 = s₁ ∨
        ∃ rows, (exec (TransactionRepository.upsert resolver txns account sourceSystem) s).2 =
            s₁.upsertTransactions rows ∧
          ∀ r ∈ rows, ∃ b ∈ txns, ∃ securityId,
            r = txnRow account sourceSystem securityId b) := by
  unfold TransactionRepository.upsert
  split
  · exact ⟨s, .refl s, Or.inl rfl⟩
  · obtain ⟨hsame, hrows⟩ :=
      (resolves_addRows (s := s) resolver txns account sourceSystem).run
    cases hres : exec (txns.foldlM (TransactionRepository.addRow resolver account sourceSystem)
        ([], [])) s with
    | mk x s₁ =>
      rw [hres] at hsame hrows
      refine ⟨s₁, hsame, ?_⟩
      cases x with
      | error e =>
        rw [exec_bind_error hres]
        exact Or.inl rfl
      | ok w =>
        rw [exec_bind hres, exec_bind (exec_upsertTransactions _ w.2)]
        exact Or.inr ⟨w.2, rfl, hrows w rfl⟩

end TtLedger
