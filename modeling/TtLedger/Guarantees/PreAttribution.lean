import TtLedger.Guarantees.Pinned
import TtLedger.Sdk

/-!
# Pre-attributed orders

An order linked to a group before its fills are routed stays in it, and its fills follow
(`preAttributed_of_undisturbed`): the state in which a command has linked the order
(`LinkedBy`) is pinned, and the commands that follow keep it so (`Pinned.execAll`).

Two things disturb it. A transaction already linked to another order stays linked to it when it is
imported again under `k`, is routed as that order's, and the group opened for it is stamped on `k`
(`not_preAttributed`); and a settlement due may be written over a transaction of the order.
-/

namespace TtLedger

open LedgerStore

/-! ## Linking the order -/

/-- The order is linked to a new group or to the target: `linkOrderToGroup` up to its pass. -/
def linkOrder (order : OrderRow) (ttOrderId : String) (targetGroupId : Option String)
    (reviewedBy : String) : LedgerProg ℕ := do
  let at_ ← now
  let groupPk ← linkTarget order ttOrderId targetGroupId reviewedBy at_
  let _ ← upsertOrders [{ order with tradeGroupId := some groupPk }]
  addTradeGroupEvent (adjustment groupPk at_ ("order " ++ ttOrderId ++ " linked by " ++ reviewedBy))
  pure groupPk

/-- The command links the order to the group: the state in which it has done so, and what it does
from there. -/
inductive LinkedBy (account k : String) (pk : ℕ) (s : InMemoryStore) :
    Command → InMemoryStore → List Command → Prop
  | recordOrder {resolver : SecurityResolver} {order : OrderInput} {g : String}
      (hid : order.ttOrderId = some k) (hacc : order.account = account)
      (hgroup : order.tradeGroup = some g) (hpk : s.getTradeGroupId g = some pk) :
      LinkedBy account k pk s (.recordOrder resolver order)
        (exec (recordOrder resolver order) s).2 []
  | linkOrderToGroup {order : OrderRow} {targetGroupId : Option String} {reviewedBy : String}
      {s' : InMemoryStore} (ho : s.getOrder k = some order) (hacc : order.account = account)
      (hfree : order.tradeGroupId = none)
      (hrun : exec (linkOrder order k targetGroupId reviewedBy) s = (.ok pk, s')) :
      LinkedBy account k pk s (.linkOrderToGroup k targetGroupId reviewedBy) s'
        [.reconcile (some account) {}]

/-- Every transaction of the order is the account's. -/
def OwnTransactions (account k : String) (s : InMemoryStore) : Prop :=
  ∀ id t, s.txn id = some t → t.ttOrderId = some k → t.account = account

/-- A transaction of the order that is still to be routed is linked to no other order. -/
def FreeTransactions (k : String) (s : InMemoryStore) : Prop :=
  ∀ id t, s.txn id = some t → t.ttOrderId = some k → t.tradeGroupId = none →
    t.orderId = none ∨ t.orderId = s.orders.idOf k

section Link

variable {account k : String} {pk : ℕ} {s s' : InMemoryStore}

/-- The state in which the order has been linked. -/
theorem Pinned.start (hown : OwnTransactions account k s) (hfree : FreeTransactions k s)
    (ht : s'.transactions = s.transactions) (ho : InGroup account k pk s')
    (hid : ∀ i, s.orders.idOf k = some i → s'.orders.idOf k = some i)
    (hg : (s'.getTradeGroupById pk).isSome = true) : Pinned account k pk s s' := by
  have htxn : ∀ id, s'.txn id = s.txn id := fun id => by
    rw [InMemoryStore.txn, ht, InMemoryStore.txn]
  have hgroup := groupOf_congr ht
  refine ⟨ho, hg, fun id t h' => hown id t ((htxn id).symm.trans h'), fun id h' => ?_,
    fun id hn t h' => ?_, fun id g _ h' => ?_⟩
  · rwa [hgroup]
  · obtain ⟨t', ht', hk⟩ := hn
    obtain rfl := Option.some.inj (h'.symm.trans ht')
    have hold := (htxn id).symm.trans h'
    cases htg : t.tradeGroupId with
    | some g =>
      have : s.groupOf id = some g := by rw [InMemoryStore.groupOf, hold, Option.bind_some, htg]
      rw [this]
      exact Or.inl rfl
    | none =>
      refine Or.inr ⟨rfl, ?_⟩
      rcases hfree id t hold hk htg with hnone | horder
      · exact Or.inl hnone
      · cases hi : s.orders.idOf k with
        | none => exact Or.inl (horder.trans hi)
        | some i => exact Or.inr ((horder.trans hi).trans (hid i hi).symm)
  · rwa [hgroup]

/-- Writing the order under the group, in a state that has the transactions of `s`. -/
theorem Pinned.start_upsertOrder (hown : OwnTransactions account k s)
    (hfree : FreeTransactions k s) (ht : s'.transactions = s.transactions)
    (ho : s'.orders = s.orders) (hg : (s'.getTradeGroupById pk).isSome = true) {row : OrderRow}
    (hk : row.ttOrderId = some k) (hacc : row.account = account)
    (htg : row.tradeGroupId = some pk) : Pinned account k pk s (s'.upsertOrder row).2 := by
  refine .start hown hfree (show (s'.upsertOrder row).2.transactions = _ from ht) ?_ ?_ hg
  · refine ⟨storedOrder s' row, ?_, (account_storedOrder s' row).trans hacc, ?_⟩
    · rw [upsertOrder_eq, InMemoryStore.getOrder,
        Table.getByKey_upsert _ _ ((ttOrderId_storedOrder s' row).trans hk), if_pos rfl]
    · unfold storedOrder
      split
      · rw [InMemoryStore.preserveOrder, htg]
        rfl
      · exact htg
  · intro i hi
    rw [upsertOrder_eq]
    exact Table.idOf_upsert_of_some (ho ▸ hi)

/-- An upsert leaves the group stored under the key it returns. -/
theorem isSome_upsertTradeGroup (s : InMemoryStore) (tg : TradeGroupRow) :
    ((s.upsertTradeGroup tg).2.getTradeGroupById (s.upsertTradeGroup tg).1).isSome = true := by
  rw [InMemoryStore.getTradeGroupById]
  exact Option.isSome_iff_exists.mpr ⟨tg, Table.get_upsert_self _ _⟩

/-- The group an order is linked to is stored; no transaction and no order has changed. -/
theorem exec_linkTarget {order : OrderRow} {targetGroupId : Option String} {reviewedBy : String}
    {at_ : Datetime}
    (hrun : exec (linkTarget order k targetGroupId reviewedBy at_) s = (.ok pk, s')) :
    s'.transactions = s.transactions ∧ s'.orders = s.orders ∧
      (s'.getTradeGroupById pk).isSome = true := by
  unfold linkTarget at hrun
  cases targetGroupId with
  | none =>
    simp only [] at hrun
    rw [exec_bind (exec_uuid4 s), exec_upsertTradeGroup] at hrun
    obtain ⟨hpk, rfl⟩ := Prod.mk.inj hrun
    obtain rfl := Except.ok.inj hpk
    exact ⟨rfl, rfl, isSome_upsertTradeGroup _ _⟩
  | some g =>
    simp only [] at hrun
    rw [exec_bind (exec_getTradeGroup s g)] at hrun
    split at hrun
    · cases congrArg Prod.fst hrun
    · split at hrun
      · cases congrArg Prod.fst hrun
      · rw [exec_upsertTradeGroup] at hrun
        obtain ⟨hpk, rfl⟩ := Prod.mk.inj hrun
        obtain rfl := Except.ok.inj hpk
        exact ⟨rfl, rfl, isSome_upsertTradeGroup _ _⟩

/-- **Where an order has been linked, it is pinned to its group.** -/
theorem LinkedBy.pinned {cmd : Command} {rest : List Command}
    (h : LinkedBy account k pk s cmd s' rest) (hown : OwnTransactions account k s)
    (hfree : FreeTransactions k s) : Pinned account k pk s s' := by
  cases h with
  | @recordOrder resolver order g hid hacc hgroup hpk =>
    unfold TtLedger.recordOrder
    have htarget : exec (tradeGroupPk order.tradeGroup) s = (.ok (some pk), s) := by
      rw [hgroup]
      unfold tradeGroupPk
      simp only []
      rw [exec_bind (exec_getTradeGroupId s g), hpk]
      rfl
    rw [exec_bind htarget, exec_bind (exec_now s)]
    simp only []
    rw [exec_bind (exec_upsertOrders s _)]
    have hgroup : (s.getTradeGroupById pk).isSome = true := by
      obtain ⟨tg, htg, -⟩ := Table.idOf_eq_some.mp hpk
      exact Option.isSome_iff_exists.mpr ⟨tg, Table.get_eq_some.mpr htg⟩
    have hlinked : Pinned account k pk s
        (s.upsertOrder (submittedOrderRow order (some pk) s.clock)).2 :=
      .start_upsertOrder hown hfree rfl rfl hgroup hid hacc rfl
    -- the legs only write securities
    refine hlinked.of_sameLinks (Resolves.run (Φ := fun _ _ => True) ?_).1
    refine Resolves.bind (Φ := fun _ _ => True) ?_ fun _ _ _ _ => Resolves.pure trivial
    refine Resolves.foldlM (fun _ _ => True) (fun seen leg _ s' _ => ?_) trivial
    exact (resolves_resolveSecurity resolver seen leg.symbol leg.instrumentType).bind
      fun _ _ _ _ => Resolves.pure trivial
  | @linkOrderToGroup order targetGroupId reviewedBy s' ho hacc hnone hrun =>
    unfold linkOrder at hrun
    rw [exec_bind (exec_now s)] at hrun
    cases htarget : exec (linkTarget order k targetGroupId reviewedBy s.clock) s with
    | mk x s₁ =>
      cases x with
      | error e =>
        rw [exec_bind_error htarget] at hrun
        cases congrArg Prod.fst hrun
      | ok groupPk =>
        rw [exec_bind htarget, exec_bind (exec_upsertOrders s₁ _),
          exec_bind (exec_addTradeGroupEvent _ _)] at hrun
        obtain ⟨hpk, rfl⟩ := Prod.mk.inj hrun
        obtain rfl := Except.ok.inj hpk
        obtain ⟨ht, horders, hg⟩ := exec_linkTarget htarget
        have hkey : order.ttOrderId = some k := (Table.getByKey_eq_some.mp ho).2
        have hlinked : Pinned account k groupPk s
            (s₁.upsertOrder { order with tradeGroupId := some groupPk }).2 :=
          .start_upsertOrder hown hfree ht horders hg hkey hacc rfl
        exact hlinked.of_sameLinks ⟨rfl, rfl, rfl⟩

/-- Linking the order, and then the rest of the command. -/
theorem LinkedBy.exec_eq {cmd : Command} {rest : List Command}
    (h : LinkedBy account k pk s cmd s' rest) : cmd.exec s = Command.execAll s' rest := by
  cases h with
  | recordOrder => rfl
  | @linkOrderToGroup order targetGroupId reviewedBy s' ho hacc hnone hrun =>
    subst hacc
    show (exec (TtLedger.linkOrderToGroup k targetGroupId reviewedBy) s).2 =
      (exec (reconcile (some order.account) {}) s').2
    unfold TtLedger.linkOrderToGroup
    rw [exec_bind (exec_getOrder s k), ho]
    simp only [hnone]
    unfold linkOrder at hrun
    rw [exec_bind (exec_now s)] at hrun ⊢
    cases htarget : exec (linkTarget order k targetGroupId reviewedBy s.clock) s with
    | mk x s₁ =>
      cases x with
      | error e =>
        rw [exec_bind_error htarget] at hrun
        cases congrArg Prod.fst hrun
      | ok groupPk =>
        rw [exec_bind htarget, exec_bind (exec_upsertOrders s₁ _),
          exec_bind (exec_addTradeGroupEvent _ _)] at hrun ⊢
        obtain ⟨-, rfl⟩ := Prod.mk.inj hrun
        obtain ⟨r, hpass, -⟩ := exec_reconcile
          ((s₁.upsertOrders [{ order with tradeGroupId := some groupPk }]).2.addTradeGroupEvent
            (adjustment groupPk s.clock ("order " ++ k ++ " linked by " ++ reviewedBy)))
          {} (some order.account)
        rw [exec_bind hpass, hpass, exec_bind (exec_getTradeGroupById _ groupPk)]
        split <;> rfl

end Link

/-! ## Runs -/

/-- The commands that follow: resyncs of the order under its account, fills, imports that use the
order for transactions of its account, and passes. -/
def Follows (account k : String) : Command → Prop
  | .importOrders _ placedOrders account' => ∀ po ∈ placedOrders, po.id = k → account' = account
  | .applyFill _ => True
  | .importTransactions _ txns account' _ => ∀ b ∈ txns, b.orderId = some k → account' = account
  | .reconcile _ _ => True
  | .tick _ => True
  | _ => False

/-- A transaction imported under the order named it before, or has neither a group nor an order;
and no settlement due is written over a transaction of the order. -/
def Undisturbed (k : String) (s₀ s : InMemoryStore) : Command → Prop
  | .importTransactions _ txns _ _ => ∀ b ∈ txns, b.orderId = some k → ∀ t,
      s.txn b.id = some t → t.ttOrderId = some k ∨ t.tradeGroupId = none ∧ t.orderId = none
  | .reconcile account args =>
    PassesAlong args (SparesOrder s₀ k args) s (accountList s account args.since)
  | _ => True

/-- A pass over everything the account has, that writes and records no error. -/
def RoutesAll (account : String) (s : InMemoryStore) : Command → Prop
  | .reconcile account' args => (account' = some account ∨ account' = none) ∧ args.since = none ∧
      args.dryRun = false ∧ ∀ r, (exec (reconcile account' args) s).1 = .ok r → r.errors = []
  | _ => False

section Runs

variable {account k : String} {pk : ℕ} {s₀ s : InMemoryStore} {args : ReconcileArgs}

theorem Pinned.passes (h : Pinned account k pk s₀ s) {accounts : List String}
    (hspare : PassesAlong args (SparesOrder s₀ k args) s accounts) :
    Pinned account k pk s₀ (accounts.foldl (passed args) s) := by
  induction accounts generalizing s with
  | nil => exact h
  | cons account' accounts ih => exact ih (h.pass hspare.1) hspare.2

theorem names_of_passes {accounts : List String} {id : String}
    (hn : Names (accounts.foldl (passed args) s) k id) : Names s k id := by
  induction accounts generalizing s with
  | nil => exact hn
  | cons account' accounts ih => exact names_of_passed (ih hn)

theorem isSome_groupOf_passes {accounts : List String} {id : String}
    (hg : (s.groupOf id).isSome = true) :
    ((accounts.foldl (passed args) s).groupOf id).isSome = true := by
  induction accounts generalizing s with
  | nil => exact hg
  | cons account' accounts ih => exact ih (isSome_groupOf_passed hg)

theorem exec_reconcile_eq (account' : Option String) :
    Command.exec s (.reconcile account' args) =
      (accountList s account' args.since).foldl (passed args) s := by
  obtain ⟨r, hrun, -⟩ := exec_reconcile s args account'
  exact congrArg Prod.snd hrun

theorem Pinned.exec (h : Pinned account k pk s₀ s) {cmd : Command} (hf : Follows account k cmd)
    (hu : Undisturbed k s₀ s cmd) : Pinned account k pk s₀ (cmd.exec s) := by
  cases cmd with
  | importOrders resolver placedOrders account' => exact h.importOrders resolver placedOrders hf
  | applyFill evt => exact h.applyFill evt
  | importTransactions resolver txns account' sourceSystem =>
    refine h.importTransactions resolver txns sourceSystem fun b hb hk => ⟨hf b hb hk, ?_⟩
    intro t ht
    rcases hu b hb hk t ht with hname | hnone
    · exact h.bound b.id ⟨t, ht, hname⟩ t ht
    · exact Or.inr ⟨hnone.1, Or.inl hnone.2⟩
  | reconcile account' args =>
    rw [exec_reconcile_eq]
    exact h.passes hu
  | tick clock => exact h.of_sameLinks ⟨rfl, rfl, rfl⟩
  | openTradeGroup | recordOrder | importPositions | linkOrderToGroup | regroup | remap
  | markTradeGroupUnfilled => exact hf.elim

theorem Pinned.execAll (h : Pinned account k pk s₀ s) {run : List Command}
    (hf : ∀ cmd ∈ run, Follows account k cmd) (hu : Command.Along (Undisturbed k s₀) s run) :
    Pinned account k pk s₀ (Command.execAll s run) := by
  unfold Command.execAll
  induction run generalizing s with
  | nil => exact h
  | cons cmd run ih =>
    exact ih (h.exec (hf cmd (by simp)) hu.1) (fun c hc => hf c (.tail _ hc)) hu.2

/-- A pass over the whole account leaves none of the order's transactions to be routed. -/
theorem Pinned.isSome_groupOf_routesAll (h : Pinned account k pk s₀ s) {cmd : Command}
    (hu : Undisturbed k s₀ s cmd) (hall : RoutesAll account s cmd) {id : String}
    (hn : Names (cmd.exec s) k id) : ((cmd.exec s).groupOf id).isSome = true := by
  cases cmd with
  | reconcile account' args =>
    obtain ⟨haccount, hsince, hdry, herrors⟩ := hall
    obtain ⟨r, hrun, hiff⟩ := exec_reconcile s args account'
    have hfree := hiff.mp (herrors r (congrArg Prod.fst hrun))
    rw [exec_reconcile_eq] at hn ⊢
    -- the account is passed over: it has the transaction
    have hmem : account ∈ accountList s account' args.since := by
      rcases haccount with rfl | rfl
      · exact List.mem_singleton_self account
      · obtain ⟨t, ht, hk⟩ := names_of_passes hn
        rw [accountList, mem_sortOn, List.mem_eraseDups, List.mem_map, hsince]
        refine ⟨s.activityRow t, ?_, h.own id t ht hk⟩
        refine List.mem_map.mpr ⟨t, List.mem_filter.mpr ⟨Table.mem_values_of_getByKey ht, ?_⟩, rfl⟩
        cases t.executedAt <;> rfl
    obtain ⟨before, after, hsplit⟩ := List.append_of_mem hmem
    change PassesAlong args (SparesOrder s₀ k args) s _ at hu
    rw [hsplit] at hn hfree hu ⊢
    have hpinned := h.passes hu.of_append.1
    rw [List.foldl_append, List.foldl_cons] at hn ⊢
    exact isSome_groupOf_passes (hpinned.isSome_groupOf_pass hu.of_append.2.1 hdry hsince
      hfree.of_append.2.1 (names_of_passes hn))
  | openTradeGroup | recordOrder | importOrders | importTransactions | importPositions | applyFill
  | linkOrderToGroup | regroup | remap | markTradeGroupUnfilled | tick => exact hall.elim

end Runs

/-- The order is in its group, and what other groups hold of it has not moved. -/
structure PreAttributed (k : String) (pk : ℕ) (s₀ s : InMemoryStore) : Prop where
  linked : ∃ o, s.getOrder k = some o ∧ o.tradeGroupId = some pk
  held : ∀ id g, Names s₀ k id → s₀.groupOf id = some g → s.groupOf id = some g

/-- Every transaction of the order that was in no group is in the order's. -/
def Joined (k : String) (pk : ℕ) (s₀ s : InMemoryStore) : Prop :=
  ∀ id, Names s k id → s₀.groupOf id = none → s.groupOf id = some pk

/-- **A pre-attributed order keeps its group and its transactions follow it**, in every run that
neither brings in a transaction linked elsewhere nor writes a settlement over one of the order's:
after every command, and for all of its transactions after every pass over the whole account. -/
theorem preAttributed_of_undisturbed {account k : String} {pk : ℕ} {s s' : InMemoryStore}
    {cmd : Command} {rest run : List Command} (hlink : LinkedBy account k pk s cmd s' rest)
    (hown : OwnTransactions account k s) (hfree : FreeTransactions k s)
    (hfollow : ∀ c ∈ run, Follows account k c)
    (hrun : Command.Along (Undisturbed k s) s' (rest ++ run)) :
    PreAttributed k pk s (Command.execAll s (cmd :: run)) ∧
      ∀ before last, rest ++ run = before ++ [last] →
        RoutesAll account (Command.execAll s' before) last →
          Joined k pk s (Command.execAll s (cmd :: run)) := by
  have hstart := hlink.pinned hown hfree
  have hrest : ∀ c ∈ rest ++ run, Follows account k c := by
    intro c hc
    rcases List.mem_append.mp hc with hc | hc
    · cases hlink with
      | recordOrder => cases hc
      | linkOrderToGroup =>
        obtain rfl := List.mem_singleton.mp hc
        trivial
    · exact hfollow c hc
  have hexec : Command.execAll s (cmd :: run) = Command.execAll s' (rest ++ run) := by
    rw [Command.execAll_append, ← hlink.exec_eq]
    rfl
  rw [hexec]
  have hpinned := hstart.execAll hrest hrun
  refine ⟨⟨?_, hpinned.held⟩, fun before last hsplit hall id hn hnone => ?_⟩
  · obtain ⟨o, ho, -, htg⟩ := hpinned.order
    exact ⟨o, ho, htg⟩
  · rw [hsplit] at hrest hrun hn hpinned ⊢
    rw [Command.execAll_append] at hn ⊢
    have hbefore :=
      hstart.execAll (fun c hc => hrest c (List.mem_append_left _ hc)) hrun.of_append.1
    have hsome := hbefore.isSome_groupOf_routesAll hrun.of_append.2.1 hall hn
    obtain ⟨t, ht, hk⟩ := hn
    rw [Command.execAll_append] at hpinned
    rcases hpinned.bound id ⟨t, ht, hk⟩ t ht with hin | hout
    · rw [hnone] at hin
      show ((Command.exec _ last).txn id).bind TxnRow.tradeGroupId = _
      rw [show (Command.exec _ last).txn id = some t from ht]
      exact hin
    · rw [InMemoryStore.groupOf, show (Command.exec _ last).txn id = some t from ht,
        Option.bind_some, hout.1] at hsome
      cases hsome

/-! ## A fill reported again under another order -/

/-- A ledger with one group, opened at submission. -/
def groupOpened : InMemoryStore := Command.exec (.empty 0) (.openTradeGroup "A" {})

/-- Order `1` is recorded under that group. -/
def recordOne : Command :=
  .recordOrder noSymbols { account := "A", ttOrderId := some "1", tradeGroup := some "x" }

/-- One trade is imported, reported under an order. -/
def importTrade (ttOrderId : String) : Command :=
  .importTransactions noSymbols
    [{ id := "t", accountNumber := "A", orderId := some ttOrderId, executedAt := some 0 }] "A"
    "tastytrade"

theorem linkedBy_recordOne :
    LinkedBy "A" "1" 1 groupOpened recordOne (recordOne.exec groupOpened) [] :=
  .recordOrder rfl rfl rfl (by decide +kernel)

theorem groupOpened_txn (id : String) : groupOpened.txn id = none := rfl

/-- The trade is reported under order `1` and routed. -/
theorem preAttributed_recordOne :
    PreAttributed "1" 1 groupOpened
        (Command.execAll groupOpened [recordOne, importTrade "1", .reconcile (some "A") {}]) ∧
      ∀ before last, [importTrade "1", .reconcile (some "A") {}] = before ++ [last] →
        RoutesAll "A" (Command.execAll (recordOne.exec groupOpened) before) last →
          Joined "1" 1 groupOpened
            (Command.execAll groupOpened
              [recordOne, importTrade "1", .reconcile (some "A") {}]) := by
  refine preAttributed_of_undisturbed linkedBy_recordOne (fun id t ht => ?_) (fun id t ht => ?_) ?_
    ⟨?_, ⟨?_, trivial⟩, trivial⟩
  · rw [groupOpened_txn] at ht
    cases ht
  · rw [groupOpened_txn] at ht
    cases ht
  · intro c hc
    rcases List.mem_cons.mp hc with rfl | hc
    · exact fun _ _ _ => rfl
    · obtain rfl := List.mem_singleton.mp hc
      trivial
  · intro b hb _ t ht
    obtain rfl := List.mem_singleton.mp hb
    have hnone : (recordOne.exec groupOpened).txn "t" = none := by decide +kernel
    rw [hnone] at ht
    cases ht
  · -- no security is known, so that nothing lapses
    rintro g sid ⟨-, -, sec, expiry, points, hl⟩
    have hnone : ((importTrade "1").exec (recordOne.exec groupOpened)).securities.rows = [] := by
      decide +kernel
    obtain ⟨⟨i, hi⟩, -⟩ := Table.getByKey_eq_some.mp hl.security
    rw [hnone] at hi
    cases hi

/-- The passes of the run record no error. -/
def ErrorFreePass (s : InMemoryStore) : Command → Prop
  | .reconcile account args => ∀ r, (exec (reconcile account args) s).1 = .ok r → r.errors = []
  | _ => True

/-- The trade is first reported under order `2` and linked to it by a pass that starts later; then
it is reported under order `1`. -/
def reportedAgain : List Command :=
  [.importOrders noSymbols [{ id := "2", receivedAt := 0 }] "A", importTrade "2",
    .reconcile (some "A") { since := some 1 }, importTrade "1", .reconcile (some "A") {}]

/-- It is routed as order `2`'s, and the new group takes order `1` over. -/
theorem not_preAttributed :
    ¬ ∀ (account k : String) (pk : ℕ) (s s' : InMemoryStore) (cmd : Command)
      (rest run : List Command), LinkedBy account k pk s cmd s' rest →
      OwnTransactions account k s → (∀ c ∈ run, Follows account k c) →
      Command.Along ErrorFreePass s' (rest ++ run) →
        PreAttributed k pk s (Command.execAll s (cmd :: run)) ∧
          ∀ before last, rest ++ run = before ++ [last] →
            RoutesAll account (Command.execAll s' before) last →
              Joined k pk s (Command.execAll s (cmd :: run)) := by
  intro h
  have hown : OwnTransactions "A" "1" groupOpened := fun id t ht => by
    rw [groupOpened_txn] at ht
    cases ht
  have hfollow : ∀ c ∈ reportedAgain, Follows "A" "1" c := by
    intro c hc
    simp only [reportedAgain, List.mem_cons, List.not_mem_nil, or_false] at hc
    rcases hc with rfl | rfl | rfl | rfl | rfl
    · exact fun _ _ _ => rfl
    · exact fun _ _ _ => rfl
    · trivial
    · exact fun _ _ _ => rfl
    · trivial
  have herrors : ∀ (s : InMemoryStore) (args : ReconcileArgs),
      (exec (reconcile (some "A") args) s).1.toOption.map SyncResult.errors = some [] →
      ErrorFreePass s (.reconcile (some "A") args) := by
    intro s args hnone r hr
    rw [hr] at hnone
    exact Option.some.inj hnone
  have hpasses : Command.Along ErrorFreePass (recordOne.exec groupOpened) ([] ++ reportedAgain) :=
    ⟨trivial, trivial, herrors _ _ (by decide +kernel), trivial,
      herrors _ _ (by decide +kernel), trivial⟩
  obtain ⟨o, ho, htg⟩ := (h "A" "1" 1 groupOpened _ recordOne [] reportedAgain
    linkedBy_recordOne hown hfollow hpasses).1.linked
  have hafter : ((Command.execAll groupOpened (recordOne :: reportedAgain)).getOrder "1").map
      OrderRow.tradeGroupId = some (some 2) := by decide +kernel
  rw [ho, Option.map_some, htg] at hafter
  exact absurd hafter (by decide)

end TtLedger
