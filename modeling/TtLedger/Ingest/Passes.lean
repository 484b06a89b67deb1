import TtLedger.Ingest.PassLaws

/-!
# Passes over several accounts

A reconcile without an account is a pass over each account with activity, one after the other,
each from the state the one before left (`exec_reconcile`). What holds of the state each pass
starts from is stated with `PassesAlong`. Through a pass, whatever it fails with, a transaction
comes to name no order (`names_of_passed`) and leaves no group for none (`isSome_groupOf_passed`).
-/

namespace TtLedger

/-- The state after the pass over one account. -/
def passed (args : ReconcileArgs) (s : InMemoryStore) (account : String) : InMemoryStore :=
  (exec (reconcile (some account) args) s).2

/-- The accounts a reconcile passes over. -/
def accountList (s : InMemoryStore) (account : Option String) (since : Option Date) :
    List String :=
  match account with
  | some account => [account]
  | none => sortOn id ((s.accountActivity { start := since }).map fun a => a.account).eraseDups

/-- Every pass starts from a state of which `P` holds. -/
def PassesAlong (args : ReconcileArgs) (P : InMemoryStore → String → Prop) (s : InMemoryStore) :
    List String → Prop
  | [] => True
  | account :: accounts => P s account ∧ PassesAlong args P (passed args s account) accounts

theorem PassesAlong.of_append {args : ReconcileArgs} {P : InMemoryStore → String → Prop}
    {s : InMemoryStore} {accounts accounts' : List String}
    (h : PassesAlong args P s (accounts ++ accounts')) :
    PassesAlong args P s accounts ∧
      PassesAlong args P (accounts.foldl (passed args) s) accounts' := by
  induction accounts generalizing s with
  | nil => exact ⟨trivial, h⟩
  | cons account accounts ih => exact ⟨⟨h.1, (ih h.2).1⟩, (ih h.2).2⟩

section Runs

variable (s : InMemoryStore) (args : ReconcileArgs)

@[simp] theorem exec_accountsOf (account : Option String) (since : Option Date) :
    exec (accountsOf account since) s = (.ok (accountList s account since), s) := by
  cases account with
  | some account => rfl
  | none =>
    unfold accountsOf accountsWithActivity
    simp only []
    rw [exec_bind (exec_accountActivity s _)]
    rfl

/-- The pass over one account, added to a result: its state, and the errors it records. -/
theorem exec_reconcileInto (result : SyncResult) (account : String) :
    ∃ r, exec (reconcileInto args result account) s = (.ok r, passed args s account) ∧
      (r.errors = [] ↔ result.errors = [] ∧ ErrorFree s account args) := by
  cases h : lapseSettlements (linked s account) account args with
  | error e =>
    rw [exec_reconcileInto_error s result (exec_reconcileAccount_error s h), passed,
      exec_reconcile_error s h]
    refine ⟨_, rfl, ?_⟩
    rw [errorFree_iff, h]
    simp
  | ok rows =>
    obtain ⟨events, s₂, -, -, hpass⟩ := exec_reconcileAccount s h
    rw [exec_reconcileInto_ok s result hpass, passed, exec_reconcile_ok s rfl rfl hpass]
    refine ⟨_, rfl, ?_⟩
    rw [errorFree_iff, h]
    simp

theorem exec_reconcileIntos (accounts : List String) (result : SyncResult) :
    ∃ r, exec (accounts.foldlM (reconcileInto args) result) s =
        (.ok r, accounts.foldl (passed args) s) ∧
      (r.errors = [] ↔ result.errors = [] ∧
        PassesAlong args (fun s account => ErrorFree s account args) s accounts) := by
  induction accounts generalizing s result with
  | nil => exact ⟨result, rfl, by simp [PassesAlong]⟩
  | cons account accounts ih =>
    obtain ⟨r₁, hrun₁, herrors₁⟩ := exec_reconcileInto s args result account
    obtain ⟨r₂, hrun₂, herrors₂⟩ := ih (passed args s account) r₁
    refine ⟨r₂, ?_, ?_⟩
    · rw [List.foldlM_cons, exec_bind hrun₁, hrun₂, List.foldl_cons]
    · rw [herrors₂, herrors₁, PassesAlong, and_assoc]

/-- **A reconcile is a pass over each of its accounts**, and it records no error exactly when none
of them does. -/
theorem exec_reconcile (account : Option String) :
    ∃ r, exec (reconcile account args) s =
        (.ok r, (accountList s account args.since).foldl (passed args) s) ∧
      (r.errors = [] ↔ PassesAlong args (fun s account => ErrorFree s account args) s
        (accountList s account args.since)) := by
  obtain ⟨r, hrun, herrors⟩ :=
    exec_reconcileIntos s args (accountList s account args.since) {}
  refine ⟨r, ?_, by simpa using herrors⟩
  unfold reconcile
  rw [exec_bind (exec_accountsOf s account args.since), hrun]

/-- A dry run, or one that records a failure, leaves the links it has set. -/
theorem passed_of_not_writes {account : String}
    (h : ¬(args.dryRun = false ∧ ErrorFree s account args)) :
    passed args s account = linked s account := by
  cases hlapse : lapseSettlements (linked s account) account args with
  | error e => rw [passed, exec_reconcile_error s hlapse]
  | ok rows =>
    have hdry : args.dryRun = true := by
      rw [← Bool.not_eq_false]
      exact fun hwrites => h ⟨hwrites, (errorFree_iff s account args).mpr ⟨rows, hlapse⟩⟩
    obtain ⟨events, s₂, hs₂, hevents, hrun⟩ := exec_reconcileAccount s hlapse
    have hlapsed : lapsedState s account args rows = linked s account := by
      rw [lapsedState, lapsed, if_pos (Or.inr hdry)]
    rw [passed, exec_reconcile_ok s rfl rfl hrun, hs₂, hevents (Or.inl hdry), hlapsed,
      routeLoop_dryRun _ hdry, healed, hdry]
    rfl

end Runs

/-! ## Transactions through a pass -/

/-- The store has the transaction, and it names the order. -/
def Names (s : InMemoryStore) (k id : String) : Prop :=
  ∃ t, s.txn id = some t ∧ t.ttOrderId = some k

section Stages

variable {s : InMemoryStore} {account k id : String} {args : ReconcileArgs}

theorem linkRow_ttOrderId (r : TxnRow) : (linkRow s account r).ttOrderId = r.ttOrderId := by
  unfold linkRow
  split <;> rfl

theorem names_linked {id : String} : Names (linked s account) k id ↔ Names s k id := by
  unfold Names
  rw [txn_linked]
  cases s.txn id with
  | none => simp
  | some t => simp [linkRow_ttOrderId]

/-- An attached transaction is the one before, but for its group. -/
theorem Attaches.txn_before {s' : InMemoryStore} {ids : List String} (h : Attaches ids s s')
    {t' : TxnRow} (ht' : s'.txn id = some t') :
    ∃ t, s.txn id = some t ∧ t.ttOrderId = t'.ttOrderId ∧ t.account = t'.account := by
  obtain ⟨t, ht⟩ := Option.isSome_iff_exists.mp ((h.isSome_txn id).symm.trans (by rw [ht']; rfl))
  refine ⟨t, ht, ?_⟩
  by_cases hmem : id ∈ ids
  · obtain ⟨pk, hpk, -⟩ := h.txn_of_mem hmem ht
    obtain rfl := Option.some.inj (hpk.symm.trans ht')
    exact ⟨rfl, rfl⟩
  · obtain rfl := Option.some.inj (ht.symm.trans ((h.txn_of_notMem hmem).symm.trans ht'))
    exact ⟨rfl, rfl⟩

/-- What is attached to groups stays in one. -/
theorem Attaches.isSome_groupOf {s' : InMemoryStore} {ids : List String} (h : Attaches ids s s')
    (hg : (s.groupOf id).isSome = true) : (s'.groupOf id).isSome = true := by
  by_cases hmem : id ∈ ids
  · cases ht : s.txn id with
    | none =>
      rw [InMemoryStore.groupOf, ht] at hg
      cases hg
    | some t =>
      obtain ⟨pk, hpk, -⟩ := h.txn_of_mem hmem ht
      rw [InMemoryStore.groupOf, hpk]
      rfl
  · rwa [h.groupOf_of_notMem hmem]

/-- The rows the lapse step writes name no order. -/
theorem ttOrderId_of_lapse {rows : List TxnRow}
    (hdue : lapseSettlements (linked s account) account args = .ok rows) {r : TxnRow}
    (hr : r ∈ rows) : r.ttOrderId = none := by
  obtain ⟨g, sid, -, -, sec, expiry, points, -, rfl⟩ := (mem_lapseSettlements _ hdue).mp hr
  rfl

section Lapse

variable {rows : List TxnRow} (hdry : args.dryRun = false)
  (hdue : lapseSettlements (linked s account) account args = .ok rows)

include hdry hdue

theorem txn_lapsedState (id : String) : (lapsedState s account args rows).txn id =
    ((linked s account).upsertTransactions rows).txn id := by
  rw [InMemoryStore.txn, lapsedState, hdry, transactions_lapsed _ hdue, InMemoryStore.txn]

theorem txn_lapsedState_of_notMem (hid : id ∉ rows.map TxnRow.ttTransactionId) :
    (lapsedState s account args rows).txn id = (linked s account).txn id := by
  rw [txn_lapsedState hdry hdue, txn_upsertTransactions_of_notMem _ hid]

theorem txn_lapsedState_of_mem {r : TxnRow} (hr : r ∈ rows) :
    (lapsedState s account args rows).txn r.ttTransactionId =
      some (written (linked s account) r) := by
  rw [txn_lapsedState hdry hdue, txn_upsertTransactions_of_mem _ (nodup_lapseSettlements _ hdue) hr]

/-- After the lapse step, a transaction that names an order is as the links left it. -/
theorem txn_of_lapsedState {t : TxnRow} (ht : (lapsedState s account args rows).txn id = some t)
    (hk : t.ttOrderId = some k) : (linked s account).txn id = some t := by
  by_cases hid : id ∈ rows.map TxnRow.ttTransactionId
  · obtain ⟨r, hr, rfl⟩ := List.mem_map.mp hid
    rw [txn_lapsedState_of_mem hdry hdue hr] at ht
    obtain rfl := Option.some.inj ht
    have hname : (written (linked s account) r).ttOrderId = r.ttOrderId := by
      unfold written
      split <;> rfl
    rw [hname, ttOrderId_of_lapse hdue hr] at hk
    cases hk
  · rwa [txn_lapsedState_of_notMem hdry hdue hid] at ht

theorem isSome_groupOf_lapsedState (hg : ((linked s account).groupOf id).isSome = true) :
    ((lapsedState s account args rows).groupOf id).isSome = true := by
  by_cases hid : id ∈ rows.map TxnRow.ttTransactionId
  · obtain ⟨r, hr, rfl⟩ := List.mem_map.mp hid
    have hsome := isSome_group_of_lapse _ hdue r hr
    rw [InMemoryStore.groupOf, txn_lapsedState_of_mem hdry hdue hr, Option.bind_some,
      written_group _ hsome, hsome]
  · rwa [InMemoryStore.groupOf, txn_lapsedState_of_notMem hdry hdue hid]

end Lapse

/-- A pass gives no transaction the name of an order. -/
theorem names_of_passed (hn : Names (passed args s account) k id) : Names s k id := by
  by_cases hw : args.dryRun = false ∧ ErrorFree s account args
  · obtain ⟨rows, loop, events, hrun⟩ := passRun s account args hw.1 hw.2
    obtain ⟨t', ht', hk⟩ := hn
    rw [InMemoryStore.txn, passed, hrun.transactions_after] at ht'
    obtain ⟨t, ht, hname, -⟩ := (hrun.attaches hw.1).txn_before ht'
    have hkt := hname.trans hk
    exact names_linked.mp ⟨t, txn_of_lapsedState hw.1 hrun.due ht hkt, hkt⟩
  · rw [passed_of_not_writes s args hw] at hn
    exact names_linked.mp hn

/-- What has a group before a pass has one after it. -/
theorem isSome_groupOf_passed (hg : (s.groupOf id).isSome = true) :
    ((passed args s account).groupOf id).isSome = true := by
  have hlinked : ((linked s account).groupOf id).isSome = true := by rwa [groupOf_linked]
  by_cases hw : args.dryRun = false ∧ ErrorFree s account args
  · obtain ⟨rows, loop, events, hrun⟩ := passRun s account args hw.1 hw.2
    rw [passed, groupOf_congr hrun.transactions_after]
    exact (hrun.attaches hw.1).isSome_groupOf (isSome_groupOf_lapsedState hw.1 hrun.due hlinked)
  · rwa [passed_of_not_writes s args hw]

end Stages

end TtLedger
