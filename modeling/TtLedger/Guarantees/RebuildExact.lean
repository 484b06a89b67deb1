import TtLedger.Ingest.RebuildLaws

/-!
# Closed positions as a function of the transactions

Rebuilding an account means to leave the lifecycles that its transactions complete, and the lots
they leave open, whatever was stored before (`RebuiltExactly`). A rebuild upserts a lifecycle on
its security and its two instants and deletes nothing, so it does so exactly when the lifecycles
have distinct keys and everything stored for the account is still one of them
(`Rebuildable`, `rebuiltExactly_iff`). A fill that arrives late and ends a lifecycle earlier leaves
the old record behind (`not_rebuiltExactly_lateFill`).
-/

namespace TtLedger

open LedgerStore

/-! ## The account from scratch -/

/-- The lot a position stands for: signed quantity, average price, opening order and instant. -/
def PositionRow.heldLot (p : PositionRow) : ℚ × Option ℚ × Option ℕ × Option Datetime :=
  (if p.quantityDirection = "Long" then p.quantity else -p.quantity, p.averageOpenPrice,
    p.openingOrderId, p.positionOpenedAt)

/-- Nothing held. -/
def emptyLot : ℚ × Option ℚ × Option ℕ × Option Datetime := (0, none, none, none)

def ClosedPositionRow.ofAccount (account : String) (c : ClosedPositionRow) : Bool :=
  c.account = account

/-- The completed lifecycles stored for an account. -/
def InMemoryStore.closedOf (s : InMemoryStore) (account : String) : List ClosedPositionRow :=
  s.closedPositions.values.filter (ClosedPositionRow.ofAccount account)

namespace InMemoryStore

section Defs

variable (s : InMemoryStore) (account : String)

/-- The lifecycles the account's current transactions complete. -/
def currentLifecycles : List ClosedPositionRow :=
  lifecycles account s.getSecurity (s.accountRows account)

/-- The lot the account's current transactions leave in a security. -/
def finalLot (sid : String) : ℚ × Option ℚ × Option ℕ × Option Datetime :=
  (replayedPosition account s.getSecurity (s.accountRows account) sid none).heldLot

/-- The account holds what its transactions say: every lifecycle once and nothing else, and every
position is the final lot of its security. -/
structure RebuiltExactly : Prop where
  closed : (s.closedOf account).Perm (s.currentLifecycles account)
  positions : ∀ p ∈ s.positions.values, p.account = account →
    p.heldLot = s.finalLot account p.securityId
  held : ∀ sid, replayedRows (s.accountRows account) sid ≠ [] →
    (s.getPosition account sid).isSome = true

/-- What is stored for the account agrees with its current transactions: the lifecycles have
distinct keys, every stored record has one of them, and a position without transactions is
empty. -/
structure Rebuildable : Prop where
  keys : ((s.currentLifecycles account).map ClosedPositionRow.key).Nodup
  known : ∀ c ∈ s.closedOf account,
    c.key ∈ (s.currentLifecycles account).map ClosedPositionRow.key
  flat : ∀ p ∈ s.positions.values, p.account = account →
    replayedRows (s.accountRows account) p.securityId = [] → p.heldLot = emptyLot

end Defs

end InMemoryStore

/-! ## Lots -/

section Lots

variable (account : String) (sec : String → Option SecurityRow) (rows : List TxnRow)
  (sid : String)

theorem heldLot_replayedPosition (existing : Option PositionRow) :
    (replayedPosition account sec rows sid existing).heldLot =
      (replayedPosition account sec rows sid none).heldLot := by
  unfold replayedPosition securityPlan lapseExpiredLot
  simp only [lapsesLot_replaySecurity _ _ _ _ _ existing]
  split <;> rfl

theorem heldLot_of_replayedRows_eq_nil (h : replayedRows rows sid = []) :
    (replayedPosition account sec rows sid none).heldLot = emptyLot := by
  have hflat : ∀ expiry last, lapsesLot (replaySecurity account sid (sortOn replayKey [])
      (multiplierOf (sec sid)) none).1 expiry last = none := by
    intro expiry last
    cases expiry with
    | none => rfl
    | some expiry =>
      cases last with
      | none => rfl
      | some last => simp [lapsesLot, replaySecurity, rebuild, positionOf]
  unfold replayedPosition securityPlan lapseExpiredLot
  simp only [h, hflat]
  simp [PositionRow.heldLot, replaySecurity, rebuild, positionOf, emptyLot]

end Lots

/-! ## One account -/

section Account

variable {s : InMemoryStore} {account : String}

theorem mem_positions_values {p : PositionRow} :
    p ∈ s.positions.values ↔ s.getPosition p.account p.securityId = some p :=
  ⟨fun h => Table.getByKey_of_mem_values h rfl, fun h => Table.mem_values_of_getByKey h⟩

/-- **A rebuild leaves exactly the account's lifecycles and lots** when what was stored agrees with
them, and only then. -/
theorem rebuiltExactly_rebuilt :
    (rebuilt s account).RebuiltExactly account ↔ s.Rebuildable account := by
  have hrebuilt := rebuilt_spec s account
  have hsame := hrebuilt.toSameReading
  have hclosed := Table.perm_upsertAll_iff (t := s.closedPositions)
    (p := ClosedPositionRow.ofAccount account) (fun _ => rfl)
    fun c (hc : c ∈ s.currentLifecycles account) => decide_eq_true (account_of_mem_lifecycles hc)
  have hstored : ((rebuilt s account).closedOf account).Perm
      ((rebuilt s account).currentLifecycles account) ↔
      ((s.currentLifecycles account).map ClosedPositionRow.key).Nodup ∧
        ∀ c ∈ s.closedOf account,
          c.key ∈ (s.currentLifecycles account).map ClosedPositionRow.key := by
    rw [InMemoryStore.currentLifecycles, hsame.lifecycles, InMemoryStore.closedOf,
      hrebuilt.closed, ClosedPositionRow.map_heldIn_exact]
    refine hclosed.trans (and_congr_right fun _ => ?_)
    simp only [InMemoryStore.closedOf, List.mem_filter, and_imp]
  have hfinal : ∀ sid, (rebuilt s account).finalLot account sid =
      s.finalLot account sid := fun sid => by
    rw [InMemoryStore.finalLot, hsame.replayedPosition, InMemoryStore.finalLot]
  constructor
  · intro h
    obtain ⟨hkeys, hknown⟩ := hstored.mp h.closed
    refine ⟨hkeys, hknown, fun p hp hpa hnil => ?_⟩
    have hp' : p ∈ (rebuilt s account).positions.values := by
      rw [mem_positions_values, hpa, hrebuilt.others _ _ fun _ => hnil,
        ← hpa]
      exact mem_positions_values.mp hp
    rw [h.positions p hp' hpa, hfinal]
    exact heldLot_of_replayedRows_eq_nil _ _ _ _ hnil
  · intro h
    refine ⟨hstored.mpr ⟨h.keys, h.known⟩, fun p hp hpa => ?_, fun sid hne => ?_⟩
    · rw [hfinal]
      have hget := mem_positions_values.mp hp
      rw [hpa] at hget
      by_cases hnil : replayedRows (s.accountRows account) p.securityId = []
      · rw [hrebuilt.others _ _ fun _ => hnil, ← hpa] at hget
        rw [h.flat p (mem_positions_values.mpr hget) hpa hnil]
        exact (heldLot_of_replayedRows_eq_nil _ _ _ _ hnil).symm
      · rw [hrebuilt.position _ hnil, PositionRow.heldIn_exact] at hget
        have hheld := heldLot_replayedPosition account s.getSecurity (s.accountRows account)
          p.securityId (s.getPosition account p.securityId)
        rwa [Option.some.inj hget] at hheld
    · rw [Ne, hsame.replayedRows_eq_nil] at hne
      rw [hrebuilt.position _ hne]
      rfl

end Account

/-! ## Runs -/

/-- Nothing of an account has changed but links of transactions to positions. -/
structure SameAccount (account : String) (s s' : InMemoryStore) : Prop extends
    SameReading s s' where
  closed : s'.closedOf account = s.closedOf account
  positions : ∀ sid, s'.getPosition account sid = s.getPosition account sid

namespace SameAccount

variable {account : String} {s s' s'' : InMemoryStore}

theorem refl (s : InMemoryStore) : SameAccount account s s :=
  ⟨SameReading.refl s, rfl, fun _ => rfl⟩

theorem trans (h : SameAccount account s s') (h' : SameAccount account s' s'') :
    SameAccount account s s'' :=
  ⟨h.toSameReading.trans h'.toSameReading, h'.closed.trans h.closed,
    fun sid => (h'.positions sid).trans (h.positions sid)⟩

theorem mem_positions (h : SameAccount account s s') {p : PositionRow}
    (hp : p.account = account) : p ∈ s'.positions.values ↔ p ∈ s.positions.values := by
  rw [mem_positions_values, mem_positions_values, hp, h.positions]

theorem currentLifecycles (h : SameAccount account s s') :
    s'.currentLifecycles account = s.currentLifecycles account :=
  h.lifecycles account

theorem rebuildable (h : SameAccount account s s') :
    s'.Rebuildable account ↔ s.Rebuildable account := by
  have hmem := fun p hp => h.mem_positions (p := p) hp
  have hnil := h.replayedRows_eq_nil account
  constructor
  · rintro ⟨hkeys, hknown, hflat⟩
    rw [h.currentLifecycles] at hkeys hknown
    rw [h.closed] at hknown
    exact ⟨hkeys, hknown, fun p hp hpa hrows =>
      hflat p ((hmem p hpa).mpr hp) hpa ((hnil _).mpr hrows)⟩
  · rintro ⟨hkeys, hknown, hflat⟩
    rw [← h.currentLifecycles] at hkeys hknown
    rw [← h.closed] at hknown
    exact ⟨hkeys, hknown, fun p hp hpa hrows =>
      hflat p ((hmem p hpa).mp hp) hpa ((hnil _).mp hrows)⟩

theorem rebuiltExactly (h : SameAccount account s s') (hs : s.RebuiltExactly account) :
    s'.RebuiltExactly account := by
  refine ⟨?_, fun p hp hpa => ?_, fun sid hne => ?_⟩
  · rw [h.closed, h.currentLifecycles]
    exact hs.closed
  · rw [hs.positions p ((h.mem_positions hpa).mp hp) hpa, InMemoryStore.finalLot,
      InMemoryStore.finalLot, h.toSameReading.replayedPosition]
  · rw [h.positions]
    exact hs.held sid fun hnil => hne ((h.replayedRows_eq_nil account sid).mpr hnil)

theorem symm (h : SameAccount account s s') : SameAccount account s' s :=
  ⟨⟨h.securities.symm, h.unlinked.symm⟩, h.closed.symm, fun sid => (h.positions sid).symm⟩

/-- Another account's rebuild. -/
theorem of_ne {account' : String} (h : account ≠ account') (s : InMemoryStore) :
    SameAccount account s (rebuilt s account') := by
  have hrebuilt := rebuilt_spec s account'
  refine ⟨hrebuilt.toSameReading, ?_, fun sid => hrebuilt.others _ _ fun ha => absurd ha h⟩
  rw [InMemoryStore.closedOf, hrebuilt.closed, ClosedPositionRow.map_heldIn_exact]
  refine Table.filter_values_upsertAll (fun r r' hk => ?_) fun c hc => ?_
  · have hk := (Prod.mk.inj (Option.some.inj hk)).1
    simp [ClosedPositionRow.ofAccount, hk]
  · simp [ClosedPositionRow.ofAccount, account_of_mem_lifecycles hc, Ne.symm h]

/-- An account without rows. -/
theorem of_no_rows (h : s.accountRows account = []) : rebuilt s account = s := by
  rw [InMemoryStore.accountRows, ← s.toTxnRow_accountActivity, List.map_eq_nil_iff] at h
  have hactivity : exec (accountActivity { account := some account }) s = (.ok [], s) := by
    rw [exec_accountActivity, h]
  rw [rebuilt, rebuildForAccount, exec_bind hactivity]
  rfl

end SameAccount

/-- The accounts a rebuild runs over. -/
def rebuiltAccounts (s : InMemoryStore) : Option String → List String
  | some account => [account]
  | none => sortOn id ((s.accountActivity {}).map fun a => a.account).eraseDups

/-- The store after rebuilding accounts one after the other. -/
def rebuildAll (s : InMemoryStore) (accounts : List String) : InMemoryStore :=
  accounts.foldl rebuilt s

/-- A rebuild of an account does not fail. -/
theorem exec_rebuildForAccount (s : InMemoryStore) (account : String) :
    ∃ n, exec (rebuildForAccount account) s = (.ok n, rebuilt s account) := by
  obtain ⟨n, s', hrun, -⟩ := run_rebuildForAccount rebuilds_memory s account
  exact ⟨n, by rw [rebuilt, exec, hrun]⟩

theorem exec_rebuildInto (result : SyncResult) (s : InMemoryStore) (account : String) :
    ∃ result', exec (rebuildInto result account) s = (.ok result', rebuilt s account) := by
  obtain ⟨n, hrun⟩ := exec_rebuildForAccount s account
  refine ⟨{ result with positions := result.positions + n }, ?_⟩
  rw [rebuildInto, exec, Prog.run_tryCatch, Prog.run_bind_of_ok memory hrun]
  rfl

theorem exec_rebuildPositions (s : InMemoryStore) (account : Option String) :
    (exec (rebuildPositionsFromTransactions account) s).2 =
      rebuildAll s (rebuiltAccounts s account) := by
  have hfold : ∀ (accounts : List String) (result : SyncResult) (s : InMemoryStore),
      (exec (accounts.foldlM rebuildInto result) s).2 = rebuildAll s accounts := by
    intro accounts
    induction accounts with
    | nil => exact fun _ _ => rfl
    | cons a accounts ih =>
      intro result s
      obtain ⟨result', hrun⟩ := exec_rebuildInto result s a
      rw [List.foldlM_cons, exec_bind hrun]
      exact ih result' _
  have haccounts : exec (accountsOf account none) s = (.ok (rebuiltAccounts s account), s) := by
    cases account <;> rfl
  rw [rebuildPositionsFromTransactions, exec_bind haccounts]
  exact hfold _ _ _

/-- Rebuilding other accounts. -/
theorem sameAccount_rebuildAll {account : String} (accounts : List String)
    (h : account ∉ accounts) (s : InMemoryStore) :
    SameAccount account s (rebuildAll s accounts) := by
  induction accounts generalizing s with
  | nil => exact SameAccount.refl s
  | cons a accounts ih =>
    rw [List.mem_cons, not_or] at h
    exact (SameAccount.of_ne h.1 s).trans (ih h.2 _)

/-- Rebuilding accounts, one of them the given one. -/
theorem rebuiltExactly_rebuildAll {account : String} {accounts : List String}
    (hnodup : accounts.Nodup) {s : InMemoryStore}
    (h : account ∈ accounts ∨ s.accountRows account = []) :
    (rebuildAll s accounts).RebuiltExactly account ↔ s.Rebuildable account := by
  by_cases hmem : account ∈ accounts
  · obtain ⟨pre, post, rfl⟩ := List.append_of_mem hmem
    have hnot := List.nodup_middle.mp hnodup
    rw [List.nodup_cons, List.mem_append, not_or] at hnot
    have hpre := sameAccount_rebuildAll pre hnot.1.1 s
    have hpost := sameAccount_rebuildAll post hnot.1.2
      (rebuilt (rebuildAll s pre) account)
    have hsplit : rebuildAll s (pre ++ account :: post) =
        rebuildAll (rebuilt (rebuildAll s pre) account) post := by
      simp [rebuildAll]
    rw [hsplit, ← hpre.rebuildable, ← rebuiltExactly_rebuilt]
    exact ⟨hpost.symm.rebuiltExactly, hpost.rebuiltExactly⟩
  · have hrows := h.resolve_left hmem
    have hsame := sameAccount_rebuildAll accounts hmem s
    rw [← rebuiltExactly_rebuilt, SameAccount.of_no_rows hrows]
    exact ⟨hsame.symm.rebuiltExactly, hsame.rebuiltExactly⟩

/-- What happens to the transactions of a ledger between rebuilds. -/
inductive ReplayCall
  | importTransactions (rows : List TxnRow)
  | rebuild (account : Option String)

def ReplayCall.run (s : InMemoryStore) : ReplayCall → InMemoryStore
  | importTransactions rows => s.upsertTransactions rows
  | rebuild account => (exec (rebuildPositionsFromTransactions account) s).2

/-- **After any imports and rebuilds, a rebuild leaves exactly what the account's transactions
say** if and only if what the earlier ones stored for it agrees with the lifecycles of its current
transactions. -/
theorem rebuiltExactly_iff (calls : List ReplayCall) (start : InMemoryStore) (account : String) :
    let s := calls.foldl ReplayCall.run start
    ((exec (rebuildPositionsFromTransactions (some account)) s).2.RebuiltExactly account ↔
        s.Rebuildable account) ∧
      ((exec (rebuildPositionsFromTransactions none) s).2.RebuiltExactly account ↔
        s.Rebuildable account) := by
  intro s
  rw [exec_rebuildPositions, exec_rebuildPositions]
  refine ⟨rebuiltExactly_rebuildAll (List.nodup_singleton _) (Or.inl (by simp)),
    rebuiltExactly_rebuildAll ?_ ?_⟩
  · exact (perm_sortOn id _).nodup_iff.mpr (nodup_eraseDups _)
  · by_cases hrows : s.accountRows account = []
    · exact Or.inr hrows
    · refine Or.inl ?_
      obtain ⟨txn, htxn⟩ := List.exists_mem_of_ne_nil _ hrows
      obtain ⟨htxn, ha⟩ := List.mem_filter.mp htxn
      rw [rebuiltAccounts, mem_sortOn, List.mem_eraseDups, List.mem_map]
      refine ⟨s.activityRow txn, List.mem_map.mpr ⟨txn, List.mem_filter.mpr ⟨htxn, ?_⟩, rfl⟩,
        of_decide_eq_true ha⟩
      cases htime : txn.executedAt <;> simp [inRange]

/-! ## A fill that arrives late -/

/-- A long contract bought and sold is rebuilt; then a fill between the two arrives. -/
def lateFill : List ReplayCall :=
  [.importTransactions
      [{ TxnRow.fill "main" "t1" "o1" "Buy to Open" "SPX" 1 0 with price := some 10 },
        { TxnRow.fill "main" "t3" "o3" "Sell to Close" "SPX" 1 (2 * second) with
          price := some 12 }],
    .rebuild (some "main"),
    .importTransactions
      [{ TxnRow.fill "main" "t2" "o2" "Sell to Close" "SPX" 1 second with price := some 11 }]]

/-- The record of the longer lifecycle stays beside that of the shorter one. -/
theorem not_rebuiltExactly_lateFill :
    ¬(exec (rebuildPositionsFromTransactions (some "main"))
      (lateFill.foldl ReplayCall.run (InMemoryStore.empty 0))).2.RebuiltExactly "main" := by
  intro h
  have hlength := h.closed.length_eq
  revert hlength
  decide +kernel

end TtLedger
