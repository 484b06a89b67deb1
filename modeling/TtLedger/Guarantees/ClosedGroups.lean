import TtLedger.Ingest.RebuildLaws
import TtLedger.Ingest.GroupWrites
import TtLedger.Ingest.Frames

/-!
# The groups of closed positions across a rebuild

A pass gives a closed position the group of its closing order and changes nothing else of it
(`passFrame_afterPass`); a rebuild writes the row of every lifecycle anew, without a group. So a
rebuild, a pass and a second rebuild of the same transactions leave the closed positions as the
pass left them exactly when the pass has stamped none of the rows that the first rebuild wrote
(`closedPositions_kept_iff`). Where it has stamped one, the second rebuild takes the group away
again (`not_closedPositions_kept`).
-/

namespace TtLedger

open LedgerStore Prog

theorem StoreKind.rebuilds : ∀ kind : StoreKind, Rebuilds kind.handler kind.money kind.scan
  | memory => rebuilds_memory
  | sql money scan => rebuilds_sql money scan

section Kept

variable (kind : StoreKind) (account : String) (s : InMemoryStore)

/-- The state after a rebuild of the account. -/
def afterRebuild : InMemoryStore :=
  (run kind.handler (rebuildPositionsFromTransactions (some account)) s).2

/-- The state after a pass. -/
def afterPass (scope : Option String) (args : ReconcileArgs) : InMemoryStore :=
  (run kind.handler (reconcile scope args) s).2

/-- The lifecycles the walk computes from the rows the store returns. -/
def scannedLifecycles : List ClosedPositionRow :=
  lifecycles account s.getSecurity (scannedRows kind.scan s account)

/-- The store returns the account's transactions as it did before, up to the links, which a rebuild
does not read. -/
def SameTransactions (s' : InMemoryStore) : Prop :=
  (scannedRows kind.scan s' account).map TxnRow.unlinked =
    (scannedRows kind.scan s account).map TxnRow.unlinked

instance (s' : InMemoryStore) : Decidable (SameTransactions kind account s s') :=
  inferInstanceAs (Decidable (_ = _))

/-- Of the rows that a rebuild from `s` writes, none is in a group. -/
def NoneStamped (s' : InMemoryStore) : Prop := ∀ stored ∈ s'.closedPositions.values,
  stored.key ∈ (scannedLifecycles kind account s).map ClosedPositionRow.key →
    stored.tradeGroupId = none

instance (s' : InMemoryStore) : Decidable (NoneStamped kind account s s') :=
  inferInstanceAs (Decidable (∀ stored ∈ _, _ → _))

/-- A closed position without its group. -/
def ClosedPositionRow.ungrouped (c : ClosedPositionRow) : ClosedPositionRow :=
  { c with tradeGroupId := none }

end Kept

/-! ## One rebuild -/

section Rebuild

variable (kind : StoreKind) (account : String) (s : InMemoryStore)

theorem rebuilt_afterRebuild :
    Rebuilt kind.money (scannedRows kind.scan s account) account s
      (afterRebuild kind account s) := by
  obtain ⟨n, s', hrun, hs'⟩ := run_rebuildForAccount kind.rebuilds s account
  have hinto : run kind.handler (rebuildInto {} account) s =
      (.ok { ({} : SyncResult) with positions := 0 + n }, s') := by
    rw [rebuildInto, run_tryCatch, run_bind_of_ok _ hrun]
    rfl
  have hafter : afterRebuild kind account s = s' := by
    show (run kind.handler (rebuildInto {} account >>= pure) s).2 = s'
    rw [run_bind_of_ok _ hinto]
    rfl
  rwa [hafter]

theorem closedPositions_afterRebuild :
    (afterRebuild kind account s).closedPositions =
      s.closedPositions.upsertAll
        ((scannedLifecycles kind account s).map (ClosedPositionRow.heldIn kind.money)) :=
  (rebuilt_afterRebuild kind account s).closed

theorem keys_map_heldIn (money : MoneyColumn) (rows : List ClosedPositionRow) :
    (rows.map (ClosedPositionRow.heldIn money)).map ClosedPositionRow.key =
      rows.map ClosedPositionRow.key := by
  rw [List.map_map]
  rfl

/-- What a rebuild writes is in no group. -/
theorem ungrouped_of_written {money : MoneyColumn} {c : ClosedPositionRow}
    (h : c ∈ (scannedLifecycles kind account s).map (ClosedPositionRow.heldIn money)) :
    c.ungrouped = c := by
  obtain ⟨row, hrow, rfl⟩ := List.mem_map.mp h
  obtain ⟨sid, hlife⟩ := isLifecycle_of_mem_lifecycles hrow
  cases row
  cases hlife.group
  rfl

end Rebuild

/-! ## A pass in between -/

section Pass

variable (kind : StoreKind)

/-- The closed positions without their groups, and the securities. -/
def passFrame (s : InMemoryStore) : List (ℕ × ClosedPositionRow) × Table SecurityRow.key :=
  (s.closedPositions.rows.map fun p => (p.1, p.2.ungrouped), s.securities)

/-- A call of a pass changes closed positions in their groups only, and no security. -/
theorem passFrame_call {op : LedgerOp} (hop : op.IsPassCall ∨ ∃ row, op = .upsertTradeGroup row)
    (s : InMemoryStore) : passFrame (kind.handler op s).2 = passFrame s := by
  have hstamp : ∀ (f : ClosedPositionRow → Option ℕ), (s.closedPositions.modify
      (fun cp => { cp with tradeGroupId := f cp }) (fun _ => rfl)).rows.map
        (fun p => (p.1, p.2.ungrouped)) =
      s.closedPositions.rows.map fun p => (p.1, p.2.ungrouped) := fun f => by
    rw [Table.modify, List.map_map]
    rfl
  have hmemory : ∀ op : LedgerOp, (op.IsPassCall ∨ ∃ row, op = .upsertTradeGroup row) →
      passFrame (s.step op).2 = passFrame s := fun op hop => by
    rcases hop with hop | ⟨row, rfl⟩
    · cases op with
      | upsertOrders rows =>
        obtain ⟨orders, hframe⟩ := s.upsertOrders_frame rows
        rw [InMemoryStore.step, hframe]
        rfl
      | upsertTransactions rows =>
        obtain ⟨transactions, hframe⟩ := s.upsertTransactions_frame rows
        rw [InMemoryStore.step, hframe]
        rfl
      | linkClosedPositionsToGroups account => exact Prod.ext (hstamp _) rfl
      | _ => first | rfl | exact hop.elim
    · rfl
  cases kind with
  | memory => exact hmemory op hop
  | sql money scan =>
    cases op with
    | linkClosedPositionsToGroups account => exact Prod.ext (hstamp _) rfl
    | upsertOrders rows => exact hmemory (.upsertOrders _) (Or.inl trivial)
    | upsertTransactions rows => exact hmemory (.upsertTransactions _) (Or.inl trivial)
    | upsertTradeGroup row => exact hmemory (.upsertTradeGroup _) (Or.inr ⟨_, rfl⟩)
    | addTradeGroupEvent ev => exact hmemory (.addTradeGroupEvent _) (Or.inl trivial)
    | upsertSecurity _ | upsertPositions _ | upsertClosedPosition _ =>
      obtain hop | ⟨_, he⟩ := hop
      · exact hop.elim
      · cases he
    | accountActivity f => rfl
    | _ => exact hmemory _ hop

/-- **A pass** changes closed positions in their groups only, and no security. -/
theorem passFrame_afterPass (scope : Option String) (args : ReconcileArgs) (s : InMemoryStore) :
    passFrame (afterPass kind s scope args) = passFrame s := by
  have hcalls : (reconcile scope args).Calls fun op =>
      op.IsPassCall ∨ ∃ row, op = .upsertTradeGroup row := by
    refine (passCalls_reconcile scope args {}).calls fun seen op hop => ?_
    cases op with
    | upsertTradeGroup row => exact Or.inr ⟨row, rfl⟩
    | _ => exact Or.inl hop
  exact hcalls.run_frame passFrame (fun op s hop => passFrame_call kind hop s) s

/-- A pass leaves each row that the rebuild before has written as it is, but for its group. -/
theorem exists_stored_afterPass (start : InMemoryStore) (account : String) (scope : Option String)
    (args : ReconcileArgs) {c : ClosedPositionRow}
    (hc : (((scannedLifecycles kind account start).map (ClosedPositionRow.heldIn kind.money)).filter
      fun c' => c'.key = c.key).getLast? = some c) :
    ∃ stored ∈ (afterPass kind (afterRebuild kind account start) scope
      args).closedPositions.values, stored.ungrouped = c := by
  have hk : c.key = some (c.account, c.securityId, c.openedAt, c.closedAt) := rfl
  have hget : (afterRebuild kind account start).closedPositions.getByKey
      (c.account, c.securityId, c.openedAt, c.closedAt) = some c := by
    rw [closedPositions_afterRebuild, Table.getByKey_upsertAll _ (fun _ _ => rfl), ← hk, hc]
    rfl
  obtain ⟨⟨i, hi⟩, -⟩ := Table.getByKey_eq_some.mp hget
  have hmem : (i, c.ungrouped) ∈ (passFrame (afterRebuild kind account start)).1 :=
    List.mem_map.mpr ⟨_, hi, rfl⟩
  rw [← passFrame_afterPass kind scope args] at hmem
  obtain ⟨p, hp, hpc⟩ := List.mem_map.mp hmem
  exact ⟨p.2, List.mem_map.mpr ⟨p, hp, rfl⟩, (congrArg Prod.snd hpc).trans
    (ungrouped_of_written kind account start (List.mem_of_mem_filter (List.mem_of_getLast? hc)))⟩

/-- While the transactions are the same, the walk computes the same lifecycles after the pass. -/
theorem scannedLifecycles_afterPass {start : InMemoryStore} {account : String}
    {scope : Option String} {args : ReconcileArgs}
    (hsame : SameTransactions kind account start
      (afterPass kind (afterRebuild kind account start) scope args)) :
    scannedLifecycles kind account (afterPass kind (afterRebuild kind account start) scope args) =
      scannedLifecycles kind account start := by
  have hsecurities : (afterPass kind (afterRebuild kind account start) scope args).securities =
      start.securities :=
    (congrArg Prod.snd (passFrame_afterPass kind scope args _)).trans
      (rebuilt_afterRebuild kind account start).securities
  have hget : (afterPass kind (afterRebuild kind account start) scope args).getSecurity =
      start.getSecurity := by
    unfold InMemoryStore.getSecurity
    rw [hsecurities]
  rw [scannedLifecycles, ← lifecycles_unlinked, hsame, lifecycles_unlinked, hget,
    scannedLifecycles]

end Pass

/-- **A rebuild, a pass and a rebuild of the same transactions** leave every closed position as the
pass left it exactly when the pass has stamped none of the rows that the first rebuild wrote. -/
theorem closedPositions_kept_iff (kind : StoreKind) (account : String) (start : InMemoryStore)
    (scope : Option String) (args : ReconcileArgs)
    (hsame : SameTransactions kind account start
      (afterPass kind (afterRebuild kind account start) scope args)) :
    let s := afterPass kind (afterRebuild kind account start) scope args
    (afterRebuild kind account s).closedPositions = s.closedPositions ↔
      NoneStamped kind account start s := by
  intro s
  have hwritten := fun c => exists_stored_afterPass kind start account scope args (c := c)
  rw [closedPositions_afterRebuild, scannedLifecycles_afterPass kind hsame,
    Table.upsertAll_eq_self_iff fun _ => rfl]
  constructor
  · intro h stored hstored hkey
    rw [← keys_map_heldIn kind.money] at hkey
    obtain ⟨c, hc, hck⟩ := List.mem_map.mp hkey
    have hmem : c ∈ ((scannedLifecycles kind account start).map
        (ClosedPositionRow.heldIn kind.money)).filter fun c' => c'.key = stored.key :=
      List.mem_filter.mpr ⟨hc, decide_eq_true hck⟩
    obtain ⟨last, hlast⟩ := Option.isSome_iff_exists.mp
      (List.getLast?_isSome.mpr (List.ne_nil_of_mem hmem))
    obtain ⟨hlmem, hlkey⟩ := List.mem_filter.mp (List.mem_of_getLast? hlast)
    have hlkey := of_decide_eq_true hlkey
    rw [← hlkey] at hlast
    -- the last lifecycle of the key is the row stored under it
    have hrow : some last = some stored := by
      rw [← Table.getByKey_of_mem_values (h last hlast) hlkey,
        Table.getByKey_of_mem_values hstored rfl]
    rw [← Option.some.inj hrow, ← ungrouped_of_written kind account start hlmem]
    rfl
  · intro h c hc
    obtain ⟨stored, hstored, rfl⟩ := hwritten c hc
    have hmem := List.mem_of_mem_filter (List.mem_of_getLast? hc)
    have hkey : stored.key ∈ (scannedLifecycles kind account start).map ClosedPositionRow.key := by
      rw [← keys_map_heldIn kind.money]
      exact List.mem_map.mpr ⟨_, hmem, rfl⟩
    have hnone := h stored hstored hkey
    have hself : stored.ungrouped = stored := by
      cases stored
      cases hnone
      rfl
    rwa [hself]

/-- A contract bought and sold, after the pass that groups its fills; `closing` is the order of the
sale. -/
def soldContract (closing : Option String) : InMemoryStore :=
  (exec (reconcile (some "main") {}) (InMemoryStore.seeded []
    [OrderRow.placed "main" "o1", OrderRow.placed "main" "o2"]
    [{ TxnRow.fill "main" "t1" "o1" "Buy to Open" "SPX" 1 0 with price := some 10 },
      { TxnRow.fill "main" "t2" "o2" "Sell to Close" "SPX" 1 (2 * second) with
        ttOrderId := closing, price := some 12 }])).2

/-- A sale that names no order is stamped with no group: on a store of micro-units the closed
position stays. -/
theorem closedPositions_kept_unordered :
    let kind := StoreKind.sql .sqlite List.reverse
    let s := afterPass kind (afterRebuild kind "main" (soldContract none)) (some "main") {}
    s.closedPositions.values.map ClosedPositionRow.realizedPnl = [some 2] ∧
      (afterRebuild kind "main" s).closedPositions = s.closedPositions :=
  ⟨by decide +kernel,
    (closedPositions_kept_iff (.sql .sqlite List.reverse) "main" (soldContract none) (some "main")
      {} (by decide +kernel)).mpr (by decide +kernel)⟩

/-- The pass stamps the group of the closing order, and the rebuild takes it away. -/
theorem not_closedPositions_kept :
    let start := soldContract (some "o2")
    let s := afterPass .memory (afterRebuild .memory "main" start) (some "main") {}
    SameTransactions .memory "main" start s ∧
      (s.closedPositions.values.map ClosedPositionRow.tradeGroupId = [some 1] ∧
        (afterRebuild .memory "main" s).closedPositions.values.map
          ClosedPositionRow.tradeGroupId = [none]) ∧
      (afterRebuild .memory "main" s).closedPositions ≠ s.closedPositions := by
  intro start s
  have hvalues : s.closedPositions.values.map ClosedPositionRow.tradeGroupId = [some 1] ∧
      (afterRebuild .memory "main" s).closedPositions.values.map
        ClosedPositionRow.tradeGroupId = [none] := by decide +kernel
  refine ⟨by decide +kernel, hvalues, fun h => ?_⟩
  have hsame := hvalues.2
  rw [h, hvalues.1] at hsame
  cases hsame

end TtLedger
