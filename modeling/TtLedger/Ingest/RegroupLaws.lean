import TtLedger.Ingest.Remap
import TtLedger.Ingest.LinkLaws

/-!
# What a regroup writes

On the in-memory store `regroupTransactions` marks or opens the target, moves the rows, and
rewrites the row of each affected group as a function of the rows it then has (`recomputedRow`):
`exec_regroupTransactions` is the run, and `Regrouped` says which rows it leaves
(`regrouped_of_exec`).
-/

namespace TtLedger

open LedgerStore

variable (s : InMemoryStore)

/-! ## Recomputing one group -/

/-- The rows a group is recomputed from: those of its account, in table order. -/
def clusterOf (pk : ℕ) (tg : TradeGroupRow) : List TxnRow :=
  s.transactions.values.filter fun r => r.account = tg.account && r.tradeGroupId = some pk

/-- What a recompute makes of a group's row. -/
def recomputedRow (pk : ℕ) (tg : TradeGroupRow) : TradeGroupRow :=
  let rows := clusterOf s pk tg
  let columns := recomputed tg (fieldsOf s.getSecurity rows)
  if rows.isEmpty then { columns with reviewStatus := .ignored, realizedPnl := none }
  else if fullyClosed rows then
    stamp columns rows (lastExecutedAt rows) (realizedOf s.getSecurity rows)
  else columns

@[simp] theorem groupId_recomputedRow (pk : ℕ) (tg : TradeGroupRow) :
    (recomputedRow s pk tg).groupId = tg.groupId := by
  unfold recomputedRow
  simp only []
  split_ifs <;> rfl

@[simp] theorem account_recomputedRow (pk : ℕ) (tg : TradeGroupRow) :
    (recomputedRow s pk tg).account = tg.account := by
  unfold recomputedRow
  simp only []
  split_ifs <;> rfl

theorem recomputedRow_of_nil {pk : ℕ} {tg : TradeGroupRow} (h : clusterOf s pk tg = []) :
    recomputedRow s pk tg =
      { recomputed tg (fieldsOf s.getSecurity (clusterOf s pk tg)) with
        reviewStatus := .ignored
        realizedPnl := none } := by
  have hempty : (clusterOf s pk tg).isEmpty = true := by rw [h, List.isEmpty_nil]
  unfold recomputedRow
  simp only [hempty, if_true]

theorem recomputedRow_of_fullyClosed {pk : ℕ} {tg : TradeGroupRow}
    (h : fullyClosed (clusterOf s pk tg) = true) :
    recomputedRow s pk tg =
      stamp (recomputed tg (fieldsOf s.getSecurity (clusterOf s pk tg))) (clusterOf s pk tg)
        (lastExecutedAt (clusterOf s pk tg)) (realizedOf s.getSecurity (clusterOf s pk tg)) := by
  have hempty : (clusterOf s pk tg).isEmpty = false := by
    cases hrows : clusterOf s pk tg with
    | nil =>
      rw [hrows] at h
      cases h
    | cons => rfl
  unfold recomputedRow
  simp only [hempty, h, if_true, Bool.false_eq_true, if_false]

/-- A recompute reads the transactions and the securities. -/
theorem recomputedRow_congr {s s' : InMemoryStore} (ht : s'.transactions = s.transactions)
    (hs : s'.securities = s.securities) (pk : ℕ) (tg : TradeGroupRow) :
    recomputedRow s' pk tg = recomputedRow s pk tg := by
  have hsec : s'.getSecurity = s.getSecurity := by
    funext sid
    rw [InMemoryStore.getSecurity, hs, InMemoryStore.getSecurity]
  unfold recomputedRow clusterOf
  rw [ht, hsec]

theorem clusterOf_eq (pk : ℕ) (tg : TradeGroupRow) :
    ((s.accountActivity { account := some tg.account }).map ActivityRow.toTxnRow).filter
        (fun r => r.tradeGroupId = some pk) = clusterOf s pk tg := by
  rw [s.toTxnRow_accountActivity, List.filter_filter]
  exact List.filter_congr fun r _ => Bool.and_comm _ _

/-- A group whose rows are of its own account is recomputed from all of them. -/
theorem clusterOf_eq_members {pk : ℕ} {tg : TradeGroupRow}
    (h : ∀ r ∈ s.members pk, r.account = tg.account) : clusterOf s pk tg = s.members pk := by
  refine List.filter_congr fun r hr => ?_
  by_cases hgroup : r.tradeGroupId = some pk
  · have hr' : r ∈ s.members pk := List.mem_filter.mpr ⟨hr, decide_eq_true hgroup⟩
    simp [hgroup, h r hr']
  · simp [hgroup]

theorem exec_recomputedLifecycle (tg : TradeGroupRow) (rows : List TxnRow) :
    exec (recomputedLifecycle tg rows) s =
      (.ok (if rows.isEmpty then { tg with reviewStatus := .ignored, realizedPnl := none }
        else if fullyClosed rows then
          stamp tg rows (lastExecutedAt rows) (realizedOf s.getSecurity rows)
        else tg), s) := by
  unfold recomputedLifecycle
  split_ifs
  · rfl
  · rw [exec_bind (exec_groupRealized s rows), exec_pure]
  · rfl

/-- A recompute rewrites the group's row. -/
theorem exec_recomputeGroup_row (pk : ℕ) (tg : TradeGroupRow) :
    exec (recomputeGroup pk tg) s =
      (.ok (recomputedRow s pk tg), s.putGroup (recomputedRow s pk tg)) := by
  unfold recomputeGroup
  rw [exec_bind (exec_accountActivity s _)]
  simp only [clusterOf_eq]
  rw [exec_bind (exec_computeGroupFields s _), exec_bind (exec_recomputedLifecycle s _ _)]
  rfl

/-! ## The affected groups -/

section Affected

variable (reviewedBy : String) (at_ : Datetime)

/-- The state after one affected group is recomputed. -/
def affectedStep (s : InMemoryStore) (pk : ℕ) : InMemoryStore :=
  match s.getTradeGroupById pk with
  | none => s
  | some tg => (s.putGroup (recomputedRow s pk tg)).addTradeGroupEvent
      (adjustment pk at_ ("regrouped by " ++ reviewedBy))

theorem exec_recomputeAffected (updated : List TradeGroupRow) (pk : ℕ) :
    ∃ groups, exec (recomputeAffected reviewedBy at_ updated pk) s =
      (.ok groups, affectedStep reviewedBy at_ s pk) := by
  unfold recomputeAffected affectedStep
  rw [exec_bind (exec_getTradeGroupById s pk)]
  cases s.getTradeGroupById pk with
  | none => exact ⟨updated, rfl⟩
  | some tg =>
    simp only []
    rw [exec_bind (exec_recomputeGroup_row s pk tg), exec_bind (exec_addTradeGroupEvent _ _)]
    exact ⟨_, rfl⟩

theorem exec_recomputeAffected_all (pks : List ℕ) (updated : List TradeGroupRow) :
    ∃ groups, exec (pks.foldlM (recomputeAffected reviewedBy at_) updated) s =
      (.ok groups, pks.foldl (affectedStep reviewedBy at_) s) := by
  induction pks generalizing s updated with
  | nil => exact ⟨updated, rfl⟩
  | cons pk pks ih =>
    obtain ⟨groups, hone⟩ := exec_recomputeAffected s reviewedBy at_ updated pk
    obtain ⟨groups', hall⟩ := ih (affectedStep reviewedBy at_ s pk) groups
    exact ⟨groups', by rw [List.foldlM_cons, exec_bind hone, hall, List.foldl_cons]⟩

@[simp] theorem transactions_affectedStep (pk : ℕ) :
    (affectedStep reviewedBy at_ s pk).transactions = s.transactions := by
  unfold affectedStep
  split <;> rfl

@[simp] theorem securities_affectedStep (pk : ℕ) :
    (affectedStep reviewedBy at_ s pk).securities = s.securities := by
  unfold affectedStep
  split <;> rfl

theorem getTradeGroupById_affectedStep (pk pk' : ℕ) :
    (affectedStep reviewedBy at_ s pk).getTradeGroupById pk' =
      if pk' = pk then (s.getTradeGroupById pk').map (recomputedRow s pk')
      else s.getTradeGroupById pk' := by
  unfold affectedStep
  cases htg : s.getTradeGroupById pk with
  | none =>
    by_cases hpk : pk' = pk
    · rw [if_pos hpk, hpk, htg, Option.map_none]
    · rw [if_neg hpk]
  | some tg =>
    have hput := s.getTradeGroupById_putGroup htg (groupId_recomputedRow s pk tg) pk'
    by_cases hpk : pk' = pk
    · rw [if_pos hpk] at hput ⊢
      rw [hpk, htg, Option.map_some, ← hput, hpk]
      rfl
    · rw [if_neg hpk] at hput ⊢
      rw [← hput]
      rfl

theorem transactions_affectedSteps (pks : List ℕ) :
    (pks.foldl (affectedStep reviewedBy at_) s).transactions = s.transactions := by
  induction pks generalizing s with
  | nil => rfl
  | cons pk pks ih => rw [List.foldl_cons, ih, transactions_affectedStep]

theorem securities_affectedSteps (pks : List ℕ) :
    (pks.foldl (affectedStep reviewedBy at_) s).securities = s.securities := by
  induction pks generalizing s with
  | nil => rfl
  | cons pk pks ih => rw [List.foldl_cons, ih, securities_affectedStep]

/-- The recomputes rewrite the rows of their groups, each from the same transactions. -/
theorem getTradeGroupById_affectedSteps {pks : List ℕ} (hpks : pks.Nodup) (pk : ℕ) :
    (pks.foldl (affectedStep reviewedBy at_) s).getTradeGroupById pk =
      if pk ∈ pks then (s.getTradeGroupById pk).map (recomputedRow s pk)
      else s.getTradeGroupById pk := by
  induction pks generalizing s with
  | nil => simp
  | cons pk' pks ih =>
    obtain ⟨hnot, hpks⟩ := List.nodup_cons.mp hpks
    have hrow : recomputedRow (affectedStep reviewedBy at_ s pk') pk = recomputedRow s pk := by
      funext tg
      exact recomputedRow_congr (transactions_affectedStep s reviewedBy at_ pk')
        (securities_affectedStep s reviewedBy at_ pk') pk tg
    rw [List.foldl_cons, ih _ hpks, getTradeGroupById_affectedStep, hrow]
    by_cases hpk : pk = pk'
    · subst hpk
      simp [hnot]
    · simp [hpk]

end Affected

/-! ## The target -/

section Target

variable {s} (account reviewedBy : String) (at_ : Datetime)

theorem exec_regroupTarget_none :
    exec (regroupTarget account none reviewedBy at_) s =
      (.ok (s.uuid4.2.upsertTradeGroup
          (manualGroupRow s.freshGroupId account reviewedBy at_)).1,
        s.uuid4.2.putGroup (manualGroupRow s.freshGroupId account reviewedBy at_)) := rfl

theorem exec_regroupTarget_some {k : String} {pk : ℕ} {tg : TradeGroupRow}
    (htg : s.getTradeGroupById pk = some tg) (hk : tg.groupId = k) :
    exec (regroupTarget account (some k) reviewedBy at_) s =
      (.ok pk, s.putGroup (reviewed tg reviewedBy at_)) := by
  have hget : s.getTradeGroup k = some tg :=
    Table.getByKey_eq_some.mpr ⟨⟨pk, Table.get_eq_some.mp htg⟩, by rw [TradeGroupRow.key, hk]⟩
  have hupsert : (s.upsertTradeGroup (reviewed tg reviewedBy at_)).1 = pk := by
    rw [InMemoryStore.upsertTradeGroup]
    have hkey : (reviewed tg reviewedBy at_).key = tg.key := rfl
    simp only [Table.upsert_of_get htg hkey rfl]
  unfold regroupTarget
  rw [exec_bind (exec_getTradeGroup s k), hget]
  simp only []
  rw [exec_upsertTradeGroup, hupsert]
  rfl

theorem exec_regroupTarget_missing {k : String} (hk : s.getTradeGroup k = none) :
    exec (regroupTarget account (some k) reviewedBy at_) s =
      (.error ("target trade group " ++ quoted k ++ " not found"), s) := by
  unfold regroupTarget
  rw [exec_bind (exec_getTradeGroup s k), hk]
  rfl

/-- What the target's row was, and is marked as. -/
structure Targets (s s₁ : InMemoryStore) (account reviewedBy : String) (at_ : Datetime)
    (target : ℕ) : Prop where
  transactions : s₁.transactions = s.transactions
  securities : s₁.securities = s.securities
  others : ∀ pk, pk ≠ target → s₁.getTradeGroupById pk = s.getTradeGroupById pk
  row : (∃ tg, s.getTradeGroupById target = some tg ∧
      s₁.getTradeGroupById target = some (reviewed tg reviewedBy at_)) ∨
    (s.getTradeGroupById target = none ∧ ∃ groupId,
      s₁.getTradeGroupById target = some (manualGroupRow groupId account reviewedBy at_))

/-- The group that a regroup moves rows to: the group named, or the next new one. -/
def InMemoryStore.regroupPk (s : InMemoryStore) (targetGroupId : Option String) : ℕ :=
  match targetGroupId with
  | none => s.tradeGroups.nextId
  | some k => (s.getTradeGroupId k).getD 0

variable {account reviewedBy at_}

/-- The row of a target that the ledger has. -/
theorem Targets.row_of_some {s₁ : InMemoryStore} {target : ℕ} {tg : TradeGroupRow}
    (h : Targets s s₁ account reviewedBy at_ target) (htg : s.getTradeGroupById target = some tg) :
    s₁.getTradeGroupById target = some (reviewed tg reviewedBy at_) := by
  rcases h.row with ⟨tg', htg', hrow⟩ | ⟨hnone, -⟩
  · rw [htg] at htg'
    obtain rfl := Option.some.inj htg'
    exact hrow
  · rw [htg] at hnone
    cases hnone

theorem targets_of_exec {targetGroupId : Option String} {target : ℕ} {s₁ : InMemoryStore}
    (h : exec (regroupTarget account targetGroupId reviewedBy at_) s = (.ok target, s₁)) :
    target = s.regroupPk targetGroupId ∧ Targets s s₁ account reviewedBy at_ target := by
  cases targetGroupId with
  | none =>
    rw [exec_regroupTarget_none] at h
    obtain ⟨hpk, rfl⟩ := Prod.mk.inj h
    have hnew := upsertTradeGroup_fresh s (manualGroupRow s.freshGroupId account reviewedBy at_) rfl
    have hget : ∀ pk, (s.uuid4.2.putGroup
        (manualGroupRow s.freshGroupId account reviewedBy at_)).getTradeGroupById pk =
        if pk = s.tradeGroups.nextId then
          some (manualGroupRow s.freshGroupId account reviewedBy at_)
        else s.getTradeGroupById pk := Table.get_upsert_of_new hnew
    have htarget : s.tradeGroups.nextId = target :=
      (Table.upsert_of_new _ _ hnew).1.symm.trans (Except.ok.inj hpk)
    subst htarget
    refine ⟨rfl, rfl, rfl, fun pk hne => by rw [hget, if_neg hne],
      Or.inr ⟨?_, s.freshGroupId, ?_⟩⟩
    · exact Table.get_eq_none_of_le (Nat.le_refl _)
    · rw [hget, if_pos rfl]
  | some k =>
    cases hk : s.getTradeGroup k with
    | none =>
      rw [exec_regroupTarget_missing account reviewedBy at_ hk] at h
      cases h
    | some tg =>
      obtain ⟨⟨pk, hmem⟩, hkey⟩ := Table.getByKey_eq_some.mp hk
      have htg : s.getTradeGroupById pk = some tg := Table.get_eq_some.mpr hmem
      rw [exec_regroupTarget_some account reviewedBy at_ htg (Option.some.inj hkey)] at h
      obtain ⟨hpk, rfl⟩ := Prod.mk.inj h
      obtain rfl := Except.ok.inj hpk
      have hput := s.getTradeGroupById_putGroup htg
        (show (reviewed tg reviewedBy at_).groupId = tg.groupId from rfl)
      have hid : s.getTradeGroupId k = some pk := Table.idOf_eq_some.mpr ⟨tg, hmem, hkey⟩
      exact ⟨by rw [InMemoryStore.regroupPk, hid, Option.getD_some], rfl, rfl,
        fun pk' hne => by rw [hput, if_neg hne], Or.inl ⟨tg, htg, by rw [hput, if_pos rfl]⟩⟩

end Target

/-! ## The regroup -/

section Regroup

variable {s}

/-- A row after a move of transactions into a group. -/
def movedRow (moved : List TxnRow) (target : ℕ) (r : TxnRow) : TxnRow :=
  if r.ttTransactionId ∈ moved.map TxnRow.ttTransactionId then
    { r with tradeGroupId := some target } else r

section MovedRow

variable {moved : List TxnRow} {target : ℕ}

@[simp] theorem account_movedRow (r : TxnRow) : (movedRow moved target r).account = r.account := by
  unfold movedRow
  split <;> rfl

@[simp] theorem securityId_movedRow (r : TxnRow) :
    (movedRow moved target r).securityId = r.securityId := by
  unfold movedRow
  split <;> rfl

@[simp] theorem signedGross_movedRow (r : TxnRow) :
    (movedRow moved target r).signedGross = r.signedGross := by
  unfold movedRow
  split <;> rfl

/-- A row that is moved is in the target, and any other where it was. -/
theorem tradeGroupId_movedRow (r : TxnRow) :
    (movedRow moved target r).tradeGroupId =
      if r.ttTransactionId ∈ moved.map TxnRow.ttTransactionId then some target
      else r.tradeGroupId := by
  unfold movedRow
  split <;> rfl

end MovedRow

/-- A row of a stored transaction's identifier is that transaction. -/
theorem mem_moved_of_id {txnIds : List ℕ} {r : TxnRow} (hr : r ∈ s.transactions.values)
    (hid : r.ttTransactionId ∈ (s.getTransactionsById txnIds).map TxnRow.ttTransactionId) :
    r ∈ s.getTransactionsById txnIds := by
  obtain ⟨m, hm, heq⟩ := List.mem_map.mp hid
  have hmem : m ∈ s.transactions.values := by
    obtain ⟨p, hp, rfl⟩ := List.mem_map.mp hm
    exact List.mem_map_of_mem (List.mem_of_mem_filter hp)
  have hrm : r = m := by
    have hr' := Table.getByKey_of_mem_values hr rfl
    have hm' := Table.getByKey_of_mem_values hmem rfl
    rw [heq] at hm'
    exact Option.some.inj (hr'.symm.trans hm')
  exact hrm ▸ hm

theorem values_moved (s : InMemoryStore) (txnIds : List ℕ) (target : ℕ) :
    (s.moveTransactionsToGroup txnIds (some target)).2.transactions.values =
      s.transactions.values.map (movedRow (s.getTransactionsById txnIds) target) := by
  have hids : ((s.transactions.rows.filter fun p => txnIds.contains p.1).map fun p =>
      p.2.ttTransactionId) = (s.getTransactionsById txnIds).map TxnRow.ttTransactionId := by
    rw [InMemoryStore.getTransactionsById, List.map_map]
    rfl
  rw [InMemoryStore.moveTransactionsToGroup]
  simp only [Table.values_modify, hids]
  rfl

/-- The groups a move affects: those the rows leave, and the one they go to. -/
def affectedGroups (moved : List TxnRow) (target : ℕ) : List ℕ :=
  ((moved.filterMap TxnRow.tradeGroupId).eraseDups ++ [target]).eraseDups

theorem mem_affectedGroups {moved : List TxnRow} {target pk : ℕ} :
    pk ∈ affectedGroups moved target ↔
      (∃ r ∈ moved, r.tradeGroupId = some pk) ∨ pk = target := by
  simp [affectedGroups, List.mem_eraseDups, List.mem_filterMap]

theorem nodup_affectedGroups (moved : List TxnRow) (target : ℕ) :
    (affectedGroups moved target).Nodup := nodup_eraseDups _

/-- What a regroup leaves behind: the rows moved, and each affected group's row recomputed from
the rows as they then are. -/
structure Regrouped (s s' : InMemoryStore) (moved : List TxnRow) (target : ℕ)
    (reviewedBy : String) : Prop where
  values : s'.transactions.values = s.transactions.values.map (movedRow moved target)
  securities : s'.securities = s.securities
  groups : ∃ first s₁, moved.head? = some first ∧
    Targets s s₁ first.account reviewedBy s.clock target ∧
    ∀ pk, s'.getTradeGroupById pk =
      if pk ∈ affectedGroups moved target then
        (s₁.getTradeGroupById pk).map (recomputedRow s' pk)
      else s₁.getTradeGroupById pk

theorem exec_regroupTransactions {txnIds : List ℕ} {targetGroupId : Option String}
    {reviewedBy : String} {first : TxnRow} {target : ℕ} {s₁ : InMemoryStore}
    (hfirst : (s.getTransactionsById txnIds).head? = some first)
    (htarget : exec (regroupTarget first.account targetGroupId reviewedBy s.clock) s =
      (.ok target, s₁)) :
    ∃ groups s', exec (regroupTransactions txnIds targetGroupId reviewedBy) s = (.ok groups, s') ∧
      target = s.regroupPk targetGroupId ∧
      Regrouped s s' (s.getTransactionsById txnIds) target reviewedBy := by
  have hids : txnIds.isEmpty = false := by
    cases txnIds with
    | nil => simp [InMemoryStore.getTransactionsById] at hfirst
    | cons => rfl
  obtain ⟨groups, hall⟩ := exec_recomputeAffected_all
    (s₁.moveTransactionsToGroup txnIds (some target)).2 reviewedBy s.clock
    (affectedGroups (s.getTransactionsById txnIds) target) []
  obtain ⟨hpk, htargets⟩ := targets_of_exec htarget
  refine ⟨groups, (affectedGroups (s.getTransactionsById txnIds) target).foldl
    (affectedStep reviewedBy s.clock) (s₁.moveTransactionsToGroup txnIds (some target)).2, ?_, hpk,
    ⟨?_, ?_, first, s₁, hfirst, htargets, fun pk => ?_⟩⟩
  · unfold regroupTransactions
    rw [hids]
    simp only [Bool.false_eq_true, if_false]
    rw [exec_bind (exec_getTransactionsById s txnIds)]
    simp only [hfirst]
    rw [exec_bind (exec_now s), exec_bind htarget, exec_bind (exec_moveTransactionsToGroup _ _ _)]
    exact hall
  · rw [transactions_affectedSteps, values_moved, InMemoryStore.getTransactionsById,
      InMemoryStore.getTransactionsById, htargets.transactions]
  · rw [securities_affectedSteps]
    exact htargets.securities
  · rw [getTradeGroupById_affectedSteps _ _ _ (nodup_affectedGroups _ _)]
    have hrow : recomputedRow ((affectedGroups (s.getTransactionsById txnIds) target).foldl
        (affectedStep reviewedBy s.clock) (s₁.moveTransactionsToGroup txnIds (some target)).2) pk =
        recomputedRow (s₁.moveTransactionsToGroup txnIds (some target)).2 pk := by
      funext tg
      exact recomputedRow_congr (transactions_affectedSteps _ _ _ _)
        (securities_affectedSteps _ _ _ _) pk tg
    rw [hrow]
    rfl

/-- A regroup that returns has moved the rows, unless there were none. -/
theorem regrouped_of_exec {txnIds : List ℕ} {targetGroupId : Option String} {reviewedBy : String}
    {groups : List TradeGroupRow} {s' : InMemoryStore}
    (h : exec (regroupTransactions txnIds targetGroupId reviewedBy) s = (.ok groups, s')) :
    (s.getTransactionsById txnIds = [] ∧ s' = s) ∨
      (s.getTransactionsById txnIds ≠ [] ∧
        Regrouped s s' (s.getTransactionsById txnIds) (s.regroupPk targetGroupId) reviewedBy) := by
  cases hfirst : (s.getTransactionsById txnIds).head? with
  | none =>
    refine Or.inl ⟨List.head?_eq_none_iff.mp hfirst, ?_⟩
    unfold regroupTransactions at h
    cases hids : txnIds.isEmpty with
    | true =>
      rw [hids] at h
      exact (congrArg Prod.snd h).symm
    | false =>
      rw [hids] at h
      simp only [Bool.false_eq_true, if_false] at h
      rw [exec_bind (exec_getTransactionsById s txnIds)] at h
      simp only [hfirst] at h
      exact (congrArg Prod.snd h).symm
  | some first =>
    right
    rcases htarget : exec (regroupTarget first.account targetGroupId reviewedBy s.clock) s with
      ⟨e | target, s₁⟩
    · exfalso
      have hids : txnIds.isEmpty = false := by
        cases txnIds with
        | nil => simp [InMemoryStore.getTransactionsById] at hfirst
        | cons => rfl
      unfold regroupTransactions at h
      rw [hids] at h
      simp only [Bool.false_eq_true, if_false] at h
      rw [exec_bind (exec_getTransactionsById s txnIds)] at h
      simp only [hfirst] at h
      rw [exec_bind (exec_now s), exec_bind_error htarget] at h
      cases h
    · obtain ⟨groups', s'', hrun, hpk, hregrouped⟩ := exec_regroupTransactions hfirst htarget
      rw [hrun] at h
      obtain ⟨-, rfl⟩ := Prod.mk.inj h
      refine ⟨fun hnil => ?_, hpk ▸ hregrouped⟩
      rw [hnil] at hfirst
      cases hfirst

end Regroup

end TtLedger
