import TtLedger.Ingest.GroupWrites
import TtLedger.Ingest.Tasks

/-!
# The calls of the tasks

What every task has in common: it writes a group's row back with the submit-time columns of a row
it has read, or writes a new group under an identifier it has drawn, and it never takes a
transaction out of its group without putting it into another (`taskCalls_program`). `taskCalls` is
the monitor that remembers every row read and every identifier drawn. Opening a group writes that
one group, with the submit-time columns of its intent (`guarded_openTradeGroup`).
-/

namespace TtLedger

open LedgerStore Prog

/-! ## The monitor -/

/-- The columns of a group that are set when it is opened. -/
structure Frozen where
  initialRisk : Option ℚ
  structureText : Option String
  maxProfit : Option ℚ
  maxLoss : Option ℚ
  profitTarget : Option String
  stopLoss : Option String
  exitStrategy : Option String
  deriving DecidableEq

def TradeGroupRow.frozen (tg : TradeGroupRow) : Frozen where
  initialRisk := tg.initialRisk
  structureText := tg.structureText
  maxProfit := tg.maxProfit
  maxLoss := tg.maxLoss
  profitTarget := tg.profitTarget
  stopLoss := tg.stopLoss
  exitStrategy := tg.exitStrategy

def TradeGroupInput.frozen (input : TradeGroupInput) : Frozen where
  initialRisk := input.initialRisk
  structureText := input.structureText
  maxProfit := input.maxProfit
  maxLoss := input.maxLoss
  profitTarget := input.profitTarget
  stopLoss := input.stopLoss
  exitStrategy := input.exitStrategy

/-- The group rows read, the identifiers drawn and the groups written. -/
structure Learned where
  rows : List TradeGroupRow := []
  drawn : List String := []
  written : List String := []

namespace Learned

/-- What a call's reply adds to what is known. -/
def after (known : Learned) : (op : LedgerOp) → Except String op.Reply → Learned
  | .getTradeGroup _, .ok (some tg) => { known with rows := tg :: known.rows }
  | .getTradeGroupById _, .ok (some tg) => { known with rows := tg :: known.rows }
  | .uuid4, .ok id => { known with drawn := id :: known.drawn }
  | .upsertTradeGroup tg, .ok _ => { known with written := tg.groupId :: known.written }
  | _, _ => known

/-- A group row keeps the submit-time columns of a row read, or is new; a transaction that leaves
its group enters another. -/
def Allows (known : Learned) : LedgerOp → Prop
  | .upsertTradeGroup row =>
    (∃ tg ∈ known.rows, tg.groupId = row.groupId ∧ tg.frozen = row.frozen) ∨
      row.groupId ∈ known.drawn
  | .moveTransactionsToGroup _ pk => pk.isSome
  | _ => True

/-- Less is known. -/
structure Le (known known' : Learned) : Prop where
  rows : known.rows ⊆ known'.rows
  drawn : known.drawn ⊆ known'.drawn

end Learned

/-- The monitor of a task. -/
def taskCalls : Monitor LedgerOp LedgerOp.Reply String Learned where
  update := Learned.after
  allows := Learned.Allows

theorem taskCalls_grows : taskCalls.Grows Learned.Le where
  refl _ := ⟨List.Subset.refl _, List.Subset.refl _⟩
  trans h h' := ⟨List.Subset.trans h.rows h'.rows, List.Subset.trans h.drawn h'.drawn⟩
  update known op r := by
    cases op with
    | getTradeGroup k =>
      rcases r with e | _ | tg
      · exact ⟨List.Subset.refl _, List.Subset.refl _⟩
      · exact ⟨List.Subset.refl _, List.Subset.refl _⟩
      · exact ⟨List.subset_cons_self _ _, List.Subset.refl _⟩
    | getTradeGroupById pk =>
      rcases r with e | _ | tg
      · exact ⟨List.Subset.refl _, List.Subset.refl _⟩
      · exact ⟨List.Subset.refl _, List.Subset.refl _⟩
      · exact ⟨List.subset_cons_self _ _, List.Subset.refl _⟩
    | uuid4 =>
      rcases r with e | id
      · exact ⟨List.Subset.refl _, List.Subset.refl _⟩
      · exact ⟨List.Subset.refl _, List.subset_cons_self _ _⟩
    | upsertTradeGroup tg =>
      rcases r with e | pk <;> exact ⟨List.Subset.refl _, List.Subset.refl _⟩
    | _ => exact ⟨List.Subset.refl _, List.Subset.refl _⟩

/-- A program calls what a task may, once that much is known. -/
abbrev TaskCalls {α : Type} (known : Learned) (p : LedgerProg α) : Prop :=
  p.ObeysFrom taskCalls Learned.Le known

/-! ## Rules -/

section Rules

variable {α β : Type} {known : Learned}

theorem TaskCalls.bind {p : LedgerProg α} {f : α → LedgerProg β} (hp : TaskCalls known p)
    (hf : ∀ a, TaskCalls known (f a)) : TaskCalls known (p >>= f) :=
  ObeysFrom.bind taskCalls_grows hp hf

theorem TaskCalls.foldlM {f : β → α → LedgerProg β} {l : List α}
    (hf : ∀ b a, TaskCalls known (f b a)) : ∀ b, TaskCalls known (l.foldlM f b) :=
  ObeysFrom.foldlM taskCalls_grows fun b a _ => hf b a

/-- The calls that write no group and move no transaction. -/
def LedgerOp.IsFree : LedgerOp → Prop
  | upsertTradeGroup _ | moveTransactionsToGroup _ _ => False
  | _ => True

theorem taskCalls_of_free {p : LedgerProg α} (hp : p.Calls LedgerOp.IsFree) :
    TaskCalls known p := by
  refine ObeysFrom.of_calls hp fun op hop known => ?_
  cases op <;> first | exact trivial | exact hop.elim

/-- The calls that, beyond that, record no event. -/
def LedgerOp.IsQuiet : LedgerOp → Prop
  | upsertTradeGroup _ | moveTransactionsToGroup _ _ | addTradeGroupEvent _ => False
  | _ => True

theorem Prog.Calls.free {p : LedgerProg α} (hp : p.Calls LedgerOp.IsQuiet) :
    p.Calls LedgerOp.IsFree :=
  hp.mono fun op hop => by cases op <;> first | exact trivial | exact hop.elim

theorem taskCalls_of_reads {p : LedgerProg α} (hp : ReadOnly p) : TaskCalls known p :=
  taskCalls_of_free (hp.calls.mono fun op hop => by cases op <;> trivial)

theorem taskCalls_issue {op : LedgerOp} (hop : op.IsFree) : TaskCalls known (issue op) :=
  taskCalls_of_free (Calls.invoke.mpr hop)

/-- A group is written back with the submit-time columns of a row that has been read. -/
theorem taskCalls_upsert_read {tg row : TradeGroupRow} (hmem : tg ∈ known.rows)
    (hid : tg.groupId = row.groupId) (hfrozen : tg.frozen = row.frozen) :
    TaskCalls known (upsertTradeGroup row) :=
  fun _ hle => Obeys.invoke (Or.inl ⟨tg, hle.rows hmem, hid, hfrozen⟩)

/-- A group is written under an identifier that has been drawn. -/
theorem taskCalls_upsert_drawn {row : TradeGroupRow} (hmem : row.groupId ∈ known.drawn) :
    TaskCalls known (upsertTradeGroup row) :=
  fun _ hle => Obeys.invoke (Or.inr (hle.drawn hmem))

/-- What follows a read of a group knows the row. -/
theorem taskCalls_getTradeGroup {groupId : String}
    {f : Option TradeGroupRow → LedgerProg α} (hnone : TaskCalls known (f none))
    (hsome : ∀ tg known', known.Le known' → tg ∈ known'.rows → TaskCalls known' (f (some tg))) :
    TaskCalls known (getTradeGroup groupId >>= f) := by
  refine ObeysFrom.bind_invoke taskCalls_grows (fun _ _ => trivial) fun tg? known' hle => ?_
  cases tg? with
  | none => exact fun known'' h => hnone known'' (taskCalls_grows.trans hle h)
  | some tg =>
    refine hsome tg _ (taskCalls_grows.trans hle ?_) (List.mem_cons_self ..)
    exact taskCalls_grows.update known' (.getTradeGroup groupId) (.ok (some tg))

theorem taskCalls_getTradeGroupById {pk : ℕ}
    {f : Option TradeGroupRow → LedgerProg α} (hnone : TaskCalls known (f none))
    (hsome : ∀ tg known', known.Le known' → tg ∈ known'.rows → TaskCalls known' (f (some tg))) :
    TaskCalls known (getTradeGroupById pk >>= f) := by
  refine ObeysFrom.bind_invoke taskCalls_grows (fun _ _ => trivial) fun tg? known' hle => ?_
  cases tg? with
  | none => exact fun known'' h => hnone known'' (taskCalls_grows.trans hle h)
  | some tg =>
    refine hsome tg _ (taskCalls_grows.trans hle ?_) (List.mem_cons_self ..)
    exact taskCalls_grows.update known' (.getTradeGroupById pk) (.ok (some tg))

/-- What follows a draw knows the identifier. -/
theorem taskCalls_uuid4 {f : String → LedgerProg α}
    (hf : ∀ id known', known.Le known' → id ∈ known'.drawn → TaskCalls known' (f id)) :
    TaskCalls known (uuid4 >>= f) := by
  refine ObeysFrom.bind_invoke taskCalls_grows (fun _ _ => trivial) fun id known' hle => ?_
  refine hf id _ (taskCalls_grows.trans hle ?_) (List.mem_cons_self ..)
  exact taskCalls_grows.update known' .uuid4 (.ok id)

/-- A pass calls what a task may. -/
theorem PassCalls.taskCalls {p : LedgerProg α} (hp : PassCalls p) : TaskCalls known p := by
  intro known' _
  refine (hp {}).follow
    (R := fun seen known => (∀ tg, seen.row = some tg → tg ∈ known.rows) ∧
      ∀ id, seen.drawn = some id → id ∈ known.drawn)
    (fun seen known op hR hop => ?_) (fun seen known op r hR _ => ?_)
    ⟨fun _ he => (by cases he), fun _ he => (by cases he)⟩
  · cases op with
    | upsertTradeGroup row =>
      rcases hop with ⟨tg, hrow, hpass⟩ | hdrawn
      · refine Or.inl ⟨tg, hR.1 tg hrow, hpass.keepsAttribution.groupId.symm, ?_⟩
        cases hpass <;> rfl
      · exact Or.inr (hR.2 _ hdrawn)
    | moveTransactionsToGroup ids pk => exact hop.elim
    | _ => trivial
  · cases op with
    | upsertTradeGroup row => exact ⟨fun _ he => (by cases he), fun _ he => (by cases he)⟩
    | getTradeGroup k =>
      refine ⟨fun tg he => (taskCalls_grows.update known _ _).rows (hR.1 tg he), fun id he => ?_⟩
      exact (taskCalls_grows.update known _ _).drawn (hR.2 id he)
    | getTradeGroupById pk =>
      rcases r with e | _ | tg
      · exact hR
      · exact hR
      · exact ⟨fun tg' he => (Option.some.inj he) ▸ List.mem_cons_self .., hR.2⟩
    | uuid4 =>
      rcases r with e | id
      · exact hR
      · exact ⟨hR.1, fun id' he => (Option.some.inj he) ▸ List.mem_cons_self ..⟩
    | _ => exact hR

end Rules

/-! ## Imports, fills and rebuilds -/

theorem quiet_resolveSecurity (resolver : SecurityResolver) (seen : List String) (symbol : String)
    (instrumentType : Option String) :
    (resolveSecurity resolver seen symbol instrumentType).Calls LedgerOp.IsQuiet := by
  refine (Calls.ofExcept _).bind fun resolved => ?_
  split
  · exact Calls.pure _
  · exact (Calls.invoke.mpr (by trivial)).bind fun _ => Calls.pure _

theorem quiet_upsertTransactions (resolver : SecurityResolver) (txns : List BrokerTransaction)
    (account sourceSystem : String) :
    (TransactionRepository.upsert resolver txns account sourceSystem).Calls LedgerOp.IsQuiet := by
  unfold TransactionRepository.upsert
  split
  · exact Calls.pure _
  · refine (Calls.foldlM (fun w t _ => ?_) _).bind fun w =>
      (Calls.invoke.mpr (by trivial)).bind fun _ => Calls.pure _
    unfold TransactionRepository.addRow
    split
    · exact (quiet_resolveSecurity _ _ _ _).bind fun _ => Calls.pure _
    · exact Calls.pure _

theorem quiet_buildOrderRow (account : String) (securityId : Option String) (po : PlacedOrder) :
    (OrderRepository.buildOrderRow account securityId po).Calls LedgerOp.IsQuiet := by
  refine (Calls.invoke.mpr (by trivial)).bind fun existing => ?_
  split
  · split <;> exact Calls.pure _
  · exact Calls.pure _

theorem quiet_upsertFromHistory (resolver : SecurityResolver) (placedOrders : List PlacedOrder)
    (account : String) :
    (OrderRepository.upsertFromHistory resolver placedOrders account).Calls LedgerOp.IsQuiet := by
  unfold OrderRepository.upsertFromHistory
  split
  · exact Calls.pure _
  · refine (Calls.foldlM (fun w po _ => ?_) _).bind fun w => ?_
    · refine (Calls.foldlM (fun w leg _ => ?_) _).bind fun _ => Calls.pure _
      exact (quiet_resolveSecurity _ _ _ _).bind fun _ => Calls.pure _
    · refine (Calls.mapM fun p _ => quiet_buildOrderRow account p.2 p.1).bind fun rows => ?_
      exact (Calls.invoke.mpr (by trivial)).bind fun _ => Calls.pure _

theorem quiet_upsertPositions (resolver : SecurityResolver) (positions : List BrokerPosition)
    (account : String) :
    (PositionRepository.upsert resolver positions account).Calls LedgerOp.IsQuiet := by
  unfold PositionRepository.upsert
  split
  · exact Calls.pure _
  · refine (Calls.foldlM (fun w p _ => ?_) _).bind fun w =>
      (Calls.invoke.mpr (by trivial)).bind fun _ => Calls.pure _
    refine (quiet_resolveSecurity _ _ _ _).bind fun _ => ?_
    exact (Calls.invoke.mpr (by trivial)).bind fun _ => Calls.pure _

theorem quiet_applyFillEvent (evt : FillEvent) :
    (applyFillEvent evt).Calls LedgerOp.IsQuiet := by
  refine (Calls.invoke.mpr (by trivial)).bind fun existing => ?_
  split
  · exact Calls.pure _
  · exact (Calls.invoke.mpr (by trivial)).bind fun _ => Calls.pure _

theorem quiet_recordOrder (resolver : SecurityResolver) (order : OrderInput) :
    (recordOrder resolver order).Calls LedgerOp.IsQuiet := by
  refine Calls.bind ?_ fun tradeGroupId => (Calls.invoke.mpr (by trivial)).bind fun at_ =>
    (Calls.invoke.mpr (by trivial)).bind fun _ =>
      (Calls.foldlM (fun w leg _ => ?_) _).bind fun _ => Calls.pure _
  · unfold tradeGroupPk
    split
    · exact Calls.pure _
    · refine (Calls.invoke.mpr (by trivial)).bind fun pk? => ?_
      split
      · exact Calls.raise _
      · exact Calls.pure _
  · exact (quiet_resolveSecurity _ _ _ _).bind fun _ => Calls.pure _

theorem quiet_rebuildSecurity (account : String) (lastActivity : Option Datetime)
    (e : String × List TxnRow) :
    (rebuildSecurity account lastActivity e).Calls LedgerOp.IsQuiet := by
  refine (Calls.map multiplierOf (Calls.invoke.mpr (by trivial))).bind fun multiplier => ?_
  refine (Calls.invoke.mpr (by trivial)).bind fun sec => (Calls.invoke.mpr (by trivial)).bind
    fun existing => (Calls.invoke.mpr (by trivial)).bind fun _ =>
      (Calls.invoke.mpr (by trivial)).bind
    fun positionId => (Calls.foldlM (fun links entry _ => ?_) _).bind fun links =>
      (Calls.invoke.mpr (by trivial)).bind fun _ => Calls.pure _
  unfold writeEntry
  simp only []
  split
  · exact Calls.pure _
  · exact (Calls.invoke.mpr (by trivial)).bind fun _ => Calls.pure _

theorem quiet_rebuildForAccount (account : String) :
    (rebuildForAccount account).Calls LedgerOp.IsQuiet := by
  refine (Calls.invoke.mpr (by trivial)).bind fun activity => ?_
  exact (Calls.forM fun e _ => quiet_rebuildSecurity account _ e).bind fun _ => Calls.pure _

theorem quiet_rebuildPositionsFromTransactions (account : Option String) :
    (rebuildPositionsFromTransactions account).Calls LedgerOp.IsQuiet := by
  refine ((readOnly_accountsOf account none).calls.mono fun op hop => ?_).bind fun accounts => ?_
  · cases op <;> trivial
  · refine Calls.foldlM (fun result acct _ => Calls.tryCatch ?_ fun e => Calls.pure _) _
    exact (quiet_rebuildForAccount acct).bind fun _ => Calls.pure _

/-! ## Groups opened, edited and repaired -/

section Edits

variable {known : Learned}

theorem taskCalls_openTradeGroup (account : String) (input : TradeGroupInput) :
    TaskCalls known (openTradeGroup account input) := by
  refine (taskCalls_issue (by trivial)).bind fun at_ => ?_
  refine taskCalls_uuid4 fun groupId known' _ hmem => ?_
  refine (taskCalls_upsert_drawn hmem).bind fun pk => ?_
  exact (taskCalls_issue (by trivial)).bind fun _ => ObeysFrom.pure _

theorem quiet_cascadeStrategy (strategy pk : ℕ) (updated : TradeGroupRow) :
    (cascadeStrategy strategy pk updated).Calls LedgerOp.IsQuiet := by
  refine (Calls.invoke.mpr (by trivial)).bind fun orders => ?_
  have hposition : (cascadeToPosition strategy pk updated).Calls LedgerOp.IsQuiet := by
    unfold cascadeToPosition
    split
    · exact Calls.pure _
    · refine (Calls.invoke.mpr (by trivial)).bind fun position => ?_
      split
      · exact Calls.pure _
      · exact Calls.invoke.mpr (by trivial)
  simp only []
  split
  · exact (Calls.invoke.mpr (by trivial)).bind fun _ => hposition
  · exact hposition

theorem taskCalls_remapTradeGroup (groupId : String) (attribution : Attribution) :
    TaskCalls known (remapTradeGroup groupId attribution) := by
  refine taskCalls_getTradeGroup (ObeysFrom.raise _) fun tg known' _ hmem => ?_
  refine (taskCalls_issue (by trivial)).bind fun at_ => ?_
  refine (taskCalls_upsert_read hmem (by rfl) (by rfl)).bind fun pk => ?_
  simp only []
  split
  · refine (taskCalls_of_free (quiet_cascadeStrategy _ _ _).free).bind fun _ => ?_
    exact (taskCalls_issue (by trivial)).bind fun _ => ObeysFrom.pure _
  · exact (taskCalls_issue (by trivial)).bind fun _ => ObeysFrom.pure _

theorem taskCalls_dismissTradeGroup (groupId reviewedBy : String) :
    TaskCalls known (dismissTradeGroup groupId reviewedBy) := by
  refine taskCalls_getTradeGroup (ObeysFrom.raise _) fun tg known' _ hmem => ?_
  refine (taskCalls_issue (by trivial)).bind fun at_ => ?_
  refine (taskCalls_upsert_read hmem (by rfl) (by rfl)).bind fun pk => ?_
  exact (taskCalls_issue (by trivial)).bind fun _ => ObeysFrom.pure _

theorem taskCalls_markTradeGroupUnfilled (groupId reviewedBy reason : String) :
    TaskCalls known (markTradeGroupUnfilled groupId reviewedBy reason) := by
  refine taskCalls_getTradeGroup (ObeysFrom.raise _) fun tg known' _ hmem => ?_
  have hrows : TaskCalls known' (transactionsOf groupId) := by
    refine (taskCalls_issue (by trivial)).bind fun pk? => ?_
    split
    · exact taskCalls_issue (by trivial)
    · exact ObeysFrom.pure _
  refine hrows.bind fun rows => ?_
  simp only []
  split
  · exact ObeysFrom.raise _
  · refine (taskCalls_issue (by trivial)).bind fun at_ => ?_
    refine (taskCalls_upsert_read hmem (by rfl) (by rfl)).bind fun pk => ?_
    exact (taskCalls_issue (by trivial)).bind fun _ => ObeysFrom.pure _

theorem taskCalls_regroupTarget (account : String) (targetGroupId : Option String)
    (reviewedBy : String) (at_ : Datetime) :
    TaskCalls known (regroupTarget account targetGroupId reviewedBy at_) := by
  cases targetGroupId with
  | none => exact taskCalls_uuid4 fun groupId known' _ hmem => taskCalls_upsert_drawn hmem
  | some id =>
    refine taskCalls_getTradeGroup (ObeysFrom.raise _) fun tg known' _ hmem => ?_
    exact taskCalls_upsert_read hmem (by rfl) (by rfl)

theorem taskCalls_linkTarget (order : OrderRow) (ttOrderId : String)
    (targetGroupId : Option String) (reviewedBy : String) (at_ : Datetime) :
    TaskCalls known (linkTarget order ttOrderId targetGroupId reviewedBy at_) := by
  cases targetGroupId with
  | none => exact taskCalls_uuid4 fun groupId known' _ hmem => taskCalls_upsert_drawn hmem
  | some id =>
    refine taskCalls_getTradeGroup (ObeysFrom.raise _) fun tg known' _ hmem => ?_
    simp only []
    split
    · exact ObeysFrom.raise _
    · exact taskCalls_upsert_read hmem (by rfl) (by rfl)

/-- What a recomputed group keeps. -/
theorem recomputedLifecycle_calls (tg : TradeGroupRow) (cluster : List TxnRow)
    {f : TradeGroupRow → LedgerProg TradeGroupRow}
    (hf : ∀ row, tg.groupId = row.groupId → tg.frozen = row.frozen → TaskCalls known (f row)) :
    TaskCalls known (recomputedLifecycle tg cluster >>= f) := by
  unfold recomputedLifecycle
  split
  · exact hf _ rfl rfl
  · split
    · rw [LawfulMonad.bind_assoc]
      refine (taskCalls_of_reads (readOnly_groupRealized cluster)).bind fun realized => ?_
      exact hf _ rfl rfl
    · exact hf _ rfl rfl

theorem taskCalls_recomputeAffected (reviewedBy : String) (at_ : Datetime)
    (updated : List TradeGroupRow) (pk : ℕ) :
    TaskCalls known (recomputeAffected reviewedBy at_ updated pk) := by
  refine taskCalls_getTradeGroupById (ObeysFrom.pure _) fun tg known' _ hmem => ?_
  refine TaskCalls.bind ?_ fun _ => (taskCalls_issue (by trivial)).bind fun _ => ObeysFrom.pure _
  refine (taskCalls_issue (by trivial)).bind fun activity => ?_
  refine (taskCalls_of_reads (readOnly_computeGroupFields _)).bind fun fields => ?_
  refine recomputedLifecycle_calls _ _ fun row hid hfrozen => ?_
  exact (taskCalls_upsert_read hmem hid hfrozen).bind fun _ => ObeysFrom.pure _

theorem taskCalls_regroupTransactions (txnIds : List ℕ) (targetGroupId : Option String)
    (reviewedBy : String) :
    TaskCalls known (regroupTransactions txnIds targetGroupId reviewedBy) := by
  unfold regroupTransactions
  split
  · exact ObeysFrom.pure _
  · refine (taskCalls_issue (by trivial)).bind fun txns => ?_
    split
    · exact ObeysFrom.pure _
    · refine (taskCalls_issue (by trivial)).bind fun at_ => ?_
      refine (taskCalls_regroupTarget _ _ _ _).bind fun pk => TaskCalls.bind ?_ fun _ => ?_
      · exact fun _ _ => Obeys.invoke rfl
      · exact TaskCalls.foldlM (fun updated pk => taskCalls_recomputeAffected _ _ _ _) _

theorem taskCalls_linkOrderToGroup (ttOrderId : String) (targetGroupId : Option String)
    (reviewedBy : String) :
    TaskCalls known (linkOrderToGroup ttOrderId targetGroupId reviewedBy) := by
  refine (taskCalls_issue (by trivial)).bind fun order? => ?_
  split
  · exact ObeysFrom.raise _
  · split
    · exact ObeysFrom.raise _
    · refine (taskCalls_issue (by trivial)).bind fun at_ => ?_
      refine (taskCalls_linkTarget _ _ _ _ _).bind fun pk => ?_
      refine (taskCalls_issue (by trivial)).bind fun _ => ?_
      refine (taskCalls_issue (by trivial)).bind fun _ => ?_
      refine (passCalls_reconcile _ _).taskCalls.bind fun _ => ?_
      refine (taskCalls_issue (by trivial)).bind fun tg? => ?_
      split
      · exact ObeysFrom.raise _
      · exact ObeysFrom.pure _

theorem quiet_hasFuture (sids : List String) : (hasFuture sids).Calls LedgerOp.IsQuiet := by
  induction sids with
  | nil => exact Calls.pure _
  | cons sid sids ih =>
    refine (Calls.invoke.mpr (by trivial)).bind fun sec? => ?_
    split
    · split
      · exact Calls.pure _
      · exact ih
    · exact ih

theorem taskCalls_recomputeTrade (str : ℚ → String) (account : String) (dryRun : Bool)
    (changes : List PnlChange) (trade : TradeGroupRow) :
    TaskCalls known (recomputeTrade str account dryRun changes trade) := by
  have hrestamp : ∀ pk old new, TaskCalls known (restamp str pk old new) := fun pk old new =>
    taskCalls_getTradeGroupById (ObeysFrom.pure _) fun tg known' _ hmem =>
      (taskCalls_upsert_read hmem (by rfl) (by rfl)).bind fun _ => taskCalls_issue (by trivial)
  unfold recomputeTrade
  split
  · exact ObeysFrom.pure _
  · refine (taskCalls_issue (by trivial)).bind fun pk? => ?_
    split
    · exact ObeysFrom.pure _
    · refine (taskCalls_issue (by trivial)).bind fun rows => ?_
      refine (taskCalls_of_free (quiet_hasFuture _).free).bind fun future => ?_
      split
      · refine (taskCalls_of_reads (readOnly_groupRealized rows)).bind fun new => ?_
        split
        · exact ObeysFrom.pure _
        · simp only []
          split
          · exact (hrestamp _ _ _).bind fun _ => ObeysFrom.pure _
          · exact ObeysFrom.pure _
      · exact ObeysFrom.pure _

theorem taskCalls_recomputeFuturesGroupPnl (str : ℚ → String) (account : Option String)
    (dryRun : Bool) : TaskCalls known (recomputeFuturesGroupPnl str account dryRun) := by
  refine (taskCalls_of_reads (readOnly_accountsOf account none)).bind fun accounts => ?_
  refine TaskCalls.foldlM (fun changes acct => ?_) _
  refine (taskCalls_issue (by trivial)).bind fun trades => ?_
  exact TaskCalls.foldlM (fun changes trade => taskCalls_recomputeTrade _ _ _ _ _) _

end Edits

/-! ## Every task -/

/-- **The calls of a task.** -/
theorem taskCalls_program (task : Task) (known : Learned) : TaskCalls known task.program := by
  cases task with
  | openTradeGroup account input =>
    exact (taskCalls_openTradeGroup account input).bind fun _ => ObeysFrom.pure _
  | recordOrder resolver order =>
    exact (taskCalls_of_free (quiet_recordOrder resolver order).free).bind fun _ => ObeysFrom.pure _
  | importOrders resolver placedOrders account =>
    exact (taskCalls_of_free (quiet_upsertFromHistory resolver placedOrders account).free).bind
      fun _ => ObeysFrom.pure _
  | importTransactions resolver settlementPrice account txns sourceSystem reconcileAfter =>
    refine TaskCalls.bind ?_ fun _ => ObeysFrom.pure _
    refine (taskCalls_of_free
      (quiet_upsertTransactions resolver txns account sourceSystem).free).bind
      fun transactions => ?_
    split
    · exact (passCalls_reconcile _ _).taskCalls.bind fun _ => ObeysFrom.pure _
    · exact ObeysFrom.pure _
  | importPositions resolver positions account =>
    exact (taskCalls_of_free (quiet_upsertPositions resolver positions account).free).bind
      fun _ => ObeysFrom.pure _
  | applyFill evt =>
    exact (taskCalls_of_free (quiet_applyFillEvent evt).free).bind fun _ => ObeysFrom.pure _
  | linkOrder ttOrderId targetGroupId reviewedBy =>
    exact (taskCalls_linkOrderToGroup ttOrderId targetGroupId reviewedBy).bind
      fun _ => ObeysFrom.pure _
  | regroup txnIds targetGroupId reviewedBy =>
    exact (taskCalls_regroupTransactions txnIds targetGroupId reviewedBy).bind
      fun _ => ObeysFrom.pure _
  | remap groupId attribution =>
    exact (taskCalls_remapTradeGroup groupId attribution).bind fun _ => ObeysFrom.pure _
  | markUnfilled groupId reviewedBy reason =>
    exact (taskCalls_markTradeGroupUnfilled groupId reviewedBy reason).bind
      fun _ => ObeysFrom.pure _
  | dismiss groupId reviewedBy =>
    exact (taskCalls_dismissTradeGroup groupId reviewedBy).bind fun _ => ObeysFrom.pure _
  | reconcile account args =>
    exact (passCalls_reconcile account args).taskCalls.bind fun _ => ObeysFrom.pure _
  | rebuild account =>
    exact (taskCalls_of_free (quiet_rebuildPositionsFromTransactions account).free).bind
      fun _ => ObeysFrom.pure _
  | recomputeFutures str account dryRun =>
    exact (taskCalls_recomputeFuturesGroupPnl str account dryRun).bind fun _ => ObeysFrom.pure _

/-! ## The group opened -/

/-- The monitor of the task that opens a group: it writes under identifiers it has drawn, with
these submit-time columns. -/
def openCalls (frozen : Frozen) : Monitor LedgerOp LedgerOp.Reply String Learned where
  update := Learned.after
  allows known op := ∀ row, op = .upsertTradeGroup row →
    row.groupId ∈ known.drawn ∧ row.frozen = frozen

/-- **The calls of `openTradeGroup`**: it returns the group it has written. -/
theorem guarded_openTradeGroup (account : String) (input : TradeGroupInput) :
    (Task.openTradeGroup account input).program.Guarded (openCalls input.frozen).meaning
      (openCalls input.frozen).allows {} fun x known =>
        ∀ row, x = .ok (some row) → row.groupId ∈ known.drawn ∧ row.groupId ∈ known.written := by
  have herr : ∀ (e : String) (known : Learned) (row : TradeGroupRow),
      (.error e : Except String (Option TradeGroupRow)) = .ok (some row) →
        row.groupId ∈ known.drawn ∧ row.groupId ∈ known.written := fun _ _ _ he => (by cases he)
  show (openTradeGroup account input >>= _).Guarded _ _ _ _
  unfold openTradeGroup
  simp only [LawfulMonad.bind_assoc]
  refine .bind_watch (fun _ he => by cases he) (fun at_ => ?_) herr
  refine .bind_watch (fun _ he => by cases he) (fun groupId => ?_) herr
  refine .bind_watch (fun row he => ?_) (fun pk => ?_) herr
  · cases he
    exact ⟨List.mem_cons_self .., rfl⟩
  · refine .bind_watch (fun _ he => by cases he) (fun _ => fun row he => ?_) herr
    obtain rfl := Option.some.inj (Except.ok.inj he)
    exact ⟨List.mem_cons_self .., List.mem_cons_self ..⟩

end TtLedger
