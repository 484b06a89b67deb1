import TtLedger.Foundations.Interleave
import TtLedger.Ingest.PassRuns
import TtLedger.Ingest.ReadOnly

/-!
# The group rows a pass writes

A pass writes a group's whole row: back over a row it has read, with other lifecycle or financial
columns (`PassRow`), or new under an identifier it has drawn. `passCalls` is the monitor that
remembers the row last read and the identifier last drawn until one of them is written;
`passCalls_reconcile` says that every row a pass writes is one of these, and which calls it issues
at all. In particular the rows it writes keep the operator's columns of the row last read
(`writesGroups_reconcile`). No reply of the store is assumed, so it holds whatever else happens to
the store.
-/

namespace TtLedger

open LedgerStore Prog

/-- The row is of the same group, with the operator's columns; a strategy type that is set stays. -/
structure KeepsAttribution (tg row : TradeGroupRow) : Prop where
  groupId : row.groupId = tg.groupId
  strategyId : row.strategyId = tg.strategyId
  botName : row.botName = tg.botName
  signalId : row.signalId = tg.signalId
  manuallyAttributed : row.manuallyAttributed = tg.manuallyAttributed
  reviewStatus : row.reviewStatus = tg.reviewStatus
  reviewedBy : row.reviewedBy = tg.reviewedBy
  strategyType : truthy tg.strategyType → row.strategyType = tg.strategyType

theorem keepsAttribution_stamp (tg : TradeGroupRow) (rows : List TxnRow)
    (closedAt : Option Datetime) (realized : ℚ) :
    KeepsAttribution tg (stamp tg rows closedAt realized) :=
  ⟨rfl, rfl, rfl, rfl, rfl, rfl, rfl, fun _ => rfl⟩

theorem keepsAttribution_refreshed (tg : TradeGroupRow) (fields : GroupFields) :
    KeepsAttribution tg (refreshed tg fields) := by
  refine ⟨rfl, rfl, rfl, rfl, rfl, rfl, rfl, fun h => ?_⟩
  show orElse tg.strategyType (some fields.strategyType) = tg.strategyType
  rw [orElse, if_pos h]

/-- What a pass writes over a group's row: the row stamped closed, or refreshed. -/
inductive PassRow (tg : TradeGroupRow) : TradeGroupRow → Prop
  | stamped (rows : List TxnRow) (closedAt : Option Datetime) (realized : ℚ) :
      PassRow tg (stamp tg rows closedAt realized)
  | refreshed (fields : GroupFields) : PassRow tg (refreshed tg fields)

theorem PassRow.keepsAttribution {tg row : TradeGroupRow} (h : PassRow tg row) :
    KeepsAttribution tg row := by
  cases h with
  | stamped rows closedAt realized => exact keepsAttribution_stamp tg rows closedAt realized
  | refreshed fields => exact keepsAttribution_refreshed tg fields

/-! ## The monitor -/

/-- The group row last read, and the identifier last drawn. -/
structure Seen where
  row : Option TradeGroupRow := none
  drawn : Option String := none

/-- What a call's reply adds to what has been seen. -/
def Seen.after (seen : Seen) : (op : LedgerOp) → Except String op.Reply → Seen
  | .getTradeGroupById _, .ok (some tg) => { seen with row := some tg }
  | .uuid4, .ok id => { seen with drawn := some id }
  | _, _ => seen

/-- A group row may be written back over the row last read, or under the identifier last drawn. -/
def Seen.Allows (seen : Seen) : LedgerOp → Prop
  | .upsertTradeGroup row =>
    (∃ tg, seen.row = some tg ∧ KeepsAttribution tg row) ∨ seen.drawn = some row.groupId
  | _ => True

/-- The monitor of a party's group rows. -/
def groupWrites : Monitor LedgerOp LedgerOp.Reply String Seen where
  update := Seen.after
  allows := Seen.Allows

/-- A program writes group rows as it may, whatever has been seen. -/
abbrev WritesGroups {α : Type} (p : LedgerProg α) : Prop := ∀ seen, p.Obeys groupWrites seen

/-- The calls a pass issues freely. -/
def LedgerOp.IsPassCall : LedgerOp → Prop
  | upsertTradeGroup _ | upsertSecurity _ | upsertPositions _ | upsertClosedPosition _
  | moveTransactionsToGroup _ _ | linkTransactionsToPositions _ => False
  | _ => True

/-- A group row may be written over the row last read as a pass writes it, or under the identifier
last drawn. -/
def Seen.AllowsPass (seen : Seen) : LedgerOp → Prop
  | .upsertTradeGroup row =>
    (∃ tg, seen.row = some tg ∧ PassRow tg row) ∨ seen.drawn = some row.groupId
  | op => op.IsPassCall

/-- What a call's reply adds to what has been seen; a row read is written back once. -/
def Seen.afterPass (seen : Seen) : (op : LedgerOp) → Except String op.Reply → Seen
  | .upsertTradeGroup _, _ => {}
  | op, r => seen.after op r

/-- The monitor of a pass. -/
def passCalls : Monitor LedgerOp LedgerOp.Reply String Seen where
  update := Seen.afterPass
  allows := Seen.AllowsPass

/-- A program issues the calls of a pass, whatever has been seen. -/
abbrev PassCalls {α : Type} (p : LedgerProg α) : Prop := ∀ seen, p.Obeys passCalls seen

/-- Less has been seen. -/
structure Seen.Le (seen seen' : Seen) : Prop where
  row : ∀ tg, seen.row = some tg → seen'.row = some tg
  drawn : ∀ id, seen.drawn = some id → seen'.drawn = some id

theorem Seen.Le.afterPass {seen seen' : Seen} (h : seen.Le seen') (op : LedgerOp)
    (r : Except String op.Reply) : (seen.afterPass op r).Le (seen'.after op r) := by
  cases op with
  | upsertTradeGroup row => exact ⟨fun _ he => (by cases he), fun _ he => (by cases he)⟩
  | getTradeGroupById pk =>
    rcases r with e | tg?
    · exact h
    · cases tg? with
      | none => exact h
      | some tg => exact ⟨fun _ he => he, h.drawn⟩
  | uuid4 =>
    rcases r with e | id
    · exact h
    · exact ⟨h.row, fun _ he => he⟩
  | _ => exact h

/-- What a pass writes keeps the operator's columns. -/
theorem PassCalls.writesGroups {α : Type} {p : LedgerProg α} (hp : PassCalls p) :
    WritesGroups p := by
  refine fun seen => (hp seen).follow (R := Seen.Le) (fun seen seen' op hle hop => ?_)
    (fun seen seen' op r hle _ => hle.afterPass op r) ⟨fun _ => id, fun _ => id⟩
  cases op with
  | upsertTradeGroup row =>
    exact hop.imp (fun ⟨tg, hrow, hpass⟩ => ⟨tg, hle.row tg hrow, hpass.keepsAttribution⟩)
      (hle.drawn _)
  | _ => trivial

/-- Programs that only read write no group. -/
theorem ReadOnly.passCalls {α : Type} {p : LedgerProg α} (hp : ReadOnly p) : PassCalls p := by
  refine fun seen => Obeys.of_calls hp.calls fun op hop seen => ?_
  cases op <;> trivial

/-- The free calls of a pass. -/
theorem passCalls_issue {op : LedgerOp} (hop : op.IsPassCall) : PassCalls (issue op) := by
  refine fun seen => Obeys.invoke ?_
  cases op <;> trivial

/-- Looking securities up is not noticed. -/
theorem lookup_unnoticed (seen : Seen) (op : LedgerOp) (hop : op.IsLookup) :
    passCalls.allows seen op ∧ ∀ r, passCalls.update seen op r = seen := by
  cases op <;> first | exact ⟨trivial, fun _ => rfl⟩ | exact hop.elim

/-- A group row is read, its columns derived, and the row written back. -/
theorem obeys_writeBack {α β : Type} {pk : ℕ} {p : TradeGroupRow → LedgerProg α}
    {row : TradeGroupRow → α → TradeGroupRow} {f : TradeGroupRow → LedgerProg β} {g : LedgerProg β}
    (hp : ∀ tg, (p tg).Direct LedgerOp.IsLookup) (hrow : ∀ tg a, PassRow tg (row tg a))
    (hf : ∀ tg, PassCalls (f tg)) (hg : PassCalls g)  :
    PassCalls (do
      match ← getTradeGroupById pk with
      | none => g
      | some tg =>
        let a ← p tg
        let _ ← upsertTradeGroup (row tg a)
        f tg) := by
  refine fun seen => Obeys.bind_invoke trivial fun tg? => ?_
  cases tg? with
  | none => exact hg _
  | some tg =>
    refine Obeys.bind_calls (hp tg).calls (lookup_unnoticed _) fun a => ?_
    refine (Obeys.invoke ?_).bind fun _ seen' => hf tg seen'
    exact Or.inl ⟨tg, rfl, hrow tg a⟩

/-! ## The programs of a pass -/

theorem passCalls_stampGroup (group : OpenGroup) (closedAt : Option Datetime) :
    PassCalls (stampGroup group closedAt) :=
  obeys_writeBack (fun _ => lookup_groupRealized group.rows)
    (fun _ realized => .stamped group.rows closedAt realized)
    (fun _ _ => Obeys.pure _) fun _ => Obeys.pure _

theorem passCalls_refreshGroupFinancials (group : OpenGroup) :
    PassCalls (refreshGroupFinancials group) :=
  obeys_writeBack (fun _ => lookup_computeGroupFields group.rows)
    (fun _ fields => .refreshed fields) (fun _ _ => Obeys.pure _) fun _ => Obeys.pure _

theorem passCalls_healGroup (group : OpenGroup) : PassCalls (healGroup group) :=
  obeys_writeBack (fun _ => lookup_groupRealized group.rows)
    (fun _ realized => .stamped group.rows (lastExecutedAt group.rows) realized)
    (fun _ => passCalls_issue (by trivial)) fun _ => Obeys.pure _

theorem passCalls_addEvents (events : List EventRow) : PassCalls (addEvents events) :=
  fun _ => Obeys.forM fun _ _ => passCalls_issue (by trivial)

theorem passCalls_applyExit (group : OpenGroup) (rows : List TxnRow)
    (rolledToPk deliveryPk : Option ℕ) :
    PassCalls (applyExit group rows rolledToPk deliveryPk) := by
  refine fun seen => (passCalls_issue (by trivial) seen).bind fun _ seen => ?_
  simp only []
  split
  · exact (Obeys.invoke trivial).bind fun _ _ => Obeys.pure _
  · refine (passCalls_addEvents _ seen).bind fun _ seen => ?_
    split
    · exact (passCalls_stampGroup _ _ seen).bind fun _ _ => Obeys.pure _
    · exact Obeys.pure _

theorem passCalls_attachOpening (group : OpenGroup) (opening : List TxnRow) :
    PassCalls (attachOpening group opening) := by
  intro seen
  unfold attachOpening
  split
  · exact Obeys.pure _
  · refine (passCalls_issue (by trivial) seen).bind fun _ seen => ?_
    exact (passCalls_refreshGroupFinancials _ seen).bind fun _ _ => Obeys.pure _

theorem passCalls_applyIntentExit (openGroups : List OpenGroup) (group : OpenGroup)
    (closing : List TxnRow) : PassCalls (applyIntentExit openGroups group closing) := by
  intro seen
  unfold applyIntentExit
  split
  · exact Obeys.pure _
  · refine (passCalls_applyExit group closing none none seen).bind fun applied seen => ?_
    split <;> exact Obeys.pure _

theorem passCalls_applyIntent (w : List OpenGroup × List ActivityRow)
    (e : ℕ × List ActivityRow) : PassCalls (applyIntent w e) := by
  refine fun seen => ((readOnly_groupForPk w.1 e.1).passCalls seen).bind fun found seen => ?_
  obtain ⟨group?, openGroups⟩ := found
  cases group? with
  | none => exact Obeys.pure _
  | some group =>
    refine (passCalls_attachOpening _ _ seen).bind fun group seen => ?_
    exact (passCalls_applyIntentExit _ _ _ seen).bind fun _ _ => Obeys.pure _

theorem passCalls_applyIntentRows (openGroups : List OpenGroup) (cluster : List ActivityRow)
    (dryRun : Bool) : PassCalls (applyIntentRows openGroups cluster dryRun) := by
  intro seen
  unfold applyIntentRows
  split
  · exact Obeys.pure _
  · exact Obeys.foldlM (fun w e _ => passCalls_applyIntent w e) _

theorem passCalls_stampOrders (groupPk : ℕ) (cluster : List TxnRow) :
    PassCalls (stampOrders groupPk cluster) := by
  refine fun seen => (Obeys.foldlM (fun orders k _ seen => ?_) _).bind fun orders seen => ?_
  · refine (Obeys.invoke trivial).bind fun order _ => ?_
    split <;> exact Obeys.pure _
  · split
    · exact Obeys.pure _
    · exact passCalls_issue (by trivial) seen

theorem passCalls_createTradeGroup (account : String) (cluster : List TxnRow) :
    PassCalls (createTradeGroup account cluster) := by
  intro seen
  refine ((readOnly_computeGroupFields cluster).passCalls seen).bind fun fields seen => ?_
  refine Obeys.bind_invoke trivial fun groupId => ?_
  -- the row written is new, under the identifier just drawn
  refine (Obeys.invoke (Or.inr rfl)).bind fun pk seen => ?_
  refine (passCalls_issue (by trivial) seen).bind fun _ seen => ?_
  refine (passCalls_stampOrders pk cluster seen).bind fun orderPks seen => ?_
  exact (passCalls_issue (by trivial) seen).bind fun _ _ => Obeys.pure _

theorem passCalls_openRest (account : String) (dryRun : Bool) (pass : Pass)
    (rest : List TxnRow) : PassCalls (openRest account dryRun pass rest) := by
  intro seen
  unfold openRest
  split
  · exact Obeys.pure _
  · split
    · exact Obeys.pure _
    · exact (passCalls_createTradeGroup account rest seen).bind fun _ _ => Obeys.pure _

theorem passCalls_applyBucket (newPk : Option ℕ) (rest : List TxnRow) (pass : Pass)
    (bucket : OpenGroup × List ActivityRow) :
    PassCalls (applyBucket newPk rest pass bucket) := by
  intro seen
  refine ((readOnly_deliveryPk _ _ _).passCalls seen).bind fun delivery seen => ?_
  exact (passCalls_applyExit _ _ _ _ seen).bind fun _ _ => Obeys.pure _

theorem passCalls_reconcileCluster (account : String) (dryRun : Bool) (pass : Pass)
    (cluster : List ActivityRow) :
    PassCalls (reconcileCluster account dryRun pass cluster) := by
  refine fun seen => (passCalls_applyIntentRows _ _ _ seen).bind fun w seen => ?_
  obtain ⟨openGroups, left⟩ := w
  simp only []
  split
  · exact Obeys.pure _
  · refine (passCalls_openRest _ _ _ _ seen).bind fun w seen => ?_
    split
    · exact Obeys.pure _
    · exact Obeys.foldlM (fun pass bucket _ => passCalls_applyBucket _ _ pass bucket) _

theorem passCalls_linkRoll (ex : AppliedExit) (closedAt : Datetime)
    (created : List CreatedGroup) : PassCalls (linkRoll ex closedAt created) := by
  induction created with
  | nil => exact fun _ => Obeys.pure _
  | cons cg created ih =>
    refine fun seen => ((readOnly_rollsInto _ _ _).passCalls seen).bind fun opened seen => ?_
    cases opened with
    | none => exact ih seen
    | some openedAt => exact passCalls_issue (by trivial) seen

theorem passCalls_routeCandidates (account : String) (args : ReconcileArgs) :
    PassCalls (routeCandidates account args) := by
  refine fun seen => (Obeys.invoke trivial).bind fun activity seen => ?_
  refine ((readOnly_loadOpenGroups account).passCalls seen).bind fun openGroups seen => ?_
  refine (Obeys.foldlM (fun pass cluster _ => passCalls_reconcileCluster _ _ pass cluster)
    _).bind fun pass seen => ?_
  split
  · refine (Obeys.forM fun ex _ seen => ?_).bind fun _ _ => Obeys.pure _
    split
    · split
      · exact Obeys.pure _
      · exact passCalls_linkRoll _ _ _ seen
    · exact Obeys.pure _
  · exact Obeys.pure _

theorem passCalls_synthesizeLapsedSettlements (account : String) (args : ReconcileArgs) :
    PassCalls (synthesizeLapsedSettlements account args) := by
  refine fun seen => (Obeys.invoke trivial).bind fun activity seen => ?_
  simp only []
  split
  · exact Obeys.pure _
  · refine ((readOnly_loadOpenGroups account).passCalls seen).bind fun openGroups seen => ?_
    refine (Obeys.foldlM (fun rows sid _ =>
      (readOnly_synthesizeSecurity _ _ _ _ rows sid).passCalls) _).bind fun rows seen => ?_
    split
    · refine (passCalls_issue (by trivial) seen).bind fun _ seen => ?_
      refine (Obeys.forM fun g _ seen => ?_).bind fun _ _ => Obeys.pure _
      unfold applyLapse
      simp only []
      split
      · exact Obeys.pure _
      · exact (passCalls_applyExit g _ none none seen).bind fun _ _ => Obeys.pure _
    · exact Obeys.pure _

theorem passCalls_healFullyClosedGroups (account : String) (dryRun : Bool) :
    PassCalls (healFullyClosedGroups account dryRun) := by
  refine fun seen => ((readOnly_loadOpenGroups account).passCalls seen).bind
    fun openGroups seen => ?_
  simp only []
  split
  · exact Obeys.pure _
  · exact (Obeys.forM fun g _ => passCalls_healGroup g).bind fun _ _ => Obeys.pure _

theorem passCalls_reconcileAccount (args : ReconcileArgs) (account : String) :
    PassCalls (reconcileAccount args account) := by
  intro seen
  refine Obeys.bind ?_ fun _ seen => ?_
  · refine (passCalls_issue (by trivial) seen).bind fun _ seen => ?_
    refine (passCalls_issue (by trivial) seen).bind fun _ seen => ?_
    exact (passCalls_issue (by trivial) seen).bind fun _ _ => Obeys.pure _
  · refine (passCalls_synthesizeLapsedSettlements account args seen).bind fun _ seen => ?_
    refine (passCalls_routeCandidates account args seen).bind fun _ seen => ?_
    exact (passCalls_healFullyClosedGroups account args.dryRun seen).bind fun _ _ => Obeys.pure _

/-- **The calls of a pass**: it writes a group's row back as it read it last, but for the columns
that are the pass's, or a new group under the identifier it has drawn. -/
theorem passCalls_reconcile (account : Option String) (args : ReconcileArgs) :
    PassCalls (reconcile account args) := by
  refine fun seen => ((readOnly_accountsOf account args.since).passCalls seen).bind
    fun accounts seen => Obeys.foldlM (fun result account _ seen => ?_) _
  refine Obeys.tryCatch ?_ fun e _ => Obeys.pure _
  exact (passCalls_reconcileAccount args account seen).bind fun _ _ => Obeys.pure _

/-- What a pass writes over a group keeps the operator's columns. -/
theorem writesGroups_reconcile (account : Option String) (args : ReconcileArgs) :
    WritesGroups (reconcile account args) := (passCalls_reconcile account args).writesGroups

end TtLedger
