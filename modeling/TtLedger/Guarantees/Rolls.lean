import TtLedger.Ingest.IntentLaws
import TtLedger.Ingest.TaskCalls
import TtLedger.Guarantees.ExitAccounting

/-!
# What continues a group

A roll, and a settlement that delivered, name the group their own is continued in. Only the
cluster loop of a pass and the step after it record such events; every other call of every task is
`IsUncontinued`, which leaves the `continuations` of a state as they are. The programs below are
the ones that record no continuation.
-/

namespace TtLedger

open LedgerStore Prog

/-! ## Continuations -/

/-- The event is a roll, or names the group its own is continued in. -/
def EventRow.continues (ev : EventRow) : Bool := ev.eventType = .roll || ev.rolledToGroupId.isSome

theorem EventRow.continues_recorded (clock : Datetime) (ev : EventRow) :
    (ev.recorded clock).continues = ev.continues := rfl

/-- The call records no continuation. -/
def LedgerOp.IsUncontinued : LedgerOp → Prop
  | addTradeGroupEvent ev => ev.continues = false
  | _ => True

/-- A program that records no continuation. -/
abbrev Uncontinued {α : Type} (p : LedgerProg α) : Prop := p.Calls LedgerOp.IsUncontinued

namespace InMemoryStore

/-- The continuations that have been recorded. -/
def continuations (s : InMemoryStore) : List EventRow := s.events.values.filter EventRow.continues

theorem continuations_of_append {s s' : InMemoryStore} {events : List EventRow}
    (h : s'.events.values = s.events.values ++ events) :
    s'.continuations = s.continuations ++ events.filter EventRow.continues := by
  rw [continuations, h, List.filter_append]
  rfl

theorem continuations_addTradeGroupEvent (s : InMemoryStore) (ev : EventRow) :
    (s.addTradeGroupEvent ev).continuations =
      s.continuations ++ [ev.recorded s.clock].filter EventRow.continues :=
  continuations_of_append (values_addEvents s [ev])

theorem continuations_step {op : LedgerOp} (hop : op.IsUncontinued) (s : InMemoryStore) :
    (s.step op).2.continuations = s.continuations := by
  cases op with
  | upsertOrders rows =>
    exact congrArg (fun t => t.values.filter EventRow.continues) (s.events_upsertOrders rows)
  | upsertTransactions rows =>
    exact congrArg (fun t => t.values.filter EventRow.continues) (s.events_upsertTransactions rows)
  | addTradeGroupEvent ev =>
    refine (s.continuations_addTradeGroupEvent ev).trans ?_
    rw [List.filter_singleton, EventRow.continues_recorded, show ev.continues = false from hop]
    exact List.append_nil _
  | _ => rfl

/-- A group that is stored stays stored. -/
theorem isSome_getTradeGroupById_step (s : InMemoryStore) (op : LedgerOp) {pk : ℕ}
    (h : (s.getTradeGroupById pk).isSome = true) :
    ((s.step op).2.getTradeGroupById pk).isSome = true := by
  cases op with
  | upsertTradeGroup row =>
    have hget : (s.upsertTradeGroup row).2.getTradeGroupById pk =
        if pk = (s.upsertTradeGroup row).1 then some row else s.getTradeGroupById pk :=
      Table.get_upsert _ _ pk
    show ((s.upsertTradeGroup row).2.getTradeGroupById pk).isSome = true
    rw [hget]
    split
    · rfl
    · exact h
  | upsertOrders rows =>
    exact (congrArg Option.isSome
      (getTradeGroupById_congr (s.tradeGroups_upsertOrders rows) pk)).trans h
  | upsertTransactions rows =>
    exact (congrArg Option.isSome
      (getTradeGroupById_congr (s.tradeGroups_upsertTransactions rows) pk)).trans h
  | _ => exact h

end InMemoryStore

namespace Uncontinued

variable {α β : Type}

theorem continuations {p : LedgerProg α} (hp : Uncontinued p) (s : InMemoryStore) :
    (exec p s).2.continuations = s.continuations :=
  hp.run_frame InMemoryStore.continuations (fun _ s hop => InMemoryStore.continuations_step hop s) s

/-- What follows returns to the same continuations. -/
theorem continuations_of_run {p : LedgerProg α} (hp : Uncontinued p) {s s' : InMemoryStore}
    {x : Except String α} (h : exec p s = (x, s')) : s'.continuations = s.continuations := by
  have hs := continuations hp s
  rwa [h] at hs

end Uncontinued

/-- The calls that record nothing. -/
theorem Prog.Calls.uncontinued {α : Type} {p : LedgerProg α} (hp : p.Calls LedgerOp.IsQuiet) :
    Uncontinued p :=
  hp.mono fun op hop => by cases op <;> first | exact trivial | exact hop.elim

theorem ReadOnly.uncontinued {α : Type} {p : LedgerProg α} (hp : ReadOnly p) : Uncontinued p :=
  hp.calls.mono fun op hop => by cases op <;> first | exact trivial | exact hop.elim

/-! ## Programs that record none -/

theorem uncontinued_addEvents {events : List EventRow}
    (h : ∀ ev ∈ events, ev.continues = false) : Uncontinued (addEvents events) :=
  Calls.forM fun ev hev => Calls.invoke.mpr (h ev hev)

theorem uncontinued_stampGroup (group : OpenGroup) (closedAt : Option Datetime) :
    Uncontinued (stampGroup group closedAt) := by
  refine (Calls.invoke.mpr (by trivial)).bind fun tg? => ?_
  split
  · exact Calls.pure _
  · refine (readOnly_groupRealized group.rows).uncontinued.bind fun realized => ?_
    exact (Calls.invoke.mpr (by trivial)).bind fun _ => Calls.pure _

theorem uncontinued_refreshGroupFinancials (group : OpenGroup) :
    Uncontinued (refreshGroupFinancials group) := by
  refine (Calls.invoke.mpr (by trivial)).bind fun tg? => ?_
  split
  · exact Calls.pure _
  · refine (readOnly_computeGroupFields group.rows).uncontinued.bind fun fields => ?_
    exact (Calls.invoke.mpr (by trivial)).bind fun _ => Calls.pure _

theorem uncontinued_healGroup (group : OpenGroup) : Uncontinued (healGroup group) := by
  refine (Calls.invoke.mpr (by trivial)).bind fun tg? => ?_
  split
  · exact Calls.pure _
  · refine (readOnly_groupRealized group.rows).uncontinued.bind fun realized => ?_
    exact (Calls.invoke.mpr (by trivial)).bind fun _ => Calls.invoke.mpr (by rfl)

/-- A settlement event is no roll. -/
theorem ne_roll_of_mem_rdRowsByEvent {rows : List TxnRow} {e : TradeGroupEventType × List TxnRow}
    (he : e ∈ rdRowsByEvent rows) : e.1 ≠ .roll := by
  obtain ⟨⟨r, hr, hkind⟩, -⟩ := mem_groupBy.mp he
  split at hkind
  · exact (rdEventBySubtype_ne hkind).2.2
  · cases hkind

/-- An exit without a new group to go to records no continuation. -/
theorem continues_exitEvents {pk : ℕ} {rows : List TxnRow} {closed : Bool} {ev : EventRow}
    (hev : ev ∈ exitEvents pk rows closed none none) : ev.continues = false := by
  unfold exitEvents at hev
  rw [List.append_nil] at hev
  rcases List.mem_append.mp hev with hev | hev
  · split at hev
    · cases hev
    · obtain rfl := List.mem_singleton.mp hev
      cases closed <;> rfl
  · obtain ⟨e, he, rfl⟩ := List.mem_map.mp hev
    simp [EventRow.continues, settlementEvent, ne_roll_of_mem_rdRowsByEvent he]

theorem uncontinued_applyExit (group : OpenGroup) (rows : List TxnRow) :
    Uncontinued (applyExit group rows none none) := by
  refine (Calls.invoke.mpr (by trivial)).bind fun _ => ?_
  simp only []
  split
  · exact (Calls.invoke.mpr (by trivial)).bind fun _ => Calls.pure _
  · refine (uncontinued_addEvents fun ev hev => continues_exitEvents hev).bind fun _ => ?_
    split
    · exact (uncontinued_stampGroup _ _).bind fun _ => Calls.pure _
    · exact Calls.pure _

theorem uncontinued_attachOpening (group : OpenGroup) (opening : List TxnRow) :
    Uncontinued (attachOpening group opening) := by
  unfold attachOpening
  split
  · exact Calls.pure _
  · refine (Calls.invoke.mpr (by trivial)).bind fun _ => ?_
    exact (uncontinued_refreshGroupFinancials _).bind fun _ => Calls.pure _

theorem uncontinued_applyIntentExit (openGroups : List OpenGroup) (group : OpenGroup)
    (closing : List TxnRow) : Uncontinued (applyIntentExit openGroups group closing) := by
  unfold applyIntentExit
  split
  · exact Calls.pure _
  · refine (uncontinued_applyExit group closing).bind fun applied => ?_
    split <;> exact Calls.pure _

theorem uncontinued_applyIntentRows (openGroups : List OpenGroup) (cluster : List ActivityRow)
    (dryRun : Bool) : Uncontinued (applyIntentRows openGroups cluster dryRun) := by
  unfold applyIntentRows
  split
  · exact Calls.pure _
  · refine Calls.foldlM (fun w e _ => ?_) _
    refine (readOnly_groupForPk w.1 e.1).uncontinued.bind fun found => ?_
    obtain ⟨group?, openGroups⟩ := found
    cases group? with
    | none => exact Calls.pure _
    | some group =>
      refine (uncontinued_attachOpening _ _).bind fun group => ?_
      exact (uncontinued_applyIntentExit _ _ _).bind fun _ => Calls.pure _

theorem uncontinued_createTradeGroup (account : String) (cluster : List TxnRow) :
    Uncontinued (createTradeGroup account cluster) := by
  refine (readOnly_computeGroupFields cluster).uncontinued.bind fun fields => ?_
  refine (Calls.invoke.mpr (by trivial)).bind fun groupId => ?_
  refine (Calls.invoke.mpr (by trivial)).bind fun pk => ?_
  refine (Calls.invoke.mpr (by trivial)).bind fun _ => Calls.bind ?_ fun orderPks => ?_
  · refine (Calls.foldlM (fun orders k _ => ?_) _).bind fun orders => ?_
    · refine (Calls.invoke.mpr (by trivial)).bind fun order => ?_
      split <;> exact Calls.pure _
    · split
      · exact Calls.pure _
      · exact Calls.invoke.mpr (by trivial)
  · exact (Calls.invoke.mpr (by rfl)).bind fun _ => Calls.pure _

theorem uncontinued_linkAccount (account : String) : Uncontinued (linkAccount account) :=
  (Calls.invoke.mpr (by trivial)).bind fun _ => (Calls.invoke.mpr (by trivial)).bind fun _ =>
    (Calls.invoke.mpr (by trivial)).bind fun _ => Calls.pure _

theorem uncontinued_synthesizeLapsedSettlements (account : String) (args : ReconcileArgs) :
    Uncontinued (synthesizeLapsedSettlements account args) := by
  refine (Calls.invoke.mpr (by trivial)).bind fun activity => ?_
  simp only []
  split
  · exact Calls.pure _
  · refine (readOnly_loadOpenGroups account).uncontinued.bind fun openGroups => ?_
    refine (Calls.foldlM (fun rows sid _ =>
      (readOnly_synthesizeSecurity _ _ _ _ rows sid).uncontinued) _).bind fun rows => ?_
    split
    · refine (Calls.invoke.mpr (by trivial)).bind fun _ =>
        (Calls.forM fun g _ => ?_).bind fun _ => Calls.pure _
      unfold applyLapse
      simp only []
      split
      · exact Calls.pure _
      · exact (uncontinued_applyExit g _).bind fun _ => Calls.pure _
    · exact Calls.pure _

theorem uncontinued_healFullyClosedGroups (account : String) (dryRun : Bool) :
    Uncontinued (healFullyClosedGroups account dryRun) := by
  refine (readOnly_loadOpenGroups account).uncontinued.bind fun openGroups => ?_
  simp only []
  split
  · exact Calls.pure _
  · exact (Calls.forM fun g _ => uncontinued_healGroup g).bind fun _ => Calls.pure _

/-! ## The operator's edits -/

theorem uncontinued_openTradeGroup (account : String) (input : TradeGroupInput) :
    Uncontinued (openTradeGroup account input) :=
  (Calls.invoke.mpr (by trivial)).bind fun _ => (Calls.invoke.mpr (by trivial)).bind fun _ =>
    (Calls.invoke.mpr (by trivial)).bind fun _ => (Calls.invoke.mpr (by rfl)).bind fun _ =>
      Calls.pure _

theorem uncontinued_remapTradeGroup (groupId : String) (attribution : Attribution) :
    Uncontinued (remapTradeGroup groupId attribution) := by
  refine (Calls.invoke.mpr (by trivial)).bind fun tg? => ?_
  split
  · exact Calls.raise _
  · refine (Calls.invoke.mpr (by trivial)).bind fun at_ => ?_
    refine (Calls.invoke.mpr (by trivial)).bind fun pk => ?_
    simp only []
    split
    · refine (quiet_cascadeStrategy _ _ _).uncontinued.bind fun _ => ?_
      exact (Calls.invoke.mpr (by rfl)).bind fun _ => Calls.pure _
    · exact (Calls.invoke.mpr (by rfl)).bind fun _ => Calls.pure _

theorem uncontinued_dismissTradeGroup (groupId reviewedBy : String) :
    Uncontinued (dismissTradeGroup groupId reviewedBy) := by
  refine (Calls.invoke.mpr (by trivial)).bind fun tg? => ?_
  split
  · exact Calls.raise _
  · refine (Calls.invoke.mpr (by trivial)).bind fun at_ => ?_
    refine (Calls.invoke.mpr (by trivial)).bind fun pk => ?_
    exact (Calls.invoke.mpr (by rfl)).bind fun _ => Calls.pure _

theorem uncontinued_markTradeGroupUnfilled (groupId reviewedBy reason : String) :
    Uncontinued (markTradeGroupUnfilled groupId reviewedBy reason) := by
  refine (Calls.invoke.mpr (by trivial)).bind fun tg? => ?_
  split
  · exact Calls.raise _
  · refine Calls.bind ?_ fun rows => ?_
    · refine (Calls.invoke.mpr (by trivial)).bind fun pk? => ?_
      split
      · exact Calls.invoke.mpr (by trivial)
      · exact Calls.pure _
    · simp only []
      split
      · exact Calls.raise _
      · refine (Calls.invoke.mpr (by trivial)).bind fun at_ => ?_
        refine (Calls.invoke.mpr (by trivial)).bind fun pk => ?_
        exact (Calls.invoke.mpr (by rfl)).bind fun _ => Calls.pure _

theorem uncontinued_recomputeAffected (reviewedBy : String) (at_ : Datetime)
    (updated : List TradeGroupRow) (pk : ℕ) :
    Uncontinued (recomputeAffected reviewedBy at_ updated pk) := by
  refine (Calls.invoke.mpr (by trivial)).bind fun tg? => ?_
  split
  · exact Calls.pure _
  · refine Calls.bind ?_ fun _ => (Calls.invoke.mpr (by rfl)).bind fun _ => Calls.pure _
    refine (Calls.invoke.mpr (by trivial)).bind fun activity => ?_
    refine (readOnly_computeGroupFields _).uncontinued.bind fun fields => ?_
    refine Calls.bind ?_ fun _ => (Calls.invoke.mpr (by trivial)).bind fun _ => Calls.pure _
    unfold recomputedLifecycle
    split
    · exact Calls.pure _
    · split
      · exact (readOnly_groupRealized _).uncontinued.bind fun _ => Calls.pure _
      · exact Calls.pure _

theorem uncontinued_regroupTransactions (txnIds : List ℕ) (targetGroupId : Option String)
    (reviewedBy : String) :
    Uncontinued (regroupTransactions txnIds targetGroupId reviewedBy) := by
  unfold regroupTransactions
  split
  · exact Calls.pure _
  · refine (Calls.invoke.mpr (by trivial)).bind fun txns => ?_
    split
    · exact Calls.pure _
    · refine (Calls.invoke.mpr (by trivial)).bind fun at_ => Calls.bind ?_ fun pk => ?_
      · unfold regroupTarget
        split
        · exact (Calls.invoke.mpr (by trivial)).bind fun _ => Calls.invoke.mpr (by trivial)
        · refine (Calls.invoke.mpr (by trivial)).bind fun tg? => ?_
          split
          · exact Calls.raise _
          · exact Calls.invoke.mpr (by trivial)
      · exact (Calls.invoke.mpr (by trivial)).bind fun _ =>
          Calls.foldlM (fun updated pk _ => uncontinued_recomputeAffected _ _ _ _) _

theorem uncontinued_linkTarget (order : OrderRow) (ttOrderId : String)
    (targetGroupId : Option String) (reviewedBy : String) (at_ : Datetime) :
    Uncontinued (linkTarget order ttOrderId targetGroupId reviewedBy at_) := by
  unfold linkTarget
  split
  · exact (Calls.invoke.mpr (by trivial)).bind fun _ => Calls.invoke.mpr (by trivial)
  · refine (Calls.invoke.mpr (by trivial)).bind fun tg? => ?_
    split
    · exact Calls.raise _
    · split
      · exact Calls.raise _
      · exact Calls.invoke.mpr (by trivial)

theorem uncontinued_recomputeFuturesGroupPnl (str : ℚ → String) (account : Option String)
    (dryRun : Bool) : Uncontinued (recomputeFuturesGroupPnl str account dryRun) := by
  have hrestamp : ∀ pk old new, Uncontinued (restamp str pk old new) := by
    intro pk old new
    refine (Calls.invoke.mpr (by trivial)).bind fun tg? => ?_
    split
    · exact Calls.pure _
    · exact (Calls.invoke.mpr (by trivial)).bind fun _ => Calls.invoke.mpr (by rfl)
  refine (readOnly_accountsOf account none).uncontinued.bind fun accounts =>
    Calls.foldlM (fun changes acct _ => ?_) _
  refine (Calls.invoke.mpr (by trivial)).bind fun trades =>
    Calls.foldlM (fun changes trade _ => ?_) _
  unfold recomputeTrade
  split
  · exact Calls.pure _
  · refine (Calls.invoke.mpr (by trivial)).bind fun pk? => ?_
    split
    · exact Calls.pure _
    · refine (Calls.invoke.mpr (by trivial)).bind fun rows => ?_
      refine (quiet_hasFuture _).uncontinued.bind fun future => ?_
      split
      · refine (readOnly_groupRealized rows).uncontinued.bind fun new => ?_
        split
        · exact Calls.pure _
        · simp only []
          split
          · exact (hrestamp _ _ _).bind fun _ => Calls.pure _
          · exact Calls.pure _
      · exact Calls.pure _

end TtLedger
