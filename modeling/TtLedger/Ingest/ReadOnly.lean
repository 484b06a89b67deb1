import TtLedger.Foundations.Guarded
import TtLedger.Ingest.Reconcile

/-!
# The programs that only read

The calls that write nothing (`LedgerOp.IsRead`), and the parts of a pass that issue no others:
whatever fails among them, the store is as it was.
-/

namespace TtLedger

open LedgerStore Prog

namespace LedgerOp

/-- The call writes nothing. -/
def IsRead : LedgerOp → Prop
  | getOrder _ => True
  | queryOrders _ => True
  | getPosition _ _ => True
  | getPositionId _ _ => True
  | getSecurity _ => True
  | getTradeGroup _ => True
  | getTradeGroupById _ => True
  | getTradeGroupId _ => True
  | getTransactionsById _ => True
  | getGroupTransactions _ => True
  | unifiedTrades _ => True
  | accountActivity _ => True
  | now => True
  | _ => False

theorem IsRead.step {op : LedgerOp} (h : op.IsRead) (s : InMemoryStore) : (s.step op).2 = s := by
  cases op <;> first | rfl | exact h.elim

/-- The call looks a security up. -/
def IsLookup : LedgerOp → Prop
  | getSecurity _ => True
  | _ => False

theorem IsLookup.isRead {op : LedgerOp} (h : op.IsLookup) : op.IsRead := by
  cases op <;> trivial

end LedgerOp

/-- A program that issues reads only. -/
abbrev ReadOnly {α : Type} (p : LedgerProg α) : Prop := p.Direct LedgerOp.IsRead

/-- Whatever fails in it, the state stays; when it returns, nothing has failed. -/
theorem ReadOnly.guarded {α : Type} {p : LedgerProg α} (hp : ReadOnly p)
    {C : InMemoryStore → LedgerOp → Prop} (hC : ∀ s op, op.IsRead → C s op) (s : InMemoryStore) :
    p.Guarded memory.faulty C s fun x s' =>
      s' = s ∧ ∀ a, x = .ok a → exec p s = (.ok a, s') :=
  (hp.guarded_same hC fun _ s hop => hop.step s).and (hp.guarded_run hC)

/-! ## Rules -/

section Rules

variable {C : InMemoryStore → LedgerOp → Prop} {R : InMemoryStore → InMemoryStore → Prop}
  {α β : Type} {s : InMemoryStore}

/-- Reading ends where it began, with what it reads there. -/
theorem ReadOnly.triple {p : LedgerProg α} (hp : ReadOnly p)
    (hC : ∀ s op, op.IsRead → C s op) (hs : R s s) :
    Triple memory.faulty C R p s fun a s' => s' = s ∧ exec p s = (.ok a, s) := by
  refine Guarded.mono (fun x s' hx => ?_) (hp.guarded hC s)
  obtain ⟨rfl, hrun⟩ := hx
  exact ⟨hs, fun a ha => ⟨rfl, hrun a ha⟩⟩

/-- A sequence that first reads goes on in the same state. -/
theorem ReadOnly.triple_bind [IsTrans InMemoryStore R] {p : LedgerProg α} {f : α → LedgerProg β}
    {Ψ : β → InMemoryStore → Prop} (hp : ReadOnly p) (hC : ∀ s op, op.IsRead → C s op)
    (hs : R s s) (hf : ∀ a, exec p s = (.ok a, s) → Triple memory.faulty C R (f a) s Ψ) :
    Triple memory.faulty C R (p >>= f) s Ψ := by
  refine (hp.triple hC hs).bind fun a s' _ ha => ?_
  obtain ⟨rfl, hrun⟩ := ha
  exact hf a hrun

/-- A sequence that first issues a read goes on in the same state, with the reply. -/
theorem LedgerOp.IsRead.triple_bind [IsTrans InMemoryStore R] {op : LedgerOp}
    {f : op.Reply → LedgerProg β} {Ψ : β → InMemoryStore → Prop} (hop : op.IsRead)
    (hC : ∀ s op, op.IsRead → C s op) (hs : R s s)
    (hf : Triple memory.faulty C R (f (s.step op).1) s Ψ) :
    Triple memory.faulty C R (LedgerStore.issue op >>= f) s Ψ := by
  refine ReadOnly.triple_bind (Direct.invoke.mpr hop) hC hs fun a ha => ?_
  have hrun : exec (LedgerStore.issue op) s = (.ok (s.step op).1, (s.step op).2) :=
    run_invoke memory op s
  rw [hrun] at ha
  rw [← Except.ok.inj (congrArg Prod.fst ha)]
  exact hf

/-- What a loop of reads returns are the values its body returned. -/
theorem ReadOnly.of_mem_mapM {f : α → LedgerProg β} {l : List α} (hf : ∀ a ∈ l, ReadOnly (f a))
    {bs : List β} {s' : InMemoryStore} (hrun : exec (l.mapM f) s = (.ok bs, s')) {b : β}
    (hb : b ∈ bs) : ∃ a ∈ l, exec (f a) s = (.ok b, s) := by
  induction l generalizing bs s' with
  | nil =>
    obtain rfl := Except.ok.inj (congrArg Prod.fst hrun)
    cases hb
  | cons a l ih =>
    rw [List.mapM_cons] at hrun
    obtain ⟨b₀, s₁, hhead, htail⟩ := (run_bind_eq_ok memory).mp hrun
    obtain ⟨bs₀, s₂, hrest, hret⟩ := (run_bind_eq_ok memory).mp htail
    obtain rfl : b₀ :: bs₀ = bs := Except.ok.inj (congrArg Prod.fst hret)
    -- the head left the state alone
    have hsame := ((hf a (by simp)).guarded (C := fun _ _ => True) (fun _ _ _ => trivial)
      s).of_runs (runs_run memory (f a) s).faulty
    obtain rfl : s₁ = s := by rw [← hsame.1, hhead]
    rcases List.mem_cons.mp hb with rfl | hb
    · exact ⟨a, by simp, hhead⟩
    · obtain ⟨a', ha', hrun'⟩ := ih (fun a ha => hf a (by simp [ha])) hrest hb
      exact ⟨a', by simp [ha'], hrun'⟩

end Rules

/-! ## Derived columns -/

theorem lookup_getSecurity (sid : String) : (getSecurity sid).Direct LedgerOp.IsLookup :=
  Direct.invoke.mpr trivial

theorem lookup_cacheSecurity (securities : Dict String (Option SecurityRow)) (sid : String) :
    (cacheSecurity securities sid).Direct LedgerOp.IsLookup := by
  unfold cacheSecurity
  split
  · exact Direct.pure _
  · exact (Direct.invoke.mpr trivial).bind fun _ => Direct.pure _

theorem lookup_realizedRow (w : RealizedWalk) (r : TxnRow) :
    (realizedRow w r).Direct LedgerOp.IsLookup := by
  unfold realizedRow
  split
  · exact Direct.pure _
  · refine (lookup_cacheSecurity _ _).bind fun securities => ?_
    split <;> exact Direct.pure _

theorem lookup_groupRealized (rows : List TxnRow) :
    (groupRealized rows).Direct LedgerOp.IsLookup :=
  (Direct.foldlM (fun w r _ => lookup_realizedRow w r) _).bind fun _ => Direct.pure _

theorem readOnly_groupRealized (rows : List TxnRow) : ReadOnly (groupRealized rows) :=
  (lookup_groupRealized rows).mono fun _ => LedgerOp.IsLookup.isRead

theorem lookup_computeGroupFields (cluster : List TxnRow) :
    (computeGroupFields cluster).Direct LedgerOp.IsLookup := by
  refine (Direct.foldlM (fun legs sid _ => ?_) _).bind fun _ => Direct.pure _
  refine Direct.bind (Direct.invoke.mpr trivial) fun sec => ?_
  split <;> exact Direct.pure _

theorem readOnly_computeGroupFields (cluster : List TxnRow) :
    ReadOnly (computeGroupFields cluster) :=
  (lookup_computeGroupFields cluster).mono fun _ => LedgerOp.IsLookup.isRead

/-! ## Open groups -/

theorem readOnly_loadOpenGroup (groups : List OpenGroup) (trade : TradeGroupRow) :
    ReadOnly (loadOpenGroup groups trade) := by
  refine (Direct.invoke.mpr trivial).bind fun pk? => ?_
  split
  · exact Direct.pure _
  · exact (Direct.invoke.mpr trivial).bind fun _ => Direct.pure _

theorem readOnly_loadOpenGroups (account : String) : ReadOnly (loadOpenGroups account) :=
  (Direct.invoke.mpr trivial).bind fun _ =>
    Direct.foldlM (fun groups trade _ => readOnly_loadOpenGroup groups trade) _

theorem readOnly_groupForPk (openGroups : List OpenGroup) (pk : ℕ) :
    ReadOnly (groupForPk openGroups pk) := by
  unfold groupForPk
  split
  · exact Direct.pure _
  · refine (Direct.invoke.mpr trivial).bind fun tg => ?_
    split
    · exact Direct.pure _
    · exact (Direct.invoke.mpr trivial).bind fun _ => Direct.pure _

/-! ## Deliveries and rolls -/

theorem lookup_securityOf (r : TxnRow) : (securityOf r).Direct LedgerOp.IsLookup := by
  unfold securityOf
  split
  · exact lookup_getSecurity _
  · exact Direct.pure _

theorem lookup_deliversUnderlying (closeRows restRows : List TxnRow) :
    (deliversUnderlying closeRows restRows).Direct LedgerOp.IsLookup := by
  unfold deliversUnderlying
  simp only []
  split
  · exact Direct.pure _
  · refine Direct.bind (Direct.mapM fun r _ => ?_) fun secUnders =>
      Direct.foldlM (fun found r _ => ?_) _
    · exact (lookup_securityOf r).bind fun _ => Direct.pure _
    · split
      · exact Direct.pure _
      · exact (lookup_securityOf r).bind fun _ => Direct.pure _

theorem lookup_deliveryPk (newPk : Option ℕ) (rows rest : List TxnRow) :
    (deliveryPk newPk rows rest).Direct LedgerOp.IsLookup := by
  unfold deliveryPk
  split
  · exact Direct.pure _
  · exact (lookup_deliversUnderlying rows rest).bind fun _ => Direct.pure _

theorem readOnly_deliveryPk (newPk : Option ℕ) (rows rest : List TxnRow) :
    ReadOnly (deliveryPk newPk rows rest) :=
  (lookup_deliveryPk newPk rows rest).mono fun _ => LedgerOp.IsLookup.isRead

theorem lookup_rowOptionType (r : TxnRow) : (rowOptionType r).Direct LedgerOp.IsLookup := by
  unfold rowOptionType
  split
  · exact Direct.pure _
  · exact (lookup_getSecurity _).bind fun _ => Direct.pure _

theorem lookup_rollsInto (closedAt : Datetime) (rows : List TxnRow) (cg : CreatedGroup) :
    (rollsInto closedAt rows cg).Direct LedgerOp.IsLookup := by
  unfold rollsInto
  split
  · exact Direct.pure _
  · split
    · refine Direct.bind ?_ fun _ => Direct.pure _
      exact (Direct.mapM fun r _ => lookup_rowOptionType r).bind fun _ =>
        (Direct.mapM fun r _ => lookup_rowOptionType r).bind fun _ => Direct.pure _
    · exact Direct.pure _

theorem readOnly_rollsInto (closedAt : Datetime) (rows : List TxnRow) (cg : CreatedGroup) :
    ReadOnly (rollsInto closedAt rows cg) :=
  (lookup_rollsInto closedAt rows cg).mono fun _ => LedgerOp.IsLookup.isRead

/-! ## Settlements -/

theorem lookup_settlePoints (args : ReconcileArgs) (sec : SecurityRow) (sid : String)
    (expiry : Date) : (settlePoints args sec sid expiry).Direct LedgerOp.IsLookup := by
  unfold settlePoints
  split
  · exact Direct.pure _
  · split
    · split
      · exact Direct.pure _
      · exact (Direct.ofExcept _).bind fun _ => Direct.pure _
    · exact Direct.pure _

theorem lookup_synthesizeSecurity (args : ReconcileArgs) (account : String)
    (lastActivity : Datetime) (openGroups : List OpenGroup) (synthesized : List TxnRow)
    (sid : String) :
    (synthesizeSecurity args account lastActivity openGroups synthesized sid).Direct
      LedgerOp.IsLookup := by
  refine (lookup_getSecurity sid).bind fun sec => ?_
  split
  · exact Direct.pure _
  · split
    · exact Direct.pure _
    · refine (lookup_settlePoints _ _ _ _).bind fun points => ?_
      split <;> exact Direct.pure _

theorem readOnly_synthesizeSecurity (args : ReconcileArgs) (account : String)
    (lastActivity : Datetime) (openGroups : List OpenGroup) (synthesized : List TxnRow)
    (sid : String) :
    ReadOnly (synthesizeSecurity args account lastActivity openGroups synthesized sid) :=
  (lookup_synthesizeSecurity args account lastActivity openGroups synthesized sid).mono
    fun _ => LedgerOp.IsLookup.isRead

/-- The accounts a pass runs over are read. -/
theorem readOnly_accountsOf (account : Option String) (since : Option Date) :
    ReadOnly (accountsOf account since) := by
  unfold accountsOf
  split
  · exact Direct.pure _
  · exact (Direct.invoke.mpr trivial).bind fun _ => Direct.pure _

end TtLedger
