import TtLedger.Ingest.Scope
import Mathlib.Data.List.ReduceOption

/-!
# The calls of a pass

`Walk account settles p s Φ` says that from `s`, whatever calls fail, the program `p` issues only
calls scoped to the account, keeps its links within it and grows the state, and that it ends in `Φ`
when it returns. The lemmas below walk a pass from its helpers up: what a helper needs of the
state is stable under growth (`Grows.groupOf`, `Grows.txnOf`, …), so that a fact read once holds
until the pass uses it. The whole pass is `walk_reconcileAccount`.
-/

namespace TtLedger

open LedgerStore Prog

variable (account : String) (settles : String → Prop)

/-- The account's links are within it, in a state the first one has grown to. -/
def Within (s s' : InMemoryStore) : Prop := LinksWithin account s' ∧ Grows account s s'

instance : IsTrans InMemoryStore (Within account) where
  trans _ _ _ h h' := ⟨h'.1, h.2.trans h'.2⟩

/-- In every run from `s`, with calls that may fail, the calls are scoped and the account's links
stay within it; a run that returns ends in `Φ`. -/
def Walk {α : Type} (p : LedgerProg α) (s : InMemoryStore) (Φ : α → InMemoryStore → Prop) : Prop :=
  Triple memory.faulty (Scoped account settles) (Within account) p s Φ

namespace Walk

variable {account settles} {α β : Type} {s : InMemoryStore}

theorem within_self (h : LinksWithin account s) : Within account s s := ⟨h, .refl s⟩

theorem pure {a : α} {Φ : α → InMemoryStore → Prop} (h : LinksWithin account s) (hΦ : Φ a s) :
    Walk account settles (Pure.pure a : LedgerProg α) s Φ :=
  Triple.pure (within_self h) hΦ

theorem bind {p : LedgerProg α} {f : α → LedgerProg β} {Φ : α → InMemoryStore → Prop}
    {Ψ : β → InMemoryStore → Prop} (hp : Walk account settles p s Φ)
    (hf : ∀ a s', LinksWithin account s' → Grows account s s' → Φ a s' →
      Walk account settles (f a) s' Ψ) : Walk account settles (p >>= f) s Ψ :=
  Triple.bind hp fun a s' hR => hf a s' hR.1 hR.2

/-- One scoped call. -/
theorem issue {op : LedgerOp} {Φ : op.Reply → InMemoryStore → Prop} (h : LinksWithin account s)
    (hop : Scoped account settles s op)
    (hΦ : LinksWithin account (s.step op).2 → Grows account s (s.step op).2 →
      Φ (s.step op).1 (s.step op).2) :
    Walk account settles (LedgerStore.issue op) s Φ := by
  obtain ⟨hlinks, hgrows⟩ := hop.step h
  exact Triple.invoke hop rfl (within_self h) ⟨hlinks, hgrows⟩ (hΦ hlinks hgrows)

theorem scoped_of_isRead (s : InMemoryStore) (op : LedgerOp) (hop : op.IsRead) :
    Scoped account settles s op := by
  cases op <;> first | exact hop | exact hop.elim

/-- A sequence that first reads goes on in the same state. -/
theorem bind_reads {p : LedgerProg α} {f : α → LedgerProg β} {Ψ : β → InMemoryStore → Prop}
    (hp : ReadOnly p) (h : LinksWithin account s)
    (hf : ∀ a, exec p s = (.ok a, s) → Walk account settles (f a) s Ψ) :
    Walk account settles (p >>= f) s Ψ :=
  hp.triple_bind scoped_of_isRead (within_self h) hf

/-- A sequence that first issues a read goes on in the same state, with the reply. -/
theorem bind_read {op : LedgerOp} {f : op.Reply → LedgerProg β} {Ψ : β → InMemoryStore → Prop}
    (hop : op.IsRead) (h : LinksWithin account s)
    (hf : Walk account settles (f (s.step op).1) s Ψ) :
    Walk account settles (LedgerStore.issue op >>= f) s Ψ :=
  hop.triple_bind scoped_of_isRead (within_self h) hf

theorem foldlM {f : β → α → LedgerProg β} {l : List α} (I : β → InMemoryStore → Prop)
    (step : ∀ b, ∀ a ∈ l, ∀ s', LinksWithin account s' → Grows account s s' → I b s' →
      Walk account settles (f b a) s' I) :
    ∀ {b}, LinksWithin account s → I b s → Walk account settles (l.foldlM f b) s I :=
  fun h hI => Triple.foldlM I (fun b a ha s' hR => step b a ha s' hR.1 hR.2)
    (fun _ hR => within_self hR.1) (within_self h) hI

theorem forM {f : α → LedgerProg PUnit} {l : List α} (I : InMemoryStore → Prop)
    (step : ∀ a ∈ l, ∀ s', LinksWithin account s' → Grows account s s' → I s' →
      Walk account settles (f a) s' fun _ => I) (h : LinksWithin account s) (hI : I s) :
    Walk account settles (l.forM f) s fun _ => I :=
  Triple.forM I (fun a ha s' hR => step a ha s' hR.1 hR.2)
    (fun _ hR => within_self hR.1) (within_self h) hI

end Walk

/-! ## Groups -/

section Groups

variable {account settles} {s : InMemoryStore}

/-- Writing a group of the account as read is scoped. -/
theorem scoped_upsertTradeGroup {pk : ℕ} {tg row : TradeGroupRow}
    (htg : s.getTradeGroupById pk = some tg) (hpk : GroupOf account s pk)
    (hid : row.groupId = tg.groupId) (hacc : row.account = tg.account) :
    Scoped account settles s (.upsertTradeGroup row) := by
  obtain ⟨tg', htg', hown⟩ := hpk
  obtain rfl := Option.some.inj (htg.symm.trans htg')
  refine ⟨hacc.trans hown, fun tg' htg' => ?_⟩
  have hkey : s.getTradeGroup tg.groupId = some tg :=
    Table.getByKey_of_mem_values (Table.mem_values.mpr ⟨pk, htg⟩) rfl
  rw [hid, hkey] at htg'
  exact Option.some.inj htg' ▸ hown

/-- A sequence whose first call is scoped. -/
theorem Walk.bind_issue {β : Type} {op : LedgerOp} {f : op.Reply → LedgerProg β}
    {Ψ : β → InMemoryStore → Prop} (h : LinksWithin account s)
    (hop : Scoped account settles s op)
    (hf : LinksWithin account (s.step op).2 → Grows account s (s.step op).2 →
      Walk account settles (f (s.step op).1) (s.step op).2 Ψ) :
    Walk account settles (LedgerStore.issue op >>= f) s Ψ := by
  obtain ⟨h', hgrows⟩ := hop.step h
  refine (Walk.issue h hop fun _ _ => ⟨rfl, rfl⟩ : Walk account settles (LedgerStore.issue op) s
    fun r s' => r = (s.step op).1 ∧ s' = (s.step op).2).bind fun r s' _ _ hr => ?_
  obtain ⟨rfl, rfl⟩ := hr
  exact hf h' hgrows

theorem walk_stampGroup {group : OpenGroup} (h : LinksWithin account s)
    (hpk : GroupOf account s group.pk) (closedAt : Option Datetime) :
    Walk account settles (stampGroup group closedAt) s fun _ _ => True := by
  refine Walk.bind_read trivial h ?_
  cases htg : s.getTradeGroupById group.pk with
  | none =>
    simp only [InMemoryStore.step, htg]
    exact Walk.pure h trivial
  | some tg =>
    simp only [InMemoryStore.step, htg]
    refine Walk.bind_reads (readOnly_groupRealized group.rows) h fun realized _ => ?_
    exact Walk.bind_issue h (scoped_upsertTradeGroup htg hpk rfl rfl) fun h' _ =>
      Walk.pure h' trivial

theorem walk_refreshGroupFinancials {group : OpenGroup} (h : LinksWithin account s)
    (hpk : GroupOf account s group.pk) :
    Walk account settles (refreshGroupFinancials group) s fun _ _ => True := by
  refine Walk.bind_read trivial h ?_
  cases htg : s.getTradeGroupById group.pk with
  | none =>
    simp only [InMemoryStore.step, htg]
    exact Walk.pure h trivial
  | some tg =>
    simp only [InMemoryStore.step, htg]
    refine Walk.bind_reads (readOnly_computeGroupFields group.rows) h fun fields _ => ?_
    exact Walk.bind_issue h (scoped_upsertTradeGroup htg hpk rfl rfl) fun h' _ =>
      Walk.pure h' trivial

theorem walk_healGroup {group : OpenGroup} (h : LinksWithin account s)
    (hpk : GroupOf account s group.pk) :
    Walk account settles (healGroup group) s fun _ _ => True := by
  refine Walk.bind_read trivial h ?_
  cases htg : s.getTradeGroupById group.pk with
  | none =>
    simp only [InMemoryStore.step, htg]
    exact Walk.pure h trivial
  | some tg =>
    simp only [InMemoryStore.step, htg]
    refine Walk.bind_reads (readOnly_groupRealized group.rows) h fun realized _ => ?_
    refine Walk.bind_issue h (scoped_upsertTradeGroup htg hpk rfl rfl) fun h' hgrows => ?_
    exact Walk.issue h' (hgrows.groupOf hpk) fun _ _ => trivial

/-- The open groups of the account are groups of the account. -/
theorem groupOf_openGroupsOf {g : OpenGroup} (hg : g ∈ openGroupsOf s account) :
    GroupOf account s g.pk := by
  obtain ⟨tg, htg, hpk⟩ := List.mem_filterMap.mp hg
  obtain ⟨pk, hid, rfl⟩ := Option.map_eq_some_iff.mp hpk
  obtain ⟨row, hrow, hkey⟩ := Table.idOf_eq_some.mp hid
  obtain ⟨htg, hf⟩ := List.mem_filter.mp htg
  -- the row under the key is the trade
  have hrow' : row = tg :=
    Option.some.inj ((Table.getByKey_eq_some.mpr ⟨⟨pk, hrow⟩, hkey⟩).symm.trans
      (Table.getByKey_of_mem_values htg rfl))
  refine ⟨row, Table.get_eq_some.mpr hrow, ?_⟩
  rw [hrow']
  simp only [Bool.and_eq_true, Option.all_some, decide_eq_true_eq] at hf
  exact hf.1.1.2

end Groups

/-! ## Exits -/

section Exits

variable {account settles} {s : InMemoryStore}

theorem mem_exitEvents {pk : ℕ} {rows : List TxnRow} {closed : Bool}
    {rolledToPk deliveryPk : Option ℕ} {ev : EventRow}
    (hev : ev ∈ exitEvents pk rows closed rolledToPk deliveryPk) : ev.tradeGroupId = pk := by
  unfold exitEvents at hev
  rw [List.mem_append, List.mem_append] at hev
  rcases hev with (hev | hev) | hev
  · split at hev
    · cases hev
    · obtain rfl := List.mem_singleton.mp hev
      rfl
  · obtain ⟨e, -, rfl⟩ := List.mem_map.mp hev
    rfl
  · split at hev
    · obtain rfl := List.mem_singleton.mp hev
      rfl
    · cases hev

theorem walk_addEvents {pk : ℕ} {events : List EventRow} (h : LinksWithin account s)
    (hpk : GroupOf account s pk) (hev : ∀ ev ∈ events, ev.tradeGroupId = pk) :
    Walk account settles (addEvents events) s fun _ _ => True := by
  refine Walk.forM (fun _ => True) (fun ev hmem s' h' hgrows _ => ?_) h trivial
  refine Walk.issue h' ?_ fun _ _ => trivial
  show GroupOf account s' ev.tradeGroupId
  rw [hev ev hmem]
  exact hgrows.groupOf hpk

theorem walk_applyExit {group : OpenGroup} {rows : List TxnRow} (h : LinksWithin account s)
    (hpk : GroupOf account s group.pk) (hrows : ∀ r ∈ rows, TxnOf account s r.ttTransactionId)
    (rolledToPk deliveryPk : Option ℕ) :
    Walk account settles (applyExit group rows rolledToPk deliveryPk) s fun applied _ =>
      applied.group.pk = group.pk := by
  have hattach : Scoped account settles s
      (.attachTransactionsToTradeGroup (rows.map TxnRow.ttTransactionId) group.pk) := by
    refine ⟨hpk, fun id hid => ?_⟩
    obtain ⟨r, hr, rfl⟩ := List.mem_map.mp hid
    exact hrows r hr
  refine Walk.bind_issue h hattach fun h₁ hgrows₁ => ?_
  have hpk₁ := hgrows₁.groupOf hpk
  simp only []
  split
  · refine Walk.bind_read trivial h₁ ?_
    exact Walk.pure h₁ rfl
  · refine Walk.bind (walk_addEvents h₁ hpk₁ fun ev hev => mem_exitEvents hev)
      fun _ s₂ h₂ hgrows₂ _ => ?_
    have hpk₂ := hgrows₂.groupOf hpk₁
    split
    · have hextended : GroupOf account s₂ (group.extendUnique (group.newRows rows)).pk := hpk₂
      refine Walk.bind (walk_stampGroup h₂ hextended _) fun _ _ h₃ _ _ => ?_
      exact Walk.pure h₃ rfl
    · exact Walk.pure h₂ rfl

end Exits

/-! ## Pre-attributed rows -/

/-- A row a pass may route: it is the account's, and so are the group and the order it names. -/
structure Routable (s : InMemoryStore) (a : ActivityRow) : Prop where
  txn : TxnOf account s a.ttTransactionId
  group : ∀ pk, a.orderTradeGroupId = some pk → GroupWithin account s pk
  names : ∀ k, a.ttOrderId = some k → OrderOf account s k

/-- The groups are groups of the account. -/
def GroupsOf (s : InMemoryStore) (groups : List OpenGroup) : Prop :=
  ∀ g ∈ groups, GroupOf account s g.pk

section Intent

variable {account settles} {s s' : InMemoryStore}

theorem Routable.grows {a : ActivityRow} (ha : Routable account s a) (h : Grows account s s') :
    Routable account s' a where
  txn := h.txnOf ha.txn
  group pk hpk := h.groupWithin (ha.group pk hpk)
  names k hk := h.orderOf (ha.names k hk)

namespace GroupsOf

variable {groups : List OpenGroup}

theorem grows (hg : GroupsOf account s groups) (h : Grows account s s') :
    GroupsOf account s' groups := fun g hmem => h.groupOf (hg g hmem)

theorem append (hg : GroupsOf account s groups) {group : OpenGroup}
    (hgroup : GroupOf account s group.pk) : GroupsOf account s (groups ++ [group]) := by
  intro g hmem
  rcases List.mem_append.mp hmem with hmem | hmem
  · exact hg g hmem
  · obtain rfl := List.mem_singleton.mp hmem
    exact hgroup

theorem replaceGroup (hg : GroupsOf account s groups) {group : OpenGroup}
    (hgroup : GroupOf account s group.pk) : GroupsOf account s (replaceGroup groups group) := by
  intro g hmem
  obtain ⟨g', hg', rfl⟩ := List.mem_map.mp hmem
  split
  · exact hgroup
  · exact hg g' hg'

theorem removeGroup (hg : GroupsOf account s groups) (pk : ℕ) :
    GroupsOf account s (removeGroup groups pk) := fun g hmem => hg g (List.mem_of_mem_filter hmem)

end GroupsOf

theorem groupsOf_groupForPkResult {openGroups : List OpenGroup} {pk : ℕ}
    (hgroups : GroupsOf account s openGroups) (hpk : GroupWithin account s pk) :
    GroupsOf account s (groupForPkResult s openGroups pk).2 ∧
      ∀ g, (groupForPkResult s openGroups pk).1 = some g → GroupOf account s g.pk := by
  unfold groupForPkResult
  cases hfind : openGroups.find? fun g => g.pk = pk with
  | some g =>
    refine ⟨hgroups, fun g' hg' => ?_⟩
    obtain rfl := Option.some.inj hg'
    exact hgroups g (List.mem_of_find?_eq_some hfind)
  | none =>
    cases htg : s.getTradeGroupById pk with
    | none => exact ⟨hgroups, fun g hg => by cases hg⟩
    | some tg =>
      have hown : GroupOf account s pk := ⟨tg, htg, hpk tg htg⟩
      have hloaded : GroupOf account s (⟨pk, s.getGroupTransactions pk⟩ : OpenGroup).pk := hown
      refine ⟨hgroups.append hloaded, fun g' hg' => ?_⟩
      obtain rfl := Option.some.inj hg'
      exact hown

theorem walk_attachOpening {group : OpenGroup} {opening : List TxnRow}
    (h : LinksWithin account s) (hpk : GroupOf account s group.pk)
    (hrows : ∀ r ∈ opening, TxnOf account s r.ttTransactionId) :
    Walk account settles (attachOpening group opening) s fun g _ => g.pk = group.pk := by
  unfold attachOpening
  split
  · exact Walk.pure h rfl
  · have hattach : Scoped account settles s
        (.attachTransactionsToTradeGroup (opening.map TxnRow.ttTransactionId) group.pk) := by
      refine ⟨hpk, fun id hid => ?_⟩
      obtain ⟨r, hr, rfl⟩ := List.mem_map.mp hid
      exact hrows r hr
    refine Walk.bind_issue h hattach fun h₁ hgrows₁ => ?_
    simp only []
    have hextended : GroupOf account _ (group.extendUnique opening).pk := hgrows₁.groupOf hpk
    refine Walk.bind (walk_refreshGroupFinancials h₁ hextended) fun _ _ h₂ _ _ => ?_
    exact Walk.pure h₂ rfl

theorem walk_applyIntentExit {openGroups : List OpenGroup} {group : OpenGroup}
    {closing : List TxnRow} (h : LinksWithin account s) (hgroups : GroupsOf account s openGroups)
    (hpk : GroupOf account s group.pk)
    (hrows : ∀ r ∈ closing, TxnOf account s r.ttTransactionId) :
    Walk account settles (applyIntentExit openGroups group closing) s fun groups s' =>
      GroupsOf account s' groups := by
  unfold applyIntentExit
  split
  · exact Walk.pure h hgroups
  · refine Walk.bind (walk_applyExit h hpk hrows none none) fun applied s₁ h₁ hgrows₁ happ => ?_
    have hgroups₁ := hgroups.grows hgrows₁
    split
    · exact Walk.pure h₁ (hgroups₁.removeGroup _)
    · refine Walk.pure h₁ (hgroups₁.replaceGroup ?_)
      rw [happ]
      exact hgrows₁.groupOf hpk

/-- What routing the pre-attributed rows carries from one group to the next. -/
def IntentInv (account : String) (w : List OpenGroup × List ActivityRow) (s : InMemoryStore) :
    Prop :=
  GroupsOf account s w.1 ∧ ∀ a ∈ w.2, Routable account s a

theorem walk_applyIntent {w : List OpenGroup × List ActivityRow} {e : ℕ × List ActivityRow}
    (h : LinksWithin account s) (hw : IntentInv account w s) (he : GroupWithin account s e.1)
    (hrows : ∀ a ∈ e.2, Routable account s a) :
    Walk account settles (applyIntent w e) s fun w' s' => IntentInv account w' s' := by
  unfold applyIntent
  refine Walk.bind_reads (readOnly_groupForPk _ _) h fun found hfound => ?_
  rw [exec_groupForPk] at hfound
  obtain rfl := (Except.ok.inj (congrArg Prod.fst hfound)).symm
  obtain ⟨hgroups, hgroup⟩ := groupsOf_groupForPkResult hw.1 he
  cases hres : (groupForPkResult s w.1 e.1).1 with
  | none =>
    simp only [hres]
    refine Walk.pure h ⟨hgroups, fun a ha => ?_⟩
    rcases List.mem_append.mp ha with ha | ha
    · exact hw.2 a ha
    · exact hrows a ha
  | some group =>
    simp only [hres]
    have hpk := hgroup group hres
    have htxns : ∀ r ∈ e.2.map ActivityRow.toTxnRow, TxnOf account s r.ttTransactionId := by
      intro r hr
      obtain ⟨a, ha, rfl⟩ := List.mem_map.mp hr
      exact (hrows a ha).txn
    refine Walk.bind (walk_attachOpening h hpk fun r hr => htxns r (List.mem_of_mem_filter hr))
      fun group' s₁ h₁ hgrows₁ hpk' => ?_
    have hpk₁ : GroupOf account s₁ group'.pk := by
      rw [hpk']
      exact hgrows₁.groupOf hpk
    refine Walk.bind (walk_applyIntentExit h₁ ((hgroups.grows hgrows₁).replaceGroup hpk₁) hpk₁
      fun r hr => hgrows₁.txnOf (htxns r (List.mem_of_mem_filter hr)))
      fun groups s₂ h₂ hgrows₂ hgroups₂ => ?_
    exact Walk.pure h₂ ⟨hgroups₂, fun a ha => ((hw.2 a ha).grows hgrows₁).grows hgrows₂⟩

theorem walk_applyIntentRows {openGroups : List OpenGroup} {cluster : List ActivityRow}
    (h : LinksWithin account s) (hgroups : GroupsOf account s openGroups)
    (hrows : ∀ a ∈ cluster, Routable account s a) (dryRun : Bool) :
    Walk account settles (applyIntentRows openGroups cluster dryRun) s fun w s' =>
      IntentInv account w s' := by
  have hfree : IntentInv account (openGroups, unattributed cluster) s :=
    ⟨hgroups, fun a ha => hrows a (List.mem_of_mem_filter ha)⟩
  unfold applyIntentRows
  split
  · exact Walk.pure h hfree
  · refine Walk.foldlM (IntentInv account) (fun w e he s' h' hgrows hw => ?_) h hfree
    obtain ⟨⟨a, ha, hpk⟩, hsnd⟩ := mem_groupBy.mp (show (e.1, e.2) ∈ _ from he)
    refine walk_applyIntent h' hw (hgrows.groupWithin ((hrows a ha).group e.1 hpk)) ?_
    intro a' ha'
    rw [hsnd] at ha'
    exact (hrows a' (List.mem_of_mem_filter ha')).grows hgrows

end Intent

/-! ## New groups -/

section Create

variable {account settles} {s : InMemoryStore}

theorem walk_stampOrders {groupPk : ℕ} {cluster : List TxnRow} (h : LinksWithin account s)
    (hpk : GroupOf account s groupPk)
    (hnames : ∀ r ∈ cluster, ∀ k, r.ttOrderId = some k → OrderOf account s k) :
    Walk account settles (stampOrders groupPk cluster) s fun _ _ => True := by
  unfold stampOrders
  have hcollect : Walk account settles
      ((ttOrderIds cluster).foldlM (orderToUpdate groupPk) []) s fun orders s' =>
        ∀ o ∈ orders, ScopedOrder account s' o := by
    refine Walk.foldlM (fun orders s' => ∀ o ∈ orders, ScopedOrder account s' o)
      (fun orders k hk s' h' hgrows hall => ?_) h (by simp)
    refine Walk.bind_read trivial h' ?_
    cases ho : s'.getOrder k with
    | none =>
      simp only [InMemoryStore.step, ho]
      exact Walk.pure h' hall
    | some order =>
      simp only [InMemoryStore.step, ho]
      refine Walk.pure h' fun o hmem => ?_
      rcases List.mem_append.mp hmem with hmem | hmem
      · exact hall o hmem
      · obtain rfl := List.mem_singleton.mp hmem
        -- the identifier is that of a row of the cluster
        obtain ⟨r, hr, hrk⟩ : ∃ r ∈ cluster, r.ttOrderId = some k := by
          rw [ttOrderIds, List.mem_eraseDups, List.reduceOption_mem_iff] at hk
          exact List.mem_map.mp (List.mem_of_mem_filter hk)
        have hown : order.account = account := hgrows.orderOf (hnames r hr k hrk) order ho
        refine ⟨hown, ⟨k, order, (Table.getByKey_eq_some.mp ho).2, ho, hown⟩, fun pk hpk' => ?_⟩
        obtain rfl := Option.some.inj hpk'
        exact hgrows.groupOf hpk
  refine Walk.bind hcollect fun orders s₁ h₁ _ hall => ?_
  split
  · exact Walk.pure h₁ trivial
  · exact Walk.issue h₁ hall fun _ _ => trivial

theorem walk_createTradeGroup {cluster : List TxnRow} (h : LinksWithin account s)
    (htxns : ∀ r ∈ cluster, TxnOf account s r.ttTransactionId)
    (hnames : ∀ r ∈ cluster, ∀ k, r.ttOrderId = some k → OrderOf account s k) :
    Walk account settles (createTradeGroup account cluster) s fun pk s' =>
      GroupOf account s' pk := by
  unfold createTradeGroup
  refine Walk.bind_reads (readOnly_computeGroupFields cluster) h fun fields _ => ?_
  refine Walk.bind_issue h trivial fun h₁ hgrows₁ => ?_
  -- no group is stored under the identifier just drawn
  have hfresh : Scoped account settles s.uuid4.2
      (.upsertTradeGroup (newGroupRow s.freshGroupId account fields)) := by
    refine ⟨rfl, fun tg' htg' => ?_⟩
    have hnone := Table.idOf_eq_none.mp (freshGroupId_idOf s)
    obtain ⟨⟨i, hi⟩, hk⟩ := Table.getByKey_eq_some.mp htg'
    exact absurd hk (hnone _ hi)
  refine Walk.bind_issue h₁ hfresh fun h₂ hgrows₂ => ?_
  have hpk₂ : GroupOf account (s.uuid4.2.upsertTradeGroup
      (newGroupRow s.freshGroupId account fields)).2
        (s.uuid4.2.upsertTradeGroup (newGroupRow s.freshGroupId account fields)).1 :=
    ⟨_, Table.get_upsert_self _ _, rfl⟩
  have hattach : Scoped account settles
      (s.uuid4.2.upsertTradeGroup (newGroupRow s.freshGroupId account fields)).2
      (.attachTransactionsToTradeGroup (cluster.map TxnRow.ttTransactionId)
        (s.uuid4.2.upsertTradeGroup (newGroupRow s.freshGroupId account fields)).1) := by
    refine ⟨hpk₂, fun id hid => ?_⟩
    obtain ⟨r, hr, rfl⟩ := List.mem_map.mp hid
    exact hgrows₂.txnOf (hgrows₁.txnOf (htxns r hr))
  refine Walk.bind_issue h₂ hattach fun h₃ hgrows₃ => ?_
  refine Walk.bind (walk_stampOrders h₃ (hgrows₃.groupOf hpk₂) fun r hr k hk =>
    hgrows₃.orderOf (hgrows₂.orderOf (hgrows₁.orderOf (hnames r hr k hk))))
    fun orderPks s₄ h₄ hgrows₄ _ => ?_
  have hpk₄ := hgrows₄.groupOf (hgrows₃.groupOf hpk₂)
  refine Walk.bind_issue h₄ hpk₄ fun h₅ hgrows₅ => ?_
  exact Walk.pure h₅ (hgrows₅.groupOf hpk₄)

end Create

/-! ## Clusters -/

/-- What a pass carries concerns groups of the account. -/
structure PassOf (s : InMemoryStore) (pass : Pass) : Prop where
  openGroups : GroupsOf account s pass.openGroups
  exits : ∀ ex ∈ pass.exits, GroupOf account s ex.group.pk

section Clusters

variable {account settles} {s s' : InMemoryStore}

theorem PassOf.grows {pass : Pass} (hp : PassOf account s pass) (h : Grows account s s') :
    PassOf account s' pass where
  openGroups := hp.openGroups.grows h
  exits ex hex := h.groupOf (hp.exits ex hex)

theorem walk_openRest {pass : Pass} {rest : List TxnRow} (h : LinksWithin account s)
    (hp : PassOf account s pass) (htxns : ∀ r ∈ rest, TxnOf account s r.ttTransactionId)
    (hnames : ∀ r ∈ rest, ∀ k, r.ttOrderId = some k → OrderOf account s k) (dryRun : Bool) :
    Walk account settles (openRest account dryRun pass rest) s fun w s' =>
      PassOf account s' w.2 := by
  unfold openRest
  split
  · exact Walk.pure h hp
  · split
    · exact Walk.pure h ⟨hp.openGroups, hp.exits⟩
    · refine Walk.bind (walk_createTradeGroup h htxns hnames) fun newPk s₁ h₁ hgrows₁ hnew => ?_
      have hp₁ := hp.grows hgrows₁
      have hopened : GroupOf account s₁ (⟨newPk, rest⟩ : OpenGroup).pk := hnew
      exact Walk.pure h₁ ⟨hp₁.openGroups.append hopened, hp₁.exits⟩

theorem walk_applyBucket {pass : Pass} {bucket : OpenGroup × List ActivityRow}
    (h : LinksWithin account s) (hp : PassOf account s pass)
    (hpk : GroupOf account s bucket.1.pk)
    (hrows : ∀ a ∈ bucket.2, TxnOf account s a.ttTransactionId) (newPk : Option ℕ)
    (rest : List TxnRow) :
    Walk account settles (applyBucket newPk rest pass bucket) s fun pass' s' =>
      PassOf account s' pass' := by
  unfold applyBucket
  simp only []
  refine Walk.bind_reads (readOnly_deliveryPk _ _ _) h fun delivery _ => ?_
  have htxns : ∀ r ∈ bucket.2.map ActivityRow.toTxnRow, TxnOf account s r.ttTransactionId := by
    intro r hr
    obtain ⟨a, ha, rfl⟩ := List.mem_map.mp hr
    exact hrows a ha
  refine Walk.bind (walk_applyExit h hpk htxns _ _) fun applied s₁ h₁ hgrows₁ happ => ?_
  have hp₁ := hp.grows hgrows₁
  have happ₁ : GroupOf account s₁ applied.group.pk := by
    rw [happ]
    exact hgrows₁.groupOf hpk
  refine Walk.pure h₁ ⟨?_, fun ex hex => ?_⟩
  · simp only []
    split
    · exact hp₁.openGroups.removeGroup _
    · exact hp₁.openGroups.replaceGroup happ₁
  · rcases List.mem_append.mp hex with hex | hex
    · exact hp₁.exits ex hex
    · obtain rfl := List.mem_singleton.mp hex
      exact happ₁

theorem walk_reconcileCluster {pass : Pass} {cluster : List ActivityRow}
    (h : LinksWithin account s) (hp : PassOf account s pass)
    (hrows : ∀ a ∈ cluster, Routable account s a) (dryRun : Bool) :
    Walk account settles (reconcileCluster account dryRun pass cluster) s fun pass' s' =>
      PassOf account s' pass' := by
  unfold reconcileCluster
  refine Walk.bind (walk_applyIntentRows h hp.openGroups hrows dryRun)
    fun w s₁ h₁ hgrows₁ hw => ?_
  obtain ⟨openGroups, left⟩ := w
  have hp₁ : PassOf account s₁ { pass with openGroups } := ⟨hw.1, (hp.grows hgrows₁).exits⟩
  simp only []
  split
  · exact Walk.pure h₁ hp₁
  · -- the rows routed are rows of the cluster, in buckets of open groups
    have hrest : ∀ a ∈ (routeCluster openGroups left).rest, Routable account s₁ a := fun a ha =>
      hw.2 a ((routeCluster_perm openGroups left).mem_iff.mp (List.mem_append_right _ ha))
    have hbuckets : ∀ b ∈ (routeCluster openGroups left).buckets,
        GroupOf account s₁ b.1.pk ∧ ∀ a ∈ b.2, Routable account s₁ a := by
      intro b hb
      refine ⟨hw.1 b.1 (mem_of_mem_buckets openGroups left hb), fun a ha => ?_⟩
      refine hw.2 a ((routeCluster_perm openGroups left).mem_iff.mp (List.mem_append_left _ ?_))
      exact List.mem_flatMap.mpr ⟨b, hb, ha⟩
    refine Walk.bind (walk_openRest h₁ hp₁ ?_ ?_ dryRun) fun w s₂ h₂ hgrows₂ hp₂ => ?_
    · intro r hr
      obtain ⟨a, ha, rfl⟩ := List.mem_map.mp hr
      exact (hrest a ha).txn
    · intro r hr
      obtain ⟨a, ha, rfl⟩ := List.mem_map.mp hr
      exact (hrest a ha).names
    · split
      · exact Walk.pure h₂ hp₂
      · refine Walk.foldlM (fun pass' s' => PassOf account s' pass')
          (fun pass' b hb s' h' hgrows hp' => ?_) h₂ hp₂
        obtain ⟨hpk, hrows'⟩ := hbuckets b hb
        exact walk_applyBucket h' hp' (hgrows.groupOf (hgrows₂.groupOf hpk))
          (fun a ha => hgrows.txnOf (hgrows₂.txnOf (hrows' a ha).txn)) _ _

theorem walk_linkRoll {ex : AppliedExit} (h : LinksWithin account s)
    (hpk : GroupOf account s ex.group.pk) (closedAt : Datetime) (created : List CreatedGroup) :
    Walk account settles (linkRoll ex closedAt created) s fun _ _ => True := by
  induction created with
  | nil => exact Walk.pure h trivial
  | cons cg created ih =>
    refine Walk.bind_reads (readOnly_rollsInto _ _ _) h fun opened _ => ?_
    cases opened with
    | none => exact ih
    | some openedAt => exact Walk.issue h hpk fun _ _ => trivial

theorem walk_linkCrossClusterRolls {exits : List AppliedExit} (h : LinksWithin account s)
    (hex : ∀ ex ∈ exits, GroupOf account s ex.group.pk) (created : List CreatedGroup) :
    Walk account settles (linkCrossClusterRolls exits created) s fun _ _ => True := by
  refine Walk.forM (fun _ => True) (fun ex hmem s' h' hgrows _ => ?_) h trivial
  split
  · split
    · exact Walk.pure h' trivial
    · exact walk_linkRoll h' (hgrows.groupOf (hex ex hmem)) _ _
  · exact Walk.pure h' trivial

/-- The rows of the account's activity may be routed when they are candidates. -/
theorem routable_of_candidate (h : LinksWithin account s) {f : ActivityFilter}
    (hf : f.account = some account) {a : ActivityRow} (ha : a ∈ s.accountActivity f)
    (hcand : isCandidate a = true) : Routable account s a := by
  obtain ⟨t, ht, rfl⟩ := List.mem_map.mp ha
  obtain ⟨ht, hin⟩ := List.mem_filter.mp ht
  have hacc : t.account = account := by
    rw [hf] at hin
    simp only [Bool.and_eq_true, Option.all_some, decide_eq_true_eq] at hin
    exact hin.1.1
  have hfree : t.tradeGroupId = none := by
    rw [isCandidate, Bool.and_eq_true] at hcand
    exact Option.isNone_iff_eq_none.mp hcand.1
  refine ⟨fun t' ht' => ?_, fun pk hpk => ?_, fun k hk => h.txnNames t ht hacc hfree k hk⟩
  · rw [← Option.some.inj (((InMemoryStore.mem_values_iff_txn s).mp ht).symm.trans ht'), hacc]
  · -- the group named is that of the order linked
    obtain ⟨o, ho, hopk⟩ := Option.bind_eq_some_iff.mp hpk
    obtain ⟨i, hi, hoi⟩ := Option.bind_eq_some_iff.mp ho
    have hown := h.txnOrder t ht hacc hfree i o hi hoi
    exact h.orderGroup o (Table.mem_values.mpr ⟨i, hoi⟩) hown pk hopk

theorem walk_routeCandidates (h : LinksWithin account s) (args : ReconcileArgs) :
    Walk account settles (routeCandidates account args) s fun _ _ => True := by
  unfold routeCandidates
  refine Walk.bind_read trivial h ?_
  simp only []
  refine Walk.bind_reads (readOnly_loadOpenGroups account) h fun openGroups hopen => ?_
  rw [exec_loadOpenGroups] at hopen
  obtain rfl := (Except.ok.inj (congrArg Prod.fst hopen)).symm
  have hp : PassOf account s { openGroups := openGroupsOf s account } :=
    ⟨fun g hg => groupOf_openGroupsOf hg, fun ex hex => by cases hex⟩
  refine Walk.bind (Walk.foldlM (fun pass s' => PassOf account s' pass)
    (fun pass cluster hc s' h' hgrows hp' => ?_) h hp) fun pass s₁ h₁ _ hp₁ => ?_
  · refine walk_reconcileCluster h' hp' (fun a ha => ?_) args.dryRun
    have hmem := (clusterByTime_perm _).mem_iff.mp (List.mem_flatten.mpr ⟨cluster, hc, ha⟩)
    obtain ⟨hact, hcand⟩ := List.mem_filter.mp hmem
    exact (routable_of_candidate h rfl hact hcand).grows hgrows
  · cases args.dryRun with
    | true => exact Walk.pure h₁ trivial
    | false =>
      exact Walk.bind (walk_linkCrossClusterRolls h₁ hp₁.exits _) fun _ _ h₂ _ _ =>
        Walk.pure h₂ trivial

end Clusters

/-! ## The pass -/

section Pass

variable {account settles} {s : InMemoryStore} {args : ReconcileArgs}

/-- The settlements due in a state are under identifiers the pass may write. -/
def SettlesDue (account : String) (settles : String → Prop) (args : ReconcileArgs)
    (s : InMemoryStore) : Prop :=
  ∀ rows, lapseSettlements s account args = .ok rows → ∀ r ∈ rows, settles r.ttTransactionId

theorem walk_applyLapse {synthesized : List TxnRow} {group : OpenGroup}
    (h : LinksWithin account s) (hpk : GroupOf account s group.pk)
    (hrows : ∀ r ∈ synthesized, TxnOf account s r.ttTransactionId) :
    Walk account settles (applyLapse synthesized group) s fun _ _ => True := by
  unfold applyLapse
  simp only []
  split
  · exact Walk.pure h trivial
  · refine Walk.bind (walk_applyExit h hpk (fun r hr => hrows r (List.mem_of_mem_filter hr))
      none none) fun _ _ h₁ _ _ => ?_
    exact Walk.pure h₁ trivial

/-- The settlement rows due belong to groups of the account. -/
theorem scopedTxn_of_due (hset : SettlesDue account settles args s) {rows : List TxnRow}
    (hrows : lapseSettlements s account args = .ok rows) {r : TxnRow} (hr : r ∈ rows) :
    ScopedTxn account settles s r := by
  obtain ⟨g, sid, hg, -, sec, expiry, points, -, rfl⟩ := (mem_lapseSettlements s hrows).mp hr
  exact ⟨rfl, hset rows hrows _ hr, g.pk, rfl, groupOf_openGroupsOf hg⟩

theorem walk_synthesizeLapsedSettlements (h : LinksWithin account s)
    (hset : SettlesDue account settles args s) :
    Walk account settles (synthesizeLapsedSettlements account args) s fun _ _ => True := by
  unfold synthesizeLapsedSettlements
  refine Walk.bind_read trivial h ?_
  simp only []
  have hlast : lastExecutedAt (List.map ActivityRow.toTxnRow
      (s.step (.accountActivity { account := some account })).1) = lastActivity s account := rfl
  rw [hlast]
  cases hact : lastActivity s account with
  | none => exact Walk.pure h trivial
  | some last =>
    simp only []
    refine Walk.bind_reads (readOnly_loadOpenGroups account) h fun openGroups hopen => ?_
    rw [exec_loadOpenGroups] at hopen
    obtain rfl := (Except.ok.inj (congrArg Prod.fst hopen)).symm
    refine Walk.bind_reads (Direct.foldlM (fun rows sid _ =>
      readOnly_synthesizeSecurity args account last _ rows sid) _) h fun rows hrows => ?_
    -- the rows collected are the settlements due
    have hdue : lapseSettlements s account args = .ok rows := by
      rw [exec_synthesizeSecurities] at hrows
      have := congrArg Prod.fst hrows
      rw [lapseSettlements, hact]
      simp only [] at this ⊢
      rw [← this]
      cases securitiesLapse s args account last (openGroupsOf s account)
        (heldSecurities (openGroupsOf s account)) <;> simp [Except.map]
    split
    · refine Walk.bind_issue h (fun r hr => scopedTxn_of_due hset hdue hr) fun h₁ hgrows₁ => ?_
      have htxns : ∀ r ∈ rows, TxnOf account (s.upsertTransactions rows) r.ttTransactionId := by
        intro r hr t ht
        rw [txn_upsertTransactions_of_mem s (nodup_lapseSettlements s hdue) hr] at ht
        rw [← Option.some.inj ht, account_written]
        exact (scopedTxn_of_due hset hdue hr).own
      refine Walk.bind (Walk.forM (fun _ => True) (fun g hg s' h' hgrows _ => ?_) h₁ trivial)
        fun _ _ h₂ _ _ => Walk.pure h₂ trivial
      exact walk_applyLapse h' (hgrows.groupOf (hgrows₁.groupOf (groupOf_openGroupsOf hg)))
        fun r hr => hgrows.txnOf (htxns r hr)
    · exact Walk.pure h trivial

theorem walk_healFullyClosedGroups (h : LinksWithin account s) (dryRun : Bool) :
    Walk account settles (healFullyClosedGroups account dryRun) s fun _ _ => True := by
  unfold healFullyClosedGroups
  refine Walk.bind_reads (readOnly_loadOpenGroups account) h fun openGroups hopen => ?_
  rw [exec_loadOpenGroups] at hopen
  obtain rfl := (Except.ok.inj (congrArg Prod.fst hopen)).symm
  simp only []
  split
  · exact Walk.pure h trivial
  · refine Walk.bind (Walk.forM (fun _ => True) (fun g hg s' h' hgrows _ => ?_) h trivial)
      fun _ _ h₁ _ _ => Walk.pure h₁ trivial
    exact walk_healGroup h' (hgrows.groupOf (groupOf_openGroupsOf (List.mem_of_mem_filter hg)))

theorem walk_linkAccount (h : LinksWithin account s) :
    Walk account settles (linkAccount account) s fun _ s' => s' = linked s account := by
  unfold linkAccount
  refine Walk.bind_issue h rfl fun h₁ _ => ?_
  refine Walk.bind_issue h₁ rfl fun h₂ _ => ?_
  exact Walk.bind_issue h₂ rfl fun h₃ _ => Walk.pure h₃ rfl

/-- **A pass over one account issues calls scoped to it only**, whatever calls fail. -/
theorem walk_reconcileAccount (h : LinksWithin account s)
    (hset : SettlesDue account settles args s) :
    Walk account settles (reconcileAccount args account) s fun _ _ => True := by
  unfold reconcileAccount
  refine Walk.bind (walk_linkAccount h) fun _ s₁ h₁ _ hs₁ => ?_
  have hset₁ : SettlesDue account settles args s₁ := by
    rw [SettlesDue, hs₁, lapseSettlements_linked]
    exact hset
  refine Walk.bind (walk_synthesizeLapsedSettlements h₁ hset₁) fun _ s₂ h₂ _ _ => ?_
  refine Walk.bind (walk_routeCandidates h₂ args) fun _ s₃ h₃ _ _ => ?_
  refine Walk.bind (walk_healFullyClosedGroups h₃ args.dryRun) fun _ s₄ h₄ _ _ => ?_
  exact Walk.pure h₄ trivial

end Pass

end TtLedger
