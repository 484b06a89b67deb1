import TtLedger.Foundations.Interleave
import TtLedger.Ingest.PassRuns
import TtLedger.Ingest.ReadOnly
import TtLedger.Ingest.RouteLaws
import Mathlib.Data.Set.Insert

/-!
# What a pass sees itself do

`Progress` is what a pass over an account can tell from its own calls and their replies: the groups
it has seen stored, the orders it has read, and the candidates it has read and not attached since.
`coverage` is the monitor that keeps it; it allows a pass to attach transactions to groups seen
stored only, and to write orders back under the account it read them with.

`guarded_reconcile` says that a pass keeps to this whatever the replies are, and that a pass without
an error has attached every candidate it read.
-/

namespace TtLedger

open LedgerStore Prog

/-- What a pass has seen. -/
structure Progress where
  /-- The groups seen stored. -/
  groups : Set ℕ := ∅
  /-- The orders read. -/
  orders : Set OrderRow := ∅
  /-- Whether the transactions of the account have been linked to their orders. -/
  linked : Bool := false
  /-- The candidates read and not attached since; before any is read, every transaction. -/
  pending : Set String := Set.univ

namespace Progress

/-- The candidates of a reply. -/
def candidates (activity : List ActivityRow) : Set String :=
  {id | ∃ a ∈ activity, isCandidate a = true ∧ a.ttTransactionId = id}

/-- What the reply of a call adds to what has been seen. -/
def after (since : Option Date) (g : Progress) : (op : LedgerOp) → Except String op.Reply → Progress
  | .linkTransactionsToOrders _, .ok _ => { g with linked := true }
  | .accountActivity f, .ok activity =>
    if f.start = since then { g with pending := candidates activity } else g
  | .attachTransactionsToTradeGroup ids _, .ok _ =>
    { g with pending := g.pending \ {id | id ∈ ids} }
  | .getTradeGroupById pk, .ok (some _) => { g with groups := insert pk g.groups }
  | .getTradeGroupId _, .ok (some pk) => { g with groups := insert pk g.groups }
  | .upsertTradeGroup _, .ok pk => { g with groups := insert pk g.groups }
  | .getOrder _, .ok (some order) => { g with orders := insert order g.orders }
  | _, _ => g

/-- The calls a pass may issue after what it has seen. -/
def Allows (account : String) (g : Progress) : LedgerOp → Prop
  | .linkTransactionsToOrders account' => account' = account
  | .accountActivity f => g.linked = true ∧ ∃ start, f = { account := some account, start }
  | .attachTransactionsToTradeGroup _ pk => pk ∈ g.groups
  | .upsertTransactions rows => ∀ r ∈ rows, ∃ pk ∈ g.groups, r.tradeGroupId = some pk
  | .upsertOrders rows => ∀ r ∈ rows, ∃ order ∈ g.orders,
      r.ttOrderId = order.ttOrderId ∧ r.account = order.account
  | .moveTransactionsToGroup _ _ => False
  | .linkTransactionsToPositions _ => False
  | _ => True

/-- More has been seen and less is pending. -/
structure Grows (g g' : Progress) : Prop where
  groups : g.groups ⊆ g'.groups
  orders : g.orders ⊆ g'.orders
  linked : g.linked = true → g'.linked = true
  pending : g'.pending ⊆ g.pending

theorem Grows.refl (g : Progress) : Grows g g :=
  ⟨subset_rfl, subset_rfl, id, subset_rfl⟩

instance : IsTrans Progress Grows where
  trans _ _ _ h h' :=
    ⟨h.groups.trans h'.groups, h.orders.trans h'.orders, fun hl => h'.linked (h.linked hl),
      h'.pending.trans h.pending⟩

theorem after_error (since : Option Date) (g : Progress) (op : LedgerOp) (e : String) :
    g.after since op (.error e) = g := by
  cases op <;> rfl

/-- Any call but the read of the activity adds to what has been seen. -/
theorem grows_after (since : Option Date) (g : Progress) {op : LedgerOp}
    (hop : ∀ f, op ≠ .accountActivity f) (r : Except String op.Reply) :
    Grows g (g.after since op r) := by
  cases r with
  | error e =>
    rw [after_error]
    exact .refl g
  | ok a =>
    cases op with
    | accountActivity f => exact absurd rfl (hop f)
    | linkTransactionsToOrders account => exact ⟨subset_rfl, subset_rfl, fun _ => rfl, subset_rfl⟩
    | attachTransactionsToTradeGroup ids pk =>
      exact ⟨subset_rfl, subset_rfl, id, Set.sdiff_subset⟩
    | upsertTradeGroup tg => exact ⟨Set.subset_insert _ _, subset_rfl, id, subset_rfl⟩
    | getTradeGroupById pk =>
      cases a with
      | none => exact .refl g
      | some tg => exact ⟨Set.subset_insert _ _, subset_rfl, id, subset_rfl⟩
    | getTradeGroupId groupId =>
      cases a with
      | none => exact .refl g
      | some pk => exact ⟨Set.subset_insert _ _, subset_rfl, id, subset_rfl⟩
    | getOrder k =>
      cases a with
      | none => exact .refl g
      | some order => exact ⟨subset_rfl, Set.subset_insert _ _, id, subset_rfl⟩
    | _ => exact .refl g

/-- Every one of the open groups has been seen stored. -/
def Holds (g : Progress) (openGroups : List OpenGroup) : Prop :=
  ∀ group ∈ openGroups, group.pk ∈ g.groups

/-- None of the transactions is pending. -/
def Settles (g : Progress) (ids : List String) : Prop := ∀ id ∈ ids, id ∉ g.pending

variable {g g' : Progress} {openGroups : List OpenGroup} {group : OpenGroup}

theorem Holds.mono (h : g.Holds openGroups) (hg : Grows g g') : g'.Holds openGroups :=
  fun group hgroup => hg.groups (h group hgroup)

theorem Holds.append (h : g.Holds openGroups) (hgroup : group.pk ∈ g.groups) :
    g.Holds (openGroups ++ [group]) := by
  intro group' hgroup'
  rcases List.mem_append.mp hgroup' with hgroup' | hgroup'
  · exact h group' hgroup'
  · rw [List.mem_singleton.mp hgroup']
    exact hgroup

theorem Holds.replaceGroup (h : g.Holds openGroups) (hgroup : group.pk ∈ g.groups) :
    g.Holds (replaceGroup openGroups group) := by
  intro group' hgroup'
  obtain ⟨group'', hmem, rfl⟩ := List.mem_map.mp hgroup'
  split
  · exact hgroup
  · exact h group'' hmem

theorem Holds.removeGroup (h : g.Holds openGroups) (pk : ℕ) : g.Holds (removeGroup openGroups pk) :=
  fun group hgroup => h group (List.mem_of_mem_filter hgroup)

theorem Settles.mono {ids : List String} (h : g.Settles ids) (hg : Grows g g') : g'.Settles ids :=
  fun id hid hpending => h id hid (hg.pending hpending)

end Progress

open Progress

/-- The monitor of what a pass sees itself do. -/
def coverage (account : String) (since : Option Date) :
    Monitor LedgerOp LedgerOp.Reply String Progress where
  update := Progress.after since
  allows := Progress.Allows account

section Walk

variable (account : String) (since : Option Date)

/-- The program keeps to what is allowed, adds to what has been seen, and ends in `Φ`. -/
abbrev Covers {α : Type} (p : LedgerProg α) (g : Progress) (Φ : α → Progress → Prop) : Prop :=
  Triple (coverage account since).meaning (coverage account since).allows Grows p g Φ

variable {account since} {α β : Type} {g : Progress}

theorem covers_pure {a : α} {Φ : α → Progress → Prop} (h : Φ a g) :
    Covers account since (pure a) g Φ :=
  Triple.pure (.refl g) h

/-- One call that is not the read of the activity. -/
theorem covers_issue {op : LedgerOp} (hop : ∀ f, op ≠ .accountActivity f)
    (hallows : g.Allows account op) :
    Covers account since (issue op) g fun a g' => g' = g.after since op (.ok a) :=
  Triple.watch hallows (grows_after since g hop) fun _ => rfl

/-- Looking securities up shows nothing. -/
theorem covers_lookup {p : LedgerProg α} (hp : p.Direct LedgerOp.IsLookup) :
    Covers account since p g fun _ g' => g' = g := by
  refine hp.watch (fun op hop => ?_) (.refl g)
  cases op <;> first | exact ⟨trivial, fun _ => rfl⟩ | exact hop.elim

/-- Calls that are free, whatever has been seen. -/
theorem covers_free {op : LedgerOp} (hop : ∀ f, op ≠ .accountActivity f)
    (hallows : g.Allows account op) :
    Covers account since (issue op) g fun _ _ => True :=
  (covers_issue hop hallows).mono fun _ _ _ _ => trivial

/-! ## Groups -/

theorem covers_loadOpenGroups :
    Covers account since (loadOpenGroups account) g fun openGroups g' => g'.Holds openGroups := by
  refine Triple.bind (covers_issue (by simp) trivial) fun trades g₁ _ _ => ?_
  refine Triple.foldlM (fun (openGroups : List OpenGroup) (g' : Progress) => g'.Holds openGroups)
    (fun groups trade _ g₂ _ h => ?_) (fun g' _ => .refl g') (.refl g₁) (by simp [Progress.Holds])
  refine Triple.bind (covers_issue (by simp) trivial) fun pk? g₃ hg₃ hpk => ?_
  cases pk? with
  | none => exact covers_pure (h.mono hg₃)
  | some pk =>
    have hknown : pk ∈ g₃.groups := by
      rw [hpk]
      exact Set.mem_insert pk _
    refine Triple.bind (covers_free (by simp) trivial) fun rows g₄ hg₄ _ => ?_
    exact covers_pure (((h.mono hg₃).mono hg₄).append (hg₄.groups hknown))

theorem covers_groupForPk {openGroups : List OpenGroup} (h : g.Holds openGroups) (pk : ℕ) :
    Covers account since (groupForPk openGroups pk) g fun w g' =>
      g'.Holds w.2 ∧ ∀ group, w.1 = some group → group.pk ∈ g'.groups := by
  unfold groupForPk
  split
  · rename_i group hfind
    refine covers_pure ⟨h, fun group' hgroup' => ?_⟩
    rw [← Option.some.inj hgroup']
    exact h group (List.mem_of_find?_eq_some hfind)
  · refine Triple.bind (covers_issue (by simp) trivial) fun tg? g₁ hg₁ htg => ?_
    cases tg? with
    | none => exact covers_pure ⟨h.mono hg₁, fun group hgroup => by cases hgroup⟩
    | some tg =>
      have hknown : pk ∈ g₁.groups := by
        rw [htg]
        exact Set.mem_insert pk _
      refine Triple.bind (covers_free (by simp) trivial) fun rows g₂ hg₂ _ => ?_
      refine covers_pure ⟨((h.mono hg₁).mono hg₂).append (hg₂.groups hknown), ?_⟩
      intro group hgroup
      rw [← Option.some.inj hgroup]
      exact hg₂.groups hknown

/-- A group's row is read and written back. -/
theorem covers_writeBack {pk : ℕ} {p : TradeGroupRow → LedgerProg α}
    {row : TradeGroupRow → α → TradeGroupRow} {f : LedgerProg β} {b : β}
    (hp : ∀ tg, (p tg).Direct LedgerOp.IsLookup)
    (hf : ∀ g, Covers account since f g fun _ _ => True) :
    Covers account since (do
      match ← getTradeGroupById pk with
      | none => pure b
      | some tg =>
        let a ← p tg
        let _ ← upsertTradeGroup (row tg a)
        f) g fun _ _ => True := by
  refine Triple.bind (covers_free (by simp) trivial) fun tg? g₁ _ _ => ?_
  cases tg? with
  | none => exact covers_pure trivial
  | some tg =>
    refine Triple.bind (covers_lookup (hp tg)) fun a g₂ _ _ => ?_
    exact Triple.bind (covers_free (by simp) trivial) fun _ g₃ _ _ => hf g₃

theorem covers_stampGroup (group : OpenGroup) (closedAt : Option Datetime) :
    Covers account since (stampGroup group closedAt) g fun _ _ => True :=
  covers_writeBack (fun _ => lookup_groupRealized group.rows) fun _ => covers_pure trivial

theorem covers_refreshGroupFinancials (group : OpenGroup) :
    Covers account since (refreshGroupFinancials group) g fun _ _ => True :=
  covers_writeBack (fun _ => lookup_computeGroupFields group.rows) fun _ => covers_pure trivial

theorem covers_healGroup (group : OpenGroup) :
    Covers account since (healGroup group) g fun _ _ => True :=
  covers_writeBack (fun _ => lookup_groupRealized group.rows)
    fun _ => covers_free (by simp) trivial

theorem covers_addEvents (events : List EventRow) :
    Covers account since (addEvents events) g fun _ _ => True :=
  Triple.forM (fun _ => True) (fun _ _ _ _ _ => covers_free (by simp) trivial)
    (fun g' _ => .refl g') (.refl g) trivial

/-- Attaching transactions to a group seen stored settles them. -/
theorem covers_attach (ids : List String) {pk : ℕ} (hpk : pk ∈ g.groups) :
    Covers account since (attachTransactionsToTradeGroup ids pk) g fun _ g' => g'.Settles ids := by
  have hallows : g.Allows account (.attachTransactionsToTradeGroup ids pk) := hpk
  refine (covers_issue (by simp) hallows).mono fun _ g' _ hg' id hid hpending => ?_
  rw [hg'] at hpending
  exact hpending.2 hid

/-! ## Exits and intents -/

theorem covers_applyExit {group : OpenGroup} (hgroup : group.pk ∈ g.groups) (rows : List TxnRow)
    (rolledToPk deliveryPk : Option ℕ) :
    Covers account since (applyExit group rows rolledToPk deliveryPk) g fun applied g' =>
      applied.group.pk = group.pk ∧ g'.Settles (rows.map TxnRow.ttTransactionId) := by
  refine Triple.bind (covers_attach _ hgroup) fun _ g₁ _ hsettled => ?_
  simp only []
  split
  · refine Triple.bind (covers_free (by simp) trivial) fun tg g₂ hg₂ _ => ?_
    exact covers_pure ⟨rfl, hsettled.mono hg₂⟩
  · refine Triple.bind (covers_addEvents _) fun _ g₂ hg₂ _ => ?_
    split
    · refine Triple.bind (covers_stampGroup _ _) fun _ g₃ hg₃ _ => ?_
      exact covers_pure ⟨rfl, (hsettled.mono hg₂).mono hg₃⟩
    · exact covers_pure ⟨rfl, hsettled.mono hg₂⟩

theorem covers_attachOpening {group : OpenGroup} (hgroup : group.pk ∈ g.groups)
    (opening : List TxnRow) :
    Covers account since (attachOpening group opening) g fun group' g' =>
      group'.pk = group.pk ∧ g'.Settles (opening.map TxnRow.ttTransactionId) := by
  unfold attachOpening
  split
  · rename_i hnil
    rw [List.isEmpty_iff.mp hnil]
    exact covers_pure ⟨rfl, by simp [Progress.Settles]⟩
  · refine Triple.bind (covers_attach _ hgroup) fun _ g₁ _ hsettled => ?_
    refine Triple.bind (covers_refreshGroupFinancials _) fun _ g₂ hg₂ _ => ?_
    exact covers_pure ⟨rfl, hsettled.mono hg₂⟩

theorem covers_applyIntentExit {openGroups : List OpenGroup} {group : OpenGroup}
    (h : g.Holds openGroups) (hgroup : group.pk ∈ g.groups) (closing : List TxnRow) :
    Covers account since (applyIntentExit openGroups group closing) g fun openGroups' g' =>
      g'.Holds openGroups' ∧ g'.Settles (closing.map TxnRow.ttTransactionId) := by
  unfold applyIntentExit
  split
  · rename_i hnil
    rw [List.isEmpty_iff.mp hnil]
    exact covers_pure ⟨h, by simp [Progress.Settles]⟩
  · refine Triple.bind (covers_applyExit hgroup closing none none) fun applied g₁ hg₁ happlied => ?_
    obtain ⟨hpk, hsettled⟩ := happlied
    split
    · exact covers_pure ⟨(h.mono hg₁).removeGroup _, hsettled⟩
    · refine covers_pure ⟨(h.mono hg₁).replaceGroup ?_, hsettled⟩
      rw [hpk]
      exact hg₁.groups hgroup

/-- The rows pre-attributed to a group are attached, or stay to be routed. -/
theorem covers_applyIntent {w : List OpenGroup × List ActivityRow} (h : g.Holds w.1)
    (e : ℕ × List ActivityRow) :
    Covers account since (applyIntent w e) g fun w' g' =>
      g'.Holds w'.1 ∧ w.2 ⊆ w'.2 ∧
        ∀ a ∈ e.2, a ∈ w'.2 ∨ a.ttTransactionId ∉ g'.pending := by
  refine Triple.bind (covers_groupForPk h e.1) fun found g₁ _ hfound => ?_
  obtain ⟨group?, openGroups⟩ := found
  obtain ⟨h₁, hknown⟩ := hfound
  cases group? with
  | none =>
    refine covers_pure ⟨h₁, List.subset_append_left _ _, fun a ha => Or.inl ?_⟩
    exact List.mem_append_right _ ha
  | some group =>
    have hgroup : group.pk ∈ g₁.groups := hknown group rfl
    refine Triple.bind (covers_attachOpening hgroup _) fun group' g₂ hg₂ hopened => ?_
    obtain ⟨hpk, hopened⟩ := hopened
    have hgroup' : group'.pk ∈ g₂.groups := by
      rw [hpk]
      exact hg₂.groups hgroup
    refine Triple.bind (covers_applyIntentExit ((h₁.mono hg₂).replaceGroup hgroup') hgroup' _)
      fun openGroups' g₃ hg₃ hclosed => ?_
    refine covers_pure ⟨hclosed.1, List.Subset.refl _, fun a ha => Or.inr ?_⟩
    -- a row of the group's is an opening or a closing one
    by_cases hclosing : a.toTxnRow.isClosing = true
    · exact hclosed.2 _ (List.mem_map_of_mem (List.mem_filter.mpr
        ⟨List.mem_map_of_mem ha, hclosing⟩))
    · refine hopened.mono hg₃ _ (List.mem_map_of_mem (List.mem_filter.mpr
        ⟨List.mem_map_of_mem ha, ?_⟩))
      simp [hclosing]

theorem covers_applyIntents (entries : List (ℕ × List ActivityRow))
    {w : List OpenGroup × List ActivityRow} (h : g.Holds w.1) :
    Covers account since (entries.foldlM applyIntent w) g fun w' g' =>
      g'.Holds w'.1 ∧ w.2 ⊆ w'.2 ∧
        ∀ a ∈ entries.flatMap Prod.snd, a ∈ w'.2 ∨ a.ttTransactionId ∉ g'.pending := by
  induction entries generalizing w g with
  | nil => exact covers_pure ⟨h, List.Subset.refl _, by simp⟩
  | cons e entries ih =>
    rw [List.foldlM_cons]
    refine Triple.bind (covers_applyIntent h e) fun w₁ g₁ _ hone => ?_
    obtain ⟨h₁, hsub₁, hall₁⟩ := hone
    refine (ih h₁).mono fun w₂ g₂ hg₂ hrest => ?_
    obtain ⟨h₂, hsub₂, hall₂⟩ := hrest
    refine ⟨h₂, fun a ha => hsub₂ (hsub₁ ha), fun a ha => ?_⟩
    rw [List.flatMap_cons] at ha
    rcases List.mem_append.mp ha with ha | ha
    · exact (hall₁ a ha).imp (fun hmem => hsub₂ hmem) fun hnot hmem => hnot (hg₂.pending hmem)
    · exact hall₂ a ha

theorem covers_applyIntentRows {openGroups : List OpenGroup} (h : g.Holds openGroups)
    (cluster : List ActivityRow) :
    Covers account since (applyIntentRows openGroups cluster false) g fun w g' =>
      g'.Holds w.1 ∧ ∀ a ∈ cluster, a ∈ w.2 ∨ a.ttTransactionId ∉ g'.pending := by
  refine (covers_applyIntents _ h).mono fun w g' _ hw => ⟨hw.1, fun a ha => ?_⟩
  rcases List.mem_append.mp ((intentOf_perm cluster).mem_iff.mpr ha) with ha | ha
  · exact hw.2.2 a ha
  · exact Or.inl (hw.2.1 ha)

/-! ## New groups -/

/-- The orders of a cluster are read and written back under the group. -/
theorem covers_stampOrders (groupPk : ℕ) (cluster : List TxnRow) :
    Covers account since (stampOrders groupPk cluster) g fun _ _ => True := by
  have hrow : ∀ (orders : List OrderRow) (g' : Progress), (∀ r ∈ orders, ∃ order ∈ g'.orders,
      r.ttOrderId = order.ttOrderId ∧ r.account = order.account) →
      g'.Allows account (.upsertOrders orders) := fun _ _ h => h
  refine Triple.bind (Triple.foldlM (fun (orders : List OrderRow) (g' : Progress) =>
    g'.Allows account (.upsertOrders orders)) (fun orders k _ g₁ _ h => ?_) (fun g' _ => .refl g')
    (.refl g) (hrow [] g (by simp))) fun orders g₁ _ h => ?_
  · refine Triple.bind (covers_issue (by simp) trivial) fun order? g₂ hg₂ horder => ?_
    have hold : ∀ r ∈ orders, ∃ order ∈ g₂.orders,
        r.ttOrderId = order.ttOrderId ∧ r.account = order.account := by
      intro r hr
      obtain ⟨order, hmem, hsame⟩ := h r hr
      exact ⟨order, hg₂.orders hmem, hsame⟩
    cases order? with
    | none => exact covers_pure hold
    | some order =>
      have hread : order ∈ g₂.orders := by
        rw [horder]
        exact Set.mem_insert order _
      refine covers_pure (hrow _ _ fun r hr => ?_)
      rcases List.mem_append.mp hr with hr | hr
      · exact hold r hr
      · rw [List.mem_singleton.mp hr]
        exact ⟨order, hread, rfl, rfl⟩
  · split
    · exact covers_pure trivial
    · exact covers_free (by simp) h

theorem covers_createTradeGroup (cluster : List TxnRow) :
    Covers account since (createTradeGroup account cluster) g fun pk g' =>
      pk ∈ g'.groups ∧ g'.Settles (cluster.map TxnRow.ttTransactionId) := by
  refine Triple.bind (covers_lookup (lookup_computeGroupFields cluster)) fun fields g₁ _ _ => ?_
  refine Triple.bind (covers_free (by simp) trivial) fun groupId g₂ _ _ => ?_
  refine Triple.bind (covers_issue (by simp) trivial) fun pk g₃ _ hpk => ?_
  have hknown : pk ∈ g₃.groups := by
    rw [hpk]
    exact Set.mem_insert pk _
  refine Triple.bind (covers_attach _ hknown) fun _ g₄ hg₄ hsettled => ?_
  refine Triple.bind (covers_stampOrders pk cluster) fun orderPks g₅ hg₅ _ => ?_
  refine Triple.bind (covers_free (by simp) trivial) fun _ g₆ hg₆ _ => ?_
  exact covers_pure ⟨hg₆.groups (hg₅.groups (hg₄.groups hknown)), (hsettled.mono hg₅).mono hg₆⟩

theorem covers_openRest {pass : Pass} (h : g.Holds pass.openGroups) (rest : List TxnRow) :
    Covers account since (openRest account false pass rest) g fun w g' =>
      g'.Holds w.2.openGroups ∧ g'.Settles (rest.map TxnRow.ttTransactionId) := by
  unfold openRest
  split
  · rename_i hnil
    rw [List.isEmpty_iff.mp hnil]
    exact covers_pure ⟨h, by simp [Progress.Settles]⟩
  · simp only [Bool.false_eq_true, if_false]
    refine Triple.bind (covers_createTradeGroup rest) fun pk g₁ hg₁ hcreated => ?_
    exact covers_pure ⟨(h.mono hg₁).append hcreated.1, hcreated.2⟩

/-! ## Clusters -/

theorem covers_applyBucket (newPk : Option ℕ) (rest : List TxnRow) {pass : Pass}
    {bucket : OpenGroup × List ActivityRow} (h : g.Holds pass.openGroups)
    (hbucket : bucket.1.pk ∈ g.groups) :
    Covers account since (applyBucket newPk rest pass bucket) g fun pass' g' =>
      g'.Holds pass'.openGroups ∧ ∀ a ∈ bucket.2, a.ttTransactionId ∉ g'.pending := by
  refine Triple.bind (covers_lookup (lookup_deliveryPk _ _ _)) fun delivery g₁ hg₁ _ => ?_
  refine Triple.bind (covers_applyExit (hg₁.groups hbucket) _ _ delivery)
    fun applied g₂ hg₂ happlied => ?_
  refine covers_pure ⟨?_, fun a ha => happlied.2 _ (List.mem_map_of_mem (List.mem_map_of_mem ha))⟩
  show g₂.Holds (if applied.fullyClosed then removeGroup pass.openGroups bucket.1.pk
    else replaceGroup pass.openGroups applied.group)
  split
  · exact ((h.mono hg₁).mono hg₂).removeGroup _
  · refine ((h.mono hg₁).mono hg₂).replaceGroup ?_
    rw [happlied.1]
    exact hg₂.groups (hg₁.groups hbucket)

theorem covers_applyBuckets (newPk : Option ℕ) (rest : List TxnRow)
    (buckets : List (OpenGroup × List ActivityRow)) {pass : Pass} (h : g.Holds pass.openGroups)
    (hbuckets : ∀ b ∈ buckets, b.1.pk ∈ g.groups) :
    Covers account since (buckets.foldlM (applyBucket newPk rest) pass) g fun pass' g' =>
      g'.Holds pass'.openGroups ∧
        ∀ a ∈ buckets.flatMap Prod.snd, a.ttTransactionId ∉ g'.pending := by
  induction buckets generalizing pass g with
  | nil => exact covers_pure ⟨h, by simp⟩
  | cons b buckets ih =>
    rw [List.foldlM_cons]
    refine Triple.bind (covers_applyBucket newPk rest h (hbuckets b (by simp)))
      fun pass₁ g₁ hg₁ hone => ?_
    refine (ih hone.1 fun b hb => hg₁.groups (hbuckets b (.tail _ hb))).mono
      fun pass₂ g₂ hg₂ hrest => ⟨hrest.1, fun a ha => ?_⟩
    rw [List.flatMap_cons] at ha
    rcases List.mem_append.mp ha with ha | ha
    · exact fun hmem => hone.2 a ha (hg₂.pending hmem)
    · exact hrest.2 a ha

/-- Every row of a cluster is attached to some group. -/
theorem covers_reconcileCluster {pass : Pass} (h : g.Holds pass.openGroups)
    (cluster : List ActivityRow) :
    Covers account since (reconcileCluster account false pass cluster) g fun pass' g' =>
      g'.Holds pass'.openGroups ∧ ∀ a ∈ cluster, a.ttTransactionId ∉ g'.pending := by
  refine Triple.bind (covers_applyIntentRows h cluster) fun w g₁ _ hintent => ?_
  obtain ⟨openGroups, left⟩ := w
  obtain ⟨h₁, hleft⟩ := hintent
  simp only [] at hleft ⊢
  split
  · rename_i hnil
    rw [List.isEmpty_iff.mp hnil] at hleft
    exact covers_pure ⟨h₁, fun a ha => (hleft a ha).resolve_left (by simp)⟩
  · have h₁' : g₁.Holds ({ pass with openGroups } : Pass).openGroups := h₁
    refine Triple.bind (covers_openRest h₁' _) fun w g₂ hg₂ hopened => ?_
    obtain ⟨newPk, pass₂⟩ := w
    obtain ⟨h₂, hrest⟩ := hopened
    simp only [Bool.false_eq_true, if_false]
    have hbuckets : ∀ b ∈ (routeCluster openGroups left).buckets, b.1.pk ∈ g₂.groups :=
      fun b hb => hg₂.groups (h₁ _ (mem_of_mem_buckets openGroups left hb))
    refine (covers_applyBuckets newPk _ _ h₂ hbuckets).mono fun pass₃ g₃ hg₃ happlied => ?_
    refine ⟨happlied.1, fun a ha => ?_⟩
    rcases hleft a ha with ha | hnot
    · -- a row left over was put into a bucket or into the rest
      have hperm := (routeCluster_perm openGroups left).mem_iff.mpr ha
      rcases List.mem_append.mp hperm with ha | ha
      · exact happlied.2 a ha
      · exact hrest.mono hg₃ _ (List.mem_map_of_mem (List.mem_map_of_mem ha))
    · exact fun hmem => hnot (hg₂.pending (hg₃.pending hmem))

theorem covers_reconcileClusters (clusters : List (List ActivityRow)) {pass : Pass}
    (h : g.Holds pass.openGroups) :
    Covers account since (clusters.foldlM (reconcileCluster account false) pass) g fun _ g' =>
      ∀ a ∈ clusters.flatten, a.ttTransactionId ∉ g'.pending := by
  induction clusters generalizing pass g with
  | nil => exact covers_pure (by simp)
  | cons cluster clusters ih =>
    rw [List.foldlM_cons]
    refine Triple.bind (covers_reconcileCluster h cluster) fun pass₁ g₁ _ hone => ?_
    refine (ih hone.1).mono fun _ g₂ hg₂ hrest a ha => ?_
    rw [List.flatten_cons] at ha
    rcases List.mem_append.mp ha with ha | ha
    · exact fun hmem => hone.2 a ha (hg₂.pending hmem)
    · exact hrest a ha

/-! ## Rolls -/

theorem covers_linkRoll (ex : AppliedExit) (closedAt : Datetime) (created : List CreatedGroup) :
    Covers account since (linkRoll ex closedAt created) g fun _ _ => True := by
  induction created generalizing g with
  | nil => exact covers_pure trivial
  | cons cg created ih =>
    refine Triple.bind (covers_lookup (lookup_rollsInto _ _ _)) fun opened g₁ _ _ => ?_
    cases opened with
    | none => exact ih
    | some openedAt => exact covers_free (by simp) trivial

theorem covers_linkCrossClusterRolls (exits : List AppliedExit) (created : List CreatedGroup) :
    Covers account since (linkCrossClusterRolls exits created) g fun _ _ => True := by
  refine Triple.forM (fun _ => True) (fun ex _ g₁ _ _ => ?_) (fun g' _ => .refl g') (.refl g)
    trivial
  split
  · split
    · exact covers_pure trivial
    · exact covers_linkRoll _ _ _
  · exact covers_pure trivial

/-! ## Settlements -/

/-- Settlement rows come with a group that has been seen stored. -/
theorem covers_synthesizeSecurity (args : ReconcileArgs) (lastActivity : Datetime)
    {openGroups : List OpenGroup} {synthesized : List TxnRow} (h : g.Holds openGroups)
    (hrows : g.Allows account (.upsertTransactions synthesized)) (sid : String) :
    Covers account since
      (synthesizeSecurity args account lastActivity openGroups synthesized sid) g
      fun rows g' => g'.Allows account (.upsertTransactions rows) := by
  have hstays : ∀ g', Grows g g' → g'.Allows account (.upsertTransactions synthesized) := by
    intro g' hg r hr
    obtain ⟨pk, hpk, hgroup⟩ := hrows r hr
    exact ⟨pk, hg.groups hpk, hgroup⟩
  refine Triple.bind (covers_lookup (lookup_getSecurity sid)) fun sec? g₁ hg₁ _ => ?_
  cases sec? with
  | none => exact covers_pure (hstays g₁ hg₁)
  | some sec =>
    simp only []
    split
    · exact covers_pure (hstays g₁ hg₁)
    · refine Triple.bind (covers_lookup (lookup_settlePoints _ _ _ _)) fun points? g₂ hg₂ _ => ?_
      have hg := IsTrans.trans g g₁ g₂ hg₁ hg₂
      cases points? with
      | none => exact covers_pure (hstays g₂ hg)
      | some points =>
        refine covers_pure fun r hr => ?_
        rcases List.mem_append.mp hr with hr | hr
        · exact hstays g₂ hg r hr
        · obtain ⟨group, hgroup, hrow⟩ := List.mem_filterMap.mp hr
          have hmem : group ∈ openGroups := (mem_sortOn _).mp hgroup
          simp only [] at hrow
          split at hrow
          · cases hrow
          · obtain rfl := Option.some.inj hrow
            exact ⟨group.pk, hg.groups (h group hmem), rfl⟩

theorem covers_applyLapse (synthesized : List TxnRow) {group : OpenGroup}
    (hgroup : group.pk ∈ g.groups) :
    Covers account since (applyLapse synthesized group) g fun _ _ => True := by
  unfold applyLapse
  simp only []
  split
  · exact covers_pure trivial
  · exact Triple.bind (covers_applyExit hgroup _ none none) fun _ _ _ _ => covers_pure trivial

/-- Whatever was read, a transaction's link is not undone by its settlements. -/
theorem guarded_synthesizeLapsedSettlements (args : ReconcileArgs) (hlinked : g.linked = true) :
    (synthesizeLapsedSettlements account args).Guarded (coverage account since).meaning
      (coverage account since).allows g fun _ g' => g'.linked = true := by
  refine Guarded.bind (Q := fun _ g' => g'.linked = true) ?_ (fun activity g₁ hlinked₁ => ?_)
    fun _ _ h => h
  · refine Guarded.invoke ⟨hlinked, none, rfl⟩ fun r g₁ hr => ?_
    subst hr
    cases r with
    | error e => exact hlinked
    | ok activity =>
      show (if none = since then _ else g : Progress).linked = true
      split <;> exact hlinked
  · refine Guarded.mono (fun _ g' h => h.1.linked hlinked₁) (?_ : Covers account since _ g₁
      fun _ _ => True)
    simp only []
    split
    · exact covers_pure trivial
    · rename_i last _
      refine Triple.bind covers_loadOpenGroups fun openGroups g₂ _ h => ?_
      refine Triple.bind (Triple.foldlM (fun (rows : List TxnRow) (g' : Progress) =>
        g'.Allows account (.upsertTransactions rows))
        (fun rows sid _ g₃ hg₃ hrows =>
          covers_synthesizeSecurity args last (h.mono hg₃) hrows sid)
        (fun g' _ => .refl g') (.refl g₂) (fun r hr => by cases hr)) fun rows g₃ hg₃ hrows => ?_
      split
      · refine Triple.bind (covers_free (by simp) hrows) fun _ g₄ hg₄ _ => ?_
        refine Triple.bind (Triple.forM (fun _ => True) (fun group hgroup g₅ hg₅ _ => ?_)
          (fun g' _ => .refl g') (.refl g₄) trivial) fun _ _ _ _ => covers_pure trivial
        exact covers_applyLapse rows (hg₅.groups (hg₄.groups (hg₃.groups (h group hgroup))))
      · exact covers_pure trivial

/-! ## The pass -/

/-- Nothing is pending. -/
abbrev Progress.Done {α : Type} (x : Except String α) (g : Progress) : Prop :=
  ∀ a, x = .ok a → g.pending = ∅

/-- The candidates of an account are attached, all of them. -/
theorem guarded_routeCandidates {args : ReconcileArgs} (hdry : args.dryRun = false)
    (hlinked : g.linked = true) :
    (routeCandidates account args).Guarded (coverage account args.since).meaning
      (coverage account args.since).allows g Progress.Done := by
  refine Guarded.bind (Q := fun x g' => ∀ activity : List ActivityRow, x = .ok activity →
    g'.pending = candidates activity) ?_ (fun activity g₁ hread => ?_) fun e _ _ _ h => by cases h
  · refine Guarded.invoke ⟨hlinked, args.since, rfl⟩ fun r g₁ hr activity hactivity => ?_
    subst hr hactivity
    show (if args.since = args.since then _ else g : Progress).pending = _
    rw [if_pos rfl]
  · refine Guarded.mono (fun x g' h a ha => h.2 a ha) (?_ : Covers account args.since _ g₁
      fun _ g' => g'.pending = ∅)
    refine Triple.bind covers_loadOpenGroups fun openGroups g₂ hg₂ h => ?_
    rw [hdry]
    have h' : g₂.Holds ({ openGroups } : Pass).openGroups := h
    refine Triple.bind (covers_reconcileClusters _ h') fun pass g₃ hg₃ hall => ?_
    have hempty : g₃.pending = ∅ := by
      -- a transaction still pending is a candidate that was read, in some cluster
      refine Set.eq_empty_of_forall_notMem fun id hid => ?_
      have hread' := hg₂.pending (hg₃.pending hid)
      rw [hread activity rfl] at hread'
      obtain ⟨a, ha, hcandidate, rfl⟩ := hread'
      refine hall a ((clusterByTime_perm _).mem_iff.mpr ?_) hid
      exact List.mem_filter.mpr ⟨ha, hcandidate⟩
    simp only [Bool.not_false, if_true]
    refine Triple.bind (covers_linkCrossClusterRolls _ _) fun _ g₄ hg₄ _ => covers_pure ?_
    exact Set.subset_empty_iff.mp (hempty ▸ hg₄.pending)

theorem covers_healFullyClosedGroups (dryRun : Bool) :
    Covers account since (healFullyClosedGroups account dryRun) g fun _ _ => True := by
  refine Triple.bind covers_loadOpenGroups fun openGroups g₁ _ _ => ?_
  simp only []
  split
  · exact covers_pure trivial
  · exact Triple.bind (Triple.forM (fun _ => True) (fun group _ _ _ _ => covers_healGroup group)
      (fun g' _ => .refl g') (.refl g₁) trivial) fun _ _ _ _ => covers_pure trivial

theorem covers_linkAccount :
    Covers account since (linkAccount account) g fun _ g' => g'.linked = true := by
  refine Triple.bind (covers_issue (by simp) rfl) fun _ g₁ _ hg₁ => ?_
  have hlinked : g₁.linked = true := by rw [hg₁]; rfl
  refine Triple.bind (covers_free (by simp) trivial) fun _ g₂ hg₂ _ => ?_
  refine Triple.bind (covers_free (by simp) trivial) fun _ g₃ hg₃ _ => ?_
  exact covers_pure (hg₃.linked (hg₂.linked hlinked))

theorem guarded_reconcileAccount {args : ReconcileArgs} (hdry : args.dryRun = false) :
    (reconcileAccount args account).Guarded (coverage account args.since).meaning
      (coverage account args.since).allows g Progress.Done := by
  refine Guarded.bind covers_linkAccount (fun _ g₁ h₁ => ?_) fun _ _ _ _ h => by cases h
  refine Guarded.bind (guarded_synthesizeLapsedSettlements args (h₁.2 _ rfl))
    (fun rows g₂ hlinked => ?_) fun _ _ _ _ h => by cases h
  refine Guarded.bind (guarded_routeCandidates hdry hlinked) (fun n g₃ hdone => ?_)
    fun _ _ _ _ h => by cases h
  refine Guarded.mono (fun x g₄ h a ha => h.2 a ha) (?_ : Covers account args.since _ g₃
    fun _ g' => g'.pending = ∅)
  refine Triple.bind (covers_healFullyClosedGroups args.dryRun) fun healed g₄ hg₄ _ => ?_
  exact covers_pure (Set.subset_empty_iff.mp (hdone n rfl ▸ hg₄.pending))

/-- **A pass keeps to what is allowed, whatever the replies**, and one that ends without an error
has attached every candidate it read. -/
theorem guarded_reconcile {args : ReconcileArgs} (hdry : args.dryRun = false) :
    (reconcile (some account) args).Guarded (coverage account args.since).meaning
      (coverage account args.since).allows g fun x g' =>
        ∀ r : SyncResult, x = .ok r → r.errors = [] → g'.pending = ∅ := by
  show (reconcileInto args {} account >>= pure).Guarded _ _ g _
  rw [bind_pure]
  have hpass : (do
      let pass ← reconcileAccount args account
      pure { ({} : SyncResult) with
        transactions := 0 + pass.transactions
        tradeGroups := 0 + pass.tradeGroups
        healedGroups := 0 + pass.healedGroups }).Guarded (coverage account args.since).meaning
      (coverage account args.since).allows g Progress.Done :=
    Guarded.bind (guarded_reconcileAccount hdry) (fun pass g₁ hdone _ _ => hdone pass rfl)
      fun _ _ _ _ h => by cases h
  refine Guarded.tryCatch hpass (fun r g₁ hdone r' _ _ => hdone r rfl) fun e g₁ _ r hr hnone => ?_
  obtain rfl := Except.ok.inj hr
  cases hnone

end Walk

end TtLedger
