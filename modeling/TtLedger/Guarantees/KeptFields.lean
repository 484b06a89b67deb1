import TtLedger.Guarantees.FrozenFields

/-!
# What a pass leaves alone

Without an operator's edit a group keeps its attribution and its review, whatever runs
(`attributesKept_of_reaches`). Its underlying, its security and its strategy type are filled in when
the copy a pass has read lacks them, so they stay once set as long as no copy is written back after
another task has written the group (`kept_of_current`), as when a pass runs beside captures only
(`current_of_alone`). Two overlapping passes can replace a strategy type that is set
(`not_fieldsKept_overlapping`).
-/

namespace TtLedger

open LedgerStore Prog

/-! ## The columns -/

/-- Attribution and review. -/
structure Attributes where
  strategyId : Option ℕ
  botName : Option String
  signalId : Option String
  manuallyAttributed : Bool
  reviewStatus : ReviewStatus
  reviewedBy : Option String
  reviewedAt : Option Datetime

def TradeGroupRow.attributes (tg : TradeGroupRow) : Attributes where
  strategyId := tg.strategyId
  botName := tg.botName
  signalId := tg.signalId
  manuallyAttributed := tg.manuallyAttributed
  reviewStatus := tg.reviewStatus
  reviewedBy := tg.reviewedBy
  reviewedAt := tg.reviewedAt

/-- The columns that are filled in when unset are kept once set. -/
structure FieldsKept (tg row : TradeGroupRow) : Prop where
  underlying : truthy tg.underlying → row.underlying = tg.underlying
  securityId : truthy tg.securityId → row.securityId = tg.securityId
  strategyType : truthy tg.strategyType → row.strategyType = tg.strategyType

theorem FieldsKept.refl (tg : TradeGroupRow) : FieldsKept tg tg :=
  ⟨fun _ => rfl, fun _ => rfl, fun _ => rfl⟩

theorem FieldsKept.trans {tg tg' tg'' : TradeGroupRow} (h : FieldsKept tg tg')
    (h' : FieldsKept tg' tg'') : FieldsKept tg tg'' where
  underlying ht := (h'.underlying ((h.underlying ht).symm ▸ ht)).trans (h.underlying ht)
  securityId ht := (h'.securityId ((h.securityId ht).symm ▸ ht)).trans (h.securityId ht)
  strategyType ht := (h'.strategyType ((h.strategyType ht).symm ▸ ht)).trans (h.strategyType ht)

/-- No money column is among them. -/
theorem FieldsKept.heldIn {tg row : TradeGroupRow} (h : FieldsKept tg row) (money : MoneyColumn) :
    FieldsKept tg (row.heldIn money) :=
  ⟨h.underlying, h.securityId, h.strategyType⟩

theorem PassRow.attributes {tg row : TradeGroupRow} (h : PassRow tg row) :
    row.attributes = tg.attributes := by
  cases h <;> rfl

theorem PassRow.fieldsKept {tg row : TradeGroupRow} (h : PassRow tg row) : FieldsKept tg row := by
  cases h with
  | stamped rows closedAt realized => exact ⟨fun _ => rfl, fun _ => rfl, fun _ => rfl⟩
  | refreshed fields =>
    exact ⟨fun h => if_pos h, fun h => if_pos h, fun h => if_pos h⟩

/-! ## The tasks that edit nothing -/

/-- A group is written back as a pass does, or new under the identifier last drawn. -/
def capture : Monitor LedgerOp LedgerOp.Reply String Seen where
  update := Seen.afterPass
  allows seen op := ∀ row, op = .upsertTradeGroup row →
    (∃ tg, seen.row = some tg ∧ row.groupId = tg.groupId ∧ row.attributes = tg.attributes ∧
      FieldsKept tg row) ∨ seen.drawn = some row.groupId

abbrev Captures {α : Type} (p : LedgerProg α) : Prop := ∀ seen, p.Obeys capture seen

theorem captures_of_free {α : Type} {p : LedgerProg α} (hp : p.Calls LedgerOp.IsFree) :
    Captures p := by
  refine fun seen => Obeys.of_calls hp fun op hop seen row he => ?_
  subst he
  exact hop.elim

theorem captures_issue {op : LedgerOp} (hop : op.IsFree) : Captures (issue op) :=
  captures_of_free (Calls.invoke.mpr hop)

theorem PassCalls.captures {α : Type} {p : LedgerProg α} (hp : PassCalls p) : Captures p := by
  refine fun seen => (hp seen).mono (fun seen op hop row he => ?_) fun _ _ _ => rfl
  subst he
  refine hop.imp (fun ⟨tg, hrow, hpass⟩ => ?_) id
  exact ⟨tg, hrow, hpass.keepsAttribution.groupId, hpass.attributes, hpass.fieldsKept⟩

theorem captures_openTradeGroup (account : String) (input : TradeGroupInput) :
    Captures (openTradeGroup account input) := by
  refine fun seen => (captures_issue (by trivial) seen).bind fun at_ seen => ?_
  refine Obeys.bind_invoke (fun _ he => by cases he) fun groupId => ?_
  refine (Obeys.invoke fun row he => ?_).bind fun pk seen => ?_
  · cases he
    exact Or.inr rfl
  · exact (captures_issue (by trivial) seen).bind fun _ _ => Obeys.pure _

theorem captures_restamp (str : ℚ → String) (pk : ℕ) (old new : ℚ) :
    Captures (restamp str pk old new) := by
  refine fun seen => Obeys.bind_invoke (fun _ he => by cases he) fun tg? => ?_
  cases tg? with
  | none => exact Obeys.pure _
  | some tg =>
    refine (Obeys.invoke fun row he => ?_).bind fun _ seen => captures_issue (by trivial) seen
    cases he
    exact Or.inl ⟨tg, rfl, rfl, rfl, ⟨fun _ => rfl, fun _ => rfl, fun _ => rfl⟩⟩

theorem captures_recomputeTrade (str : ℚ → String) (account : String) (dryRun : Bool)
    (changes : List PnlChange) (trade : TradeGroupRow) :
    Captures (recomputeTrade str account dryRun changes trade) := by
  intro seen
  unfold recomputeTrade
  split
  · exact Obeys.pure _
  · refine (captures_issue (by trivial) seen).bind fun pk? seen => ?_
    split
    · exact Obeys.pure _
    · refine (captures_issue (by trivial) seen).bind fun rows seen => ?_
      refine (captures_of_free (quiet_hasFuture _).free seen).bind fun future seen => ?_
      split
      · refine ((readOnly_groupRealized rows).passCalls.captures seen).bind fun new seen => ?_
        split
        · exact Obeys.pure _
        · simp only []
          split
          · exact (captures_restamp _ _ _ _ seen).bind fun _ _ => Obeys.pure _
          · exact Obeys.pure _
      · exact Obeys.pure _

theorem captures_recomputeFuturesGroupPnl (str : ℚ → String) (account : Option String)
    (dryRun : Bool) : Captures (recomputeFuturesGroupPnl str account dryRun) := by
  refine fun seen => ((readOnly_accountsOf account none).passCalls.captures seen).bind
    fun accounts seen => Obeys.foldlM (fun changes acct _ seen => ?_) _
  refine (captures_issue (by trivial) seen).bind fun trades seen => ?_
  exact Obeys.foldlM (fun changes trade _ => captures_recomputeTrade _ _ _ _ _) _

/-- The operator's edits. -/
def Task.IsEdit : Task → Prop
  | linkOrder _ _ _ | regroup _ _ _ | remap _ _ | markUnfilled _ _ _ | dismiss _ _ => True
  | _ => False

/-- **The calls of a task that edits nothing.** -/
theorem captures_program {task : Task} (h : ¬ task.IsEdit) : Captures task.program := by
  intro seen
  cases task with
  | openTradeGroup account input =>
    exact (captures_openTradeGroup account input seen).bind fun _ _ => Obeys.pure _
  | recordOrder resolver order =>
    exact (captures_of_free (quiet_recordOrder resolver order).free seen).bind
      fun _ _ => Obeys.pure _
  | importOrders resolver placedOrders account =>
    exact (captures_of_free (quiet_upsertFromHistory resolver placedOrders account).free seen).bind
      fun _ _ => Obeys.pure _
  | importTransactions resolver settlementPrice account txns sourceSystem reconcileAfter =>
    refine Obeys.bind ?_ fun _ _ => Obeys.pure _
    refine (captures_of_free
      (quiet_upsertTransactions resolver txns account sourceSystem).free seen).bind
        fun transactions seen => ?_
    split
    · exact ((passCalls_reconcile _ _).captures seen).bind fun _ _ => Obeys.pure _
    · exact Obeys.pure _
  | importPositions resolver positions account =>
    exact (captures_of_free (quiet_upsertPositions resolver positions account).free seen).bind
      fun _ _ => Obeys.pure _
  | applyFill evt =>
    exact (captures_of_free (quiet_applyFillEvent evt).free seen).bind fun _ _ => Obeys.pure _
  | reconcile account args =>
    exact ((passCalls_reconcile account args).captures seen).bind fun _ _ => Obeys.pure _
  | rebuild account =>
    exact (captures_of_free (quiet_rebuildPositionsFromTransactions account).free seen).bind
      fun _ _ => Obeys.pure _
  | recomputeFutures str account dryRun =>
    exact (captures_recomputeFuturesGroupPnl str account dryRun seen).bind fun _ _ => Obeys.pure _
  | linkOrder _ _ _ | regroup _ _ _ | remap _ _ | markUnfilled _ _ _ | dismiss _ _ =>
    exact absurd trivial h

/-! ## Runs -/

section Runs

variable {ι : Type} [DecidableEq ι]

/-- The copies held carry the attribution of the groups stored, and the identifiers held are
nobody else's. -/
structure Copies (gs : ι → Seen) (s : InMemoryStore) : Prop where
  row : ∀ j tg, (gs j).row = some tg →
    ∃ stored, s.getTradeGroup tg.groupId = some stored ∧ stored.attributes = tg.attributes
  below : ∀ j id, (gs j).drawn = some id → id.length < s.freshGroupId.length
  new : ∀ j id, (gs j).drawn = some id → s.getTradeGroup id = none
  own : ∀ j k id, (gs j).drawn = some id → (gs k).drawn = some id → j = k

variable {gs : ι → Seen} {s s' : InMemoryStore}

omit [DecidableEq ι] in
theorem Copies.same (h : Copies gs s) (hsame : SameGroups s s')
    (hlen : s.freshGroupId.length ≤ s'.freshGroupId.length) : Copies gs s' where
  row j tg htg := (getTradeGroup_congr hsame.tradeGroups _).symm ▸ h.row j tg htg
  below j id hid := (h.below j id hid).trans_le hlen
  new j id hid := (getTradeGroup_congr hsame.tradeGroups _).trans (h.new j id hid)
  own := h.own

/-- A task forgets what it holds, or learns of it again. -/
theorem Copies.update (h : Copies gs s) (j : ι) {seen : Seen}
    (hrow : ∀ tg, seen.row = some tg →
      ∃ stored, s.getTradeGroup tg.groupId = some stored ∧ stored.attributes = tg.attributes)
    (hdrawn : ∀ id, seen.drawn = some id → (gs j).drawn = some id) :
    Copies (Function.update gs j seen) s := by
  have hids : ∀ k id, (Function.update gs j seen k).drawn = some id → (gs k).drawn = some id := by
    intro k id hid
    rcases eq_or_ne k j with rfl | hk
    · exact hdrawn id ((Function.update_self k seen gs) ▸ hid)
    · rwa [Function.update_of_ne hk] at hid
  refine ⟨fun k tg htg => ?_, fun k id hid => h.below k id (hids k id hid),
    fun k id hid => h.new k id (hids k id hid),
    fun k l id hk hl => h.own k l id (hids k id hk) (hids l id hl)⟩
  rcases eq_or_ne k j with rfl | hk
  · exact hrow tg ((Function.update_self k seen gs) ▸ htg)
  · exact h.row k tg (by rwa [Function.update_of_ne hk] at htg)

/-- A task draws an identifier that nobody holds. -/
theorem Copies.draw (h : Copies gs s) (j : ι) (hgroups : s'.tradeGroups = s.tradeGroups)
    (hdrawn : s'.drawn = s.freshGroupId.length)
    (hlen : s.freshGroupId.length ≤ s'.freshGroupId.length) :
    Copies (Function.update gs j { gs j with drawn := some s.freshGroupId }) s' := by
  have hids : ∀ k id, (Function.update gs j { gs j with drawn := some s.freshGroupId } k).drawn =
      some id → (k = j ∧ id = s.freshGroupId) ∨ (gs k).drawn = some id := by
    intro k id hid
    rcases eq_or_ne k j with rfl | hk
    · rw [Function.update_self] at hid
      exact Or.inl ⟨rfl, (Option.some.inj hid).symm⟩
    · exact Or.inr (by rwa [Function.update_of_ne hk] at hid)
  have hrows : ∀ k, (Function.update gs j { gs j with drawn := some s.freshGroupId } k).row =
      (gs k).row :=
    Pool.view_update Seen.row rfl
  have hget := getTradeGroup_congr hgroups
  refine ⟨fun k tg htg => ?_, fun k id hid => ?_, fun k id hid => ?_, fun k l id hk hl => ?_⟩
  · rw [hget]
    exact h.row k tg (hrows k ▸ htg)
  · rcases hids k id hid with ⟨-, rfl⟩ | hid
    · exact length_lt_of_drawn hdrawn
    · exact (h.below k id hid).trans_le hlen
  · rw [hget]
    rcases hids k id hid with ⟨-, rfl⟩ | hid
    · by_contra hsome
      obtain ⟨tg, htg⟩ := Option.ne_none_iff_exists'.mp hsome
      exact Nat.lt_irrefl _ (length_lt_of_getTradeGroup htg)
    · exact h.new k id hid
  · rcases hids k id hk with ⟨rfl, rfl⟩ | hk
    · rcases hids l _ hl with ⟨rfl, -⟩ | hl
      · rfl
      · exact absurd (h.below l _ hl) (Nat.lt_irrefl _)
    · rcases hids l id hl with ⟨-, rfl⟩ | hl
      · exact absurd (h.below k _ hk) (Nat.lt_irrefl _)
      · exact h.own k l id hk hl

/-- A task writes a group as it may, and holds nothing afterwards. -/
theorem Copies.write {money : MoneyColumn} (h : Copies gs s) (j : ι) {row : TradeGroupRow}
    (hallows : capture.allows (gs j) (.upsertTradeGroup row))
    (hgroups : s'.tradeGroups = (s.tradeGroups.upsert (row.heldIn money)).2)
    (hlen : s.freshGroupId.length ≤ s'.freshGroupId.length) :
    Copies (Function.update gs j {}) s' := by
  have hget := getTradeGroup_of_upsert hgroups
  have hother : ∀ k, (Function.update gs j {} k = {}) ∨ k ≠ j ∧ Function.update gs j {} k = gs k :=
    fun k => by
      rcases eq_or_ne k j with rfl | hk
      · exact Or.inl (Function.update_self k _ gs)
      · exact Or.inr ⟨hk, Function.update_of_ne hk _ _⟩
  refine ⟨fun k tg htg => ?_, fun k id hid => ?_, fun k id hid => ?_, fun k l id hk hl => ?_⟩
  · rcases hother k with hk | ⟨-, hk⟩
    · rw [hk] at htg
      cases htg
    · rw [hk] at htg
      obtain ⟨stored, hstored, hattributes⟩ := h.row k tg htg
      rw [hget]
      split
      · rename_i hid
        refine ⟨row.heldIn money, rfl, ?_⟩
        rcases hallows row rfl with ⟨tg', htg', hid', hattributes', -⟩ | hdrawn
        · -- both copies are of the row stored
          obtain ⟨stored', hstored', hstored''⟩ := h.row j tg' htg'
          rw [← hid', ← hid, hstored] at hstored'
          obtain rfl := Option.some.inj hstored'
          exact (hattributes'.trans hstored''.symm).trans hattributes
        · rw [hid, h.new j _ hdrawn] at hstored
          cases hstored
      · exact ⟨stored, hstored, hattributes⟩
  · rcases hother k with hk | ⟨-, hk⟩
    · rw [hk] at hid
      cases hid
    · exact (h.below k id (hk ▸ hid)).trans_le hlen
  · rcases hother k with hk | ⟨hne, hk⟩
    · rw [hk] at hid
      cases hid
    · rw [hk] at hid
      rw [hget, if_neg, h.new k id hid]
      rintro rfl
      rcases hallows row rfl with ⟨tg', htg', hid', -⟩ | hdrawn
      · obtain ⟨stored, hstored, -⟩ := h.row j tg' htg'
        rw [← hid', h.new k _ hid] at hstored
        cases hstored
      · exact hne (h.own k j _ hid hdrawn)
  · rcases hother k with hk' | ⟨-, hk'⟩
    · rw [hk'] at hk
      cases hk
    · rcases hother l with hl' | ⟨-, hl'⟩
      · rw [hl'] at hl
        cases hl
      · exact h.own k l id (hk' ▸ hk) (hl' ▸ hl)

/-- **One call** keeps what is known of the copies held. -/
theorem Copies.step {money : MoneyColumn} (h : Copies gs s) {j : ι} {op : LedgerOp}
    {r : Except String op.Reply} (hallows : capture.allows (gs j) op)
    (hstep : GroupStep money s s' op r) :
    Copies (Function.update gs j ((gs j).afterPass op r)) s' := by
  have hlen := length_freshGroupId_mono hstep
  cases hstep with
  | write row pk hgroups hdrawn => exact h.write j hallows hgroups hlen
  | draw hgroups hdrawn => exact h.draw j hgroups hdrawn hlen
  | read groupId hsame =>
    have hafter : (gs j).afterPass (.getTradeGroup groupId) (.ok (s.getTradeGroup groupId)) =
        gs j := by
      cases s.getTradeGroup groupId <;> rfl
    rw [hafter, Function.update_eq_self]
    exact h.same hsame hlen
  | readById pk hsame =>
    cases htg : s.getTradeGroupById pk with
    | none => simpa only [Seen.afterPass, Seen.after, Function.update_eq_self] using
        h.same hsame hlen
    | some tg =>
      have hread : Copies (Function.update gs j { gs j with row := some tg }) s := by
        refine h.update j (fun tg' htg' => ?_) fun _ he => he
        obtain rfl := Option.some.inj htg'
        exact ⟨tg, Table.getByKey_of_mem_values (Table.mem_values.mpr ⟨pk, htg⟩) rfl, rfl⟩
      exact hread.same hsame hlen
  | failed op e hsame =>
    have hafter : (gs j).afterPass op (.error e) = gs j ∨ (gs j).afterPass op (.error e) = {} := by
      cases op <;> first | exact Or.inl rfl | exact Or.inr rfl
    rcases hafter with hafter | hafter
    · rw [hafter, Function.update_eq_self]
      exact h.same hsame hlen
    · rw [hafter]
      exact (h.update j (fun _ he => by cases he) fun _ he => by cases he).same hsame hlen
  | other op r hop hsame =>
    have hafter : (gs j).afterPass op (.ok r) = gs j := by
      cases op <;> first | rfl | exact hop.elim
    rw [hafter, Function.update_eq_self]
    exact h.same hsame hlen

/-- A copy that is written back is still the row stored: no other task has written the group since
it was read. -/
def Current (gs : ι → Seen) (s : InMemoryStore) (j : ι) (op : LedgerOp) : Prop :=
  ∀ row tg, op = .upsertTradeGroup row → (gs j).row = some tg → tg.groupId = row.groupId →
    s.getTradeGroup tg.groupId = some tg

variable {money : MoneyColumn} {C : (ι → Seen) → InMemoryStore → ι → LedgerOp → Prop}
  {R : TradeGroupRow → TradeGroupRow → Prop}

/-- Writing a copy back, at a step that is admitted, relates the row stored to the row written, as
the columns hold it. -/
def WritesBy (money : MoneyColumn) (C : (ι → Seen) → InMemoryStore → ι → LedgerOp → Prop)
    (R : TradeGroupRow → TradeGroupRow → Prop) : Prop :=
  ∀ gs s j tg stored row, C gs s j (.upsertTradeGroup row) → (gs j).row = some tg →
    row.groupId = tg.groupId → s.getTradeGroup tg.groupId = some stored →
      stored.attributes = tg.attributes → row.attributes = tg.attributes → FieldsKept tg row →
        R stored (row.heldIn money)

omit [DecidableEq ι] in
/-- What an admitted step does to the rows stored. -/
theorem keeps_step (hrefl : ∀ tg, R tg tg) (hwrite : WritesBy money C R) (h : Copies gs s)
    {j : ι} {op : LedgerOp} {r : Except String op.Reply} (hallows : capture.allows (gs j) op)
    (hC : C gs s j op) (hstep : GroupStep money s s' op r) :
    s.tradeGroups.Keeps R s'.tradeGroups := by
  cases hstep with
  | write row pk hgroups hdrawn =>
    rw [hgroups]
    refine .upsert hrefl fun k stored hk hstored => ?_
    obtain rfl : row.groupId = k := Option.some.inj hk
    rcases hallows row rfl with ⟨tg, htg, hid, hattributes, hkept⟩ | hdrawn
    · obtain ⟨stored', hstored', hattributes'⟩ := h.row j tg htg
      have hsame : stored' = stored := by
        rw [← hid] at hstored'
        exact Option.some.inj (hstored'.symm.trans hstored)
      exact hsame ▸ hwrite gs s j tg stored' row hC htg hid hstored' hattributes' hattributes hkept
    · exact absurd (hstored.symm.trans (h.new j _ hdrawn)) (by simp)
  | draw hgroups _ =>
    rw [hgroups]
    exact .refl hrefl _
  | read _ h | readById _ h | failed _ _ h | other _ _ _ h =>
    rw [h.tradeGroups]
    exact .refl hrefl _

variable {kind : StoreKind} {tasks : ι → Task} {s₁ s₂ : InMemoryStore}
  {ps₁ ps₂ : ι → LedgerProg (Option TradeGroupRow)} {gs₁ gs₂ : ι → Seen}

/-- The rows stored are related from any state of a run without operator's edits to any later
one. -/
theorem keeps_of_watched (hrefl : ∀ tg, R tg tg)
    (htrans : ∀ {tg tg' tg''}, R tg tg' → R tg' tg'' → R tg tg'') (hwrite : WritesBy kind.money C R)
    (hedit : ∀ i, ¬ (tasks i).IsEdit)
    (h₁ : Pool.Watched kind.meaning (fun _ => capture) C (fun i => (tasks i).program)
      (fun _ => {}) s ps₁ gs₁ s₁)
    (h₂ : Pool.Watched kind.meaning (fun _ => capture) C ps₁ gs₁ s₁ ps₂ gs₂ s₂) :
    s₁.tradeGroups.Keeps R s₂.tradeGroups := by
  have hstart : Copies (fun _ : ι => {}) s :=
    ⟨fun _ _ he => (by cases he), fun _ _ he => (by cases he), fun _ _ he => (by cases he),
      fun _ _ _ he => (by cases he)⟩
  obtain ⟨hprograms, hcopies⟩ := h₁.guarded (Q := fun _ _ _ => True)
    (fun gs s j op r s' hJ hallows _ hop => hJ.step hallows (groupStep_of_meaning hop))
    (fun i => (captures_program (hedit i) {}).guarded fun _ _ => trivial) hstart
  refine (h₂.guarded (J := fun gs s' => Copies gs s' ∧ s₁.tradeGroups.Keeps R s'.tradeGroups)
    (fun gs s' j op r s'' hJ hallows hC hop => ?_) hprograms ⟨hcopies, .refl hrefl _⟩).2.2
  have hstep := groupStep_of_meaning hop
  exact ⟨hJ.1.step hallows hstep, hJ.2.trans htrans (keeps_step hrefl hwrite hJ.1 hallows hC hstep)⟩

/-- **Attribution and review stay** from any state of a run without operator's edits to any later
one. -/
theorem attributesKept_of_reaches (hedit : ∀ i, ¬ (tasks i).IsEdit)
    (h₁ : Pool.Reaches kind.meaning (fun i => (tasks i).program) s ps₁ s₁)
    (h₂ : Pool.Reaches kind.meaning ps₁ s₁ ps₂ s₂) :
    s₁.tradeGroups.Keeps (fun tg row => row.attributes = tg.attributes) s₂.tradeGroups := by
  obtain ⟨gs₁, hw₁⟩ := h₁.watched (fun _ => capture) fun _ => {}
  obtain ⟨gs₂, hw₂⟩ := h₂.watched (fun _ => capture) gs₁
  refine keeps_of_watched (fun _ => rfl) (fun h h' => h'.trans h) ?_ hedit hw₁ hw₂
  intro gs s j tg stored row _ _ _ _ hstored hrow _
  exact hrow.trans hstored.symm

/-- **Columns stay once set**, with attribution and review, when no copy is written back after
another task has written the group. -/
theorem kept_of_current (hedit : ∀ i, ¬ (tasks i).IsEdit)
    (h₁ : Pool.Watched kind.meaning (fun _ => capture) Current (fun i => (tasks i).program)
      (fun _ => {}) s ps₁ gs₁ s₁)
    (h₂ : Pool.Watched kind.meaning (fun _ => capture) Current ps₁ gs₁ s₁ ps₂ gs₂ s₂) :
    s₁.tradeGroups.Keeps FieldsKept s₂.tradeGroups := by
  refine keeps_of_watched .refl .trans ?_ hedit h₁ h₂
  intro gs s j tg stored row hcurrent hrow hid hstored _ _ hkept
  have hsame := hcurrent row tg rfl hrow hid.symm
  obtain rfl := Option.some.inj (hsame.symm.trans hstored)
  exact hkept.heldIn kind.money

/-! ### A pass beside captures -/

/-- The captures and the rebuild: they write no group but new ones. -/
def Task.IsCapture : Task → Prop
  | openTradeGroup _ _ | recordOrder _ _ | importOrders _ _ _ | importPositions _ _ _
  | applyFill _ | rebuild _ => True
  | importTransactions _ _ _ _ _ reconcileAfter => reconcileAfter = false
  | _ => False

/-- New groups only. -/
def opens : Monitor LedgerOp LedgerOp.Reply String Seen where
  update := Seen.afterPass
  allows seen op := ∀ row, op = .upsertTradeGroup row → seen.drawn = some row.groupId

theorem opens_of_free {α : Type} {p : LedgerProg α} (hp : p.Calls LedgerOp.IsFree) (seen : Seen) :
    p.Obeys opens seen := by
  refine Obeys.of_calls hp fun op hop seen row he => ?_
  subst he
  exact hop.elim

theorem opens_program {task : Task} (h : task.IsCapture) : task.program.Obeys opens {} := by
  cases task with
  | openTradeGroup account input =>
    refine Obeys.bind ?_ fun _ _ => Obeys.pure _
    refine (opens_of_free (Calls.invoke.mpr (by trivial)) _).bind fun at_ seen => ?_
    refine Obeys.bind_invoke (fun _ he => by cases he) fun groupId => ?_
    refine (Obeys.invoke fun row he => ?_).bind fun pk seen => ?_
    · cases he
      rfl
    · refine (opens_of_free (Calls.invoke.mpr (by trivial)) seen).bind fun _ _ => Obeys.pure _
  | recordOrder resolver order =>
    exact (opens_of_free (quiet_recordOrder resolver order).free _).bind fun _ _ => Obeys.pure _
  | importOrders resolver placedOrders account =>
    exact (opens_of_free (quiet_upsertFromHistory resolver placedOrders account).free _).bind
      fun _ _ => Obeys.pure _
  | importTransactions resolver settlementPrice account txns sourceSystem reconcileAfter =>
    obtain rfl : reconcileAfter = false := h
    refine Obeys.bind ?_ fun _ _ => Obeys.pure _
    exact (opens_of_free (quiet_upsertTransactions resolver txns account sourceSystem).free _).bind
      fun transactions _ => Obeys.pure _
  | importPositions resolver positions account =>
    exact (opens_of_free (quiet_upsertPositions resolver positions account).free _).bind
      fun _ _ => Obeys.pure _
  | applyFill evt =>
    exact (opens_of_free (quiet_applyFillEvent evt).free _).bind fun _ _ => Obeys.pure _
  | rebuild account =>
    exact (opens_of_free (quiet_rebuildPositionsFromTransactions account).free _).bind
      fun _ _ => Obeys.pure _
  | reconcile _ _ | recomputeFutures _ _ _ | linkOrder _ _ _ | regroup _ _ _ | remap _ _
  | markUnfilled _ _ _ | dismiss _ _ => exact h.elim

/-- The copy that the task `i` holds is the row stored. -/
structure Alone (i : ι) (gs : ι → Seen) (s : InMemoryStore) : Prop extends Copies gs s where
  held : ∀ tg, (gs i).row = some tg → s.getTradeGroup tg.groupId = some tg

/-- The task `i`, and others that write new groups only. -/
def aloneCalls (i j : ι) : Monitor LedgerOp LedgerOp.Reply String Seen :=
  if j = i then capture else opens

theorem aloneCalls_update (i j : ι) : (aloneCalls i j).update = Seen.afterPass := by
  unfold aloneCalls
  split <;> rfl

theorem capture_of_aloneCalls {i j : ι} {seen : Seen} {op : LedgerOp}
    (h : (aloneCalls i j).allows seen op) : capture.allows seen op := by
  unfold aloneCalls at h
  split at h
  · exact h
  · exact fun row he => Or.inr (h row he)

theorem Alone.step {i j : ι} (h : Alone i gs s) {op : LedgerOp} {r : Except String op.Reply}
    (hallows : (aloneCalls i j).allows (gs j) op) (hstep : GroupStep money s s' op r) :
    Alone i (Function.update gs j ((aloneCalls i j).update (gs j) op r)) s' := by
  rw [aloneCalls_update]
  refine ⟨h.toCopies.step (capture_of_aloneCalls hallows) hstep, fun tg htg => ?_⟩
  have hsame : s'.tradeGroups = s.tradeGroups → (gs i).row = some tg →
      s'.getTradeGroup tg.groupId = some tg := fun hgroups hrow =>
    (getTradeGroup_congr hgroups _).trans (h.held tg hrow)
  rcases eq_or_ne i j with rfl | hij
  · rw [Function.update_self] at htg
    cases hstep with
    | write row pk hgroups hdrawn => cases htg
    | draw hgroups hdrawn => exact hsame hgroups htg
    | read groupId hread =>
      cases hget : s.getTradeGroup groupId with
      | none => exact hsame hread.tradeGroups (by rwa [hget] at htg)
      | some tg' => exact hsame hread.tradeGroups (by rwa [hget] at htg)
    | readById pk hread =>
      rw [getTradeGroup_congr hread.tradeGroups]
      cases hget : s.getTradeGroupById pk with
      | none => exact h.held tg (by rwa [hget] at htg)
      | some tg' =>
        rw [hget] at htg
        obtain rfl := Option.some.inj htg
        exact Table.getByKey_of_mem_values (Table.mem_values.mpr ⟨pk, hget⟩) rfl
    | failed op e hfailed =>
      refine hsame hfailed.tradeGroups ?_
      cases op <;> first | exact htg | cases htg
    | other op r hop hother =>
      refine hsame hother.tradeGroups ?_
      cases op <;> first | exact htg | exact hop.elim
  · rw [Function.update_of_ne hij] at htg
    cases hstep with
    | write row pk hgroups hdrawn =>
      rw [aloneCalls, if_neg hij.symm] at hallows
      rw [getTradeGroup_of_upsert hgroups, if_neg, h.held tg htg]
      intro hid
      have hnone := h.new j _ (hallows row rfl)
      rw [← hid, h.held tg htg] at hnone
      cases hnone
    | draw hgroups hdrawn => exact hsame hgroups htg
    | read _ hread | readById _ hread | failed _ _ hread | other _ _ _ hread =>
      exact hsame hread.tradeGroups htg

omit [DecidableEq ι] in
theorem not_isEdit_of_alone {i : ι} (hi : ¬ (tasks i).IsEdit)
    (hothers : ∀ j, j ≠ i → (tasks j).IsCapture) (j : ι) : ¬ (tasks j).IsEdit := by
  rcases eq_or_ne j i with rfl | hj
  · exact hi
  · have hcapture := hothers j hj
    cases hj : tasks j <;> simp_all [Task.IsEdit, Task.IsCapture]

/-- **A pass beside captures** writes back no copy that another task has written over. -/
theorem current_of_alone {i : ι} (hi : ¬ (tasks i).IsEdit)
    (hothers : ∀ j, j ≠ i → (tasks j).IsCapture)
    (h₁ : Pool.Reaches kind.meaning (fun i => (tasks i).program) s ps₁ s₁)
    (h₂ : Pool.Reaches kind.meaning ps₁ s₁ ps₂ s₂) : ∃ gs₁ gs₂,
      Pool.Watched kind.meaning (fun _ => capture) Current (fun i => (tasks i).program)
        (fun _ => {}) s ps₁ gs₁ s₁ ∧
      Pool.Watched kind.meaning (fun _ => capture) Current ps₁ gs₁ s₁ ps₂ gs₂ s₂ := by
  obtain ⟨gs₁, hw₁⟩ := h₁.watched (aloneCalls i) fun _ => {}
  obtain ⟨gs₂, hw₂⟩ := h₂.watched (aloneCalls i) gs₁
  have hedit := not_isEdit_of_alone hi hothers
  have hstart : Alone i (fun _ : ι => {}) s :=
    ⟨⟨fun _ _ he => (by cases he), fun _ _ he => (by cases he), fun _ _ he => (by cases he),
      fun _ _ _ he => (by cases he)⟩, fun _ he => (by cases he)⟩
  have hprograms : ∀ j, (tasks j).program.Guarded (aloneCalls i j).meaning
      (aloneCalls i j).allows {} fun _ _ => True := fun j => by
    unfold aloneCalls
    split
    · exact (captures_program (hedit j) {}).guarded fun _ _ => trivial
    · exact (opens_program (hothers j ‹_›)).guarded fun _ _ => trivial
  have hstep : ∀ gs s j op r s', Alone i gs s → (aloneCalls i j).allows (gs j) op → True →
      kind.meaning op s r s' →
        Alone i (Function.update gs j ((aloneCalls i j).update (gs j) op r)) s' :=
    fun gs s j op r s' hJ hallows _ hop => hJ.step hallows (groupStep_of_meaning hop)
  have hcurrent : ∀ gs s j op, Alone i gs s → (aloneCalls i j).allows (gs j) op → True →
      Current gs s j op := by
    intro gs s j op hJ hallows _ row tg he hrow hid
    rcases eq_or_ne j i with rfl | hj
    · exact hJ.held tg hrow
    · -- another task writes new groups only
      rw [aloneCalls, if_neg hj] at hallows
      obtain ⟨stored, hstored, -⟩ := hJ.row j tg hrow
      rw [hid, hJ.new j _ (hallows row he)] at hstored
      cases hstored
  have hupdate : ∀ j, (aloneCalls i j).update = capture.update := aloneCalls_update i
  have hmid := hw₁.guarded hstep hprograms hstart
  exact ⟨gs₁, gs₂, (hw₁.admitted hstep hcurrent hprograms hstart).congr hupdate,
    (hw₂.admitted hstep hcurrent hmid.1 hmid.2).congr hupdate⟩

end Runs

/-! ### Two overlapping passes -/

/-- A group opened without a strategy type, and two orders of it with a fill each: of a stock on day
1, of a future on day 5. -/
def twoFills : InMemoryStore :=
  let s := (exec (openTradeGroup "A" {}) (.seeded
    [{ securityId := "X", productType := "E", multiplier := some 1 },
      { securityId := "F", productType := "F", multiplier := some 50 }] [] [])).2
  let s := (s.upsertOrders [{ OrderRow.placed "A" "O1" with tradeGroupId := some 1 },
    { OrderRow.placed "A" "O2" with tradeGroupId := some 1 }]).2
  s.upsertTransactions [.fill "A" "t1" "O1" "Buy to Open" "X" 1 day,
    .fill "A" "t2" "O2" "Buy to Open" "F" 1 (5 * day)]

/-- A pass over everything, and one from day 5 on. -/
def overlappingPasses : Bool → Task
  | false => .reconcile (some "A") {}
  | true => .reconcile (some "A") { since := some 5 }

/-- The pass from day 5 on has read the group when the other one writes it. -/
def strategySet : (Bool → LedgerProg (Option TradeGroupRow)) × InMemoryStore :=
  Pool.play memory
    (List.replicate 11 false ++ List.replicate 14 true ++ List.replicate 4 false)
    (fun i => (overlappingPasses i).program) twoFills

/-- It writes its copy back. -/
def strategyReplaced : (Bool → LedgerProg (Option TradeGroupRow)) × InMemoryStore :=
  Pool.play memory [true] strategySet.1 strategySet.2

theorem strategyType_strategySet :
    (strategySet.2.tradeGroups.get 1).map TradeGroupRow.strategyType = some (some "single") := by
  decide +kernel

theorem strategyType_strategyReplaced :
    (strategyReplaced.2.tradeGroups.get 1).map TradeGroupRow.strategyType =
      some (some "future") := by
  decide +kernel

/-- Two overlapping passes can replace a strategy type that is set. -/
theorem not_fieldsKept_overlapping :
    ¬ ∀ (kind : StoreKind) (tasks : Bool → Task) (s s₁ s₂ : InMemoryStore)
      (ps₁ ps₂ : Bool → LedgerProg (Option TradeGroupRow)), (∀ i, ¬ (tasks i).IsEdit) →
        Pool.Reaches kind.meaning (fun i => (tasks i).program) s ps₁ s₁ →
          Pool.Reaches kind.meaning ps₁ s₁ ps₂ s₂ →
            s₁.tradeGroups.Keeps FieldsKept s₂.tradeGroups := by
  intro h
  obtain ⟨tg, htg, hset⟩ := Option.map_eq_some_iff.mp strategyType_strategySet
  obtain ⟨row, hrow, hkept⟩ := h .memory overlappingPasses twoFills strategySet.2
    strategyReplaced.2 strategySet.1 strategyReplaced.1 (fun i => by cases i <;> exact id)
    (StoreKind.memory.reaches_play _ _ _) (StoreKind.memory.reaches_play _ _ _) 1 tg htg
  have hsame := hkept.strategyType (by rw [hset]; decide)
  have hreplaced := strategyType_strategyReplaced
  rw [hrow, Option.map_some, hsame, hset] at hreplaced
  exact absurd hreplaced (by decide)

/-! ## Together -/

/-- **Submit-time and operator fields.** In every pool of tasks a group that has been opened keeps
the columns it was given, as the money columns of the store hold them. Without operator's edits
every group keeps its attribution and its review from any state of a run to any later one; and
where no copy is written back after another task has written the group, also its underlying, its
security and its strategy type once they are set. -/
theorem fields_kept (kind : StoreKind) :
    (∀ (ι : Type) [DecidableEq ι] (tasks : ι → Task) (i : ι) (account : String)
      (input : TradeGroupInput) (s s' : InMemoryStore)
      (ps' : ι → LedgerProg (Option TradeGroupRow)) (row : TradeGroupRow),
      tasks i = .openTradeGroup account input →
        Pool.Reaches kind.meaning (fun i => (tasks i).program) s ps' s' →
          ps' i = .ret (some row) →
            ∃ stored, s'.getTradeGroup row.groupId = some stored ∧
              stored.frozen = input.frozen.heldIn kind.money) ∧
    (∀ (ι : Type) [DecidableEq ι] (tasks : ι → Task) (s s₁ s₂ : InMemoryStore)
      (ps₁ ps₂ : ι → LedgerProg (Option TradeGroupRow)), (∀ i, ¬ (tasks i).IsEdit) →
        Pool.Reaches kind.meaning (fun i => (tasks i).program) s ps₁ s₁ →
          Pool.Reaches kind.meaning ps₁ s₁ ps₂ s₂ →
            s₁.tradeGroups.Keeps (fun tg row => row.attributes = tg.attributes)
              s₂.tradeGroups) ∧
    ∀ (ι : Type) [DecidableEq ι] (tasks : ι → Task) (s s₁ s₂ : InMemoryStore)
      (ps₁ ps₂ : ι → LedgerProg (Option TradeGroupRow)) (gs₁ gs₂ : ι → Seen),
      (∀ i, ¬ (tasks i).IsEdit) →
        Pool.Watched kind.meaning (fun _ => capture) Current (fun i => (tasks i).program)
          (fun _ => {}) s ps₁ gs₁ s₁ →
          Pool.Watched kind.meaning (fun _ => capture) Current ps₁ gs₁ s₁ ps₂ gs₂ s₂ →
            s₁.tradeGroups.Keeps FieldsKept s₂.tradeGroups :=
  ⟨fun _ _ _ _ _ _ _ _ _ _ hi h hend => frozen_of_reaches hi h hend,
    fun _ _ _ _ _ _ _ _ hedit h₁ h₂ => attributesKept_of_reaches hedit h₁ h₂,
    fun _ _ _ _ _ _ _ _ _ _ hedit h₁ h₂ => kept_of_current hedit h₁ h₂⟩

/-- A group is opened while a pass runs. -/
def openedBesidePass : Bool → Task
  | true => .openTradeGroup "A" { initialRisk := some (1234567 / 10000000) }
  | false => .reconcile (some "A") {}

/-- A store of micro-units. -/
abbrev sqliteStore : StoreKind := .sql .sqlite id

/-- The pass has set the strategy type of the group there is, and the other task is about to write
its own. -/
def besideOpening : (Bool → LedgerProg (Option TradeGroupRow)) × InMemoryStore :=
  Pool.play sqliteStore.handler (List.replicate 15 false ++ [true, true])
    (fun i => (openedBesidePass i).program) twoFills

/-- Both tasks have ended; the pass has written its group back once more. -/
def besideOpened : (Bool → LedgerProg (Option TradeGroupRow)) × InMemoryStore :=
  Pool.play sqliteStore.handler ([true, true] ++ List.replicate 20 false) besideOpening.1
    besideOpening.2

theorem returned_besideOpened :
    ∃ row, besideOpened.1 true = .ret (some row) ∧ row.groupId = "xx" := by
  have hreturned : (match besideOpened.1 true with
      | .ret row? => row?.map TradeGroupRow.groupId
      | _ => none) = some "xx" := by
    decide +kernel
  split at hreturned
  · rename_i row? hrow
    obtain ⟨row, rfl, hid⟩ := Option.map_eq_some_iff.mp hreturned
    exact ⟨row, hrow, hid⟩
  · cases hreturned

/-- The group opened has its initial risk in micro-units; the other one keeps the strategy type that
the pass has set, and its attribution. -/
theorem fields_kept_besideOpening :
    (∃ stored, besideOpened.2.getTradeGroup "xx" = some stored ∧
      stored.initialRisk = some (123457 / 1000000)) ∧
    besideOpening.2.tradeGroups.Keeps (fun tg row => row.attributes = tg.attributes)
      besideOpened.2.tradeGroups ∧
    ((besideOpening.2.tradeGroups.get 1).map TradeGroupRow.strategyType = some (some "single") ∧
      besideOpening.2.tradeGroups.Keeps FieldsKept besideOpened.2.tradeGroups) := by
  have hedit : ∀ i, ¬ (openedBesidePass i).IsEdit := fun i => by cases i <;> exact id
  have hothers : ∀ j, j ≠ false → (openedBesidePass j).IsCapture := fun j hj => by
    cases j with
    | false => exact absurd rfl hj
    | true => trivial
  have h₁ := sqliteStore.reaches_play (List.replicate 15 false ++ [true, true])
    (fun i => (openedBesidePass i).program) twoFills
  have h₂ := sqliteStore.reaches_play ([true, true] ++ List.replicate 20 false) besideOpening.1
    besideOpening.2
  have hboth : Prog.Pool.Reaches sqliteStore.meaning (fun i => (openedBesidePass i).program)
      twoFills besideOpened.1 besideOpened.2 := h₁.trans h₂
  obtain ⟨row, hrow, hid⟩ := returned_besideOpened
  obtain ⟨gs₁, gs₂, hw₁, hw₂⟩ := current_of_alone (hedit false) hothers h₁ h₂
  obtain ⟨stored, hstored, hfrozen⟩ := (fields_kept sqliteStore).1 Bool openedBesidePass true "A" _
    twoFills _ _ row rfl hboth hrow
  refine ⟨⟨stored, hid ▸ hstored, ?_⟩,
    (fields_kept sqliteStore).2.1 Bool openedBesidePass twoFills _ _ _ _ hedit h₁ h₂,
    by decide +kernel,
    (fields_kept sqliteStore).2.2 Bool openedBesidePass twoFills _ _ _ _ gs₁ gs₂ hedit hw₁ hw₂⟩
  have hheld : (some (1234567 / 10000000)).map Money.stored = some (123457 / 1000000) := by
    decide +kernel
  exact (congrArg Frozen.initialRisk hfrozen).trans hheld

end TtLedger
