import TtLedger.Ingest.Frames
import TtLedger.Ingest.TaskCalls

/-!
# Submit-time columns are frozen

Groups are written by whole-row upserts, from copies read earlier. What a group was given when it
was opened stays in every pool of tasks (`frozen_of_reaches`): each writer copies these columns from
a row of the group, so all rows of it that any task ever holds carry them, and no other task draws
the identifier of the group. A decimal stays as the money columns hold it. `GroupStep` says what a
call does to the groups, and what it replies of them.
-/

namespace TtLedger

open LedgerStore Prog

/-! ## What a call does to the groups -/

/-- The groups and the identifiers drawn are left alone. -/
structure SameGroups (s s' : InMemoryStore) : Prop where
  tradeGroups : s'.tradeGroups = s.tradeGroups
  drawn : s'.drawn = s.drawn

/-- The calls that neither read nor write a group, nor draw. -/
def LedgerOp.IsGroupless : LedgerOp → Prop
  | upsertTradeGroup _ | uuid4 | getTradeGroup _ | getTradeGroupById _ => False
  | _ => True

/-- What a call does to the groups, and what it replies of them. -/
inductive GroupStep (money : MoneyColumn) (s s' : InMemoryStore) :
    (op : LedgerOp) → Except String op.Reply → Prop
  | write (row : TradeGroupRow) (pk : ℕ)
      (hgroups : s'.tradeGroups = (s.tradeGroups.upsert (row.heldIn money)).2)
      (hdrawn : s'.drawn = s.drawn) : GroupStep money s s' (.upsertTradeGroup row) (.ok pk)
  | draw (hgroups : s'.tradeGroups = s.tradeGroups) (hdrawn : s'.drawn = s.freshGroupId.length) :
      GroupStep money s s' .uuid4 (.ok s.freshGroupId)
  | read (groupId : String) (hsame : SameGroups s s') :
      GroupStep money s s' (.getTradeGroup groupId) (.ok (s.getTradeGroup groupId))
  | readById (pk : ℕ) (hsame : SameGroups s s') :
      GroupStep money s s' (.getTradeGroupById pk) (.ok (s.getTradeGroupById pk))
  | failed (op : LedgerOp) (e : String) (hsame : SameGroups s s') :
      GroupStep money s s' op (.error e)
  | other (op : LedgerOp) (r : op.Reply) (hop : op.IsGroupless) (hsame : SameGroups s s') :
      GroupStep money s s' op (.ok r)

theorem sameGroups_step {op : LedgerOp} (hop : op.IsGroupless) (s : InMemoryStore) :
    SameGroups s (s.step op).2 := by
  cases op with
  | upsertOrders rows =>
    obtain ⟨orders, h⟩ := s.upsertOrders_frame rows
    show SameGroups s (s.upsertOrders rows).2
    rw [h]
    exact ⟨rfl, rfl⟩
  | upsertTransactions rows =>
    obtain ⟨transactions, h⟩ := s.upsertTransactions_frame rows
    show SameGroups s (s.upsertTransactions rows)
    rw [h]
    exact ⟨rfl, rfl⟩
  | upsertTradeGroup _ | uuid4 | getTradeGroup _ | getTradeGroupById _ => exact hop.elim
  | _ => exact ⟨rfl, rfl⟩

theorem groupStep_memory (op : LedgerOp) (s : InMemoryStore) :
    GroupStep .exact s (memory op s).2 op (memory op s).1 := by
  cases op with
  | upsertTradeGroup row =>
    refine .write row _ ?_ rfl
    rw [TradeGroupRow.heldIn_exact]
    rfl
  | uuid4 => exact .draw rfl rfl
  | getTradeGroup groupId => exact .read groupId ⟨rfl, rfl⟩
  | getTradeGroupById pk => exact .readById pk ⟨rfl, rfl⟩
  | _ => exact .other _ _ trivial (sameGroups_step (by trivial) s)

theorem groupStep_handler (kind : StoreKind) (op : LedgerOp) (s : InMemoryStore) :
    GroupStep kind.money s (kind.handler op s).2 op (kind.handler op s).1 := by
  cases kind with
  | memory => exact groupStep_memory op s
  | sql money scan =>
    cases op with
    | upsertTradeGroup row => exact .write row _ rfl rfl
    | uuid4 => exact .draw rfl rfl
    | getTradeGroup groupId => exact .read groupId ⟨rfl, rfl⟩
    | getTradeGroupById pk => exact .readById pk ⟨rfl, rfl⟩
    | upsertOrders rows =>
      exact .other (.upsertOrders rows) _ trivial
        (@sameGroups_step (.upsertOrders (rows.map (OrderRow.heldIn money))) trivial s)
    | upsertTransactions rows =>
      exact .other (.upsertTransactions rows) _ trivial
        (@sameGroups_step (.upsertTransactions (rows.map (TxnRow.heldIn money))) trivial s)
    | upsertClosedPosition row =>
      refine .other _ _ trivial ?_
      show SameGroups s (SqlLedgerStore.upsertClosedPosition s (row.heldIn money)).2
      unfold SqlLedgerStore.upsertClosedPosition
      split <;> exact ⟨rfl, rfl⟩
    | _ => exact .other _ _ trivial ⟨rfl, rfl⟩

theorem groupStep_of_meaning {kind : StoreKind} {op : LedgerOp} {s s' : InMemoryStore}
    {r : Except String op.Reply} (h : kind.meaning op s r s') : GroupStep kind.money s s' op r := by
  obtain ⟨clock, hrun | ⟨⟨e, rfl⟩, rfl⟩⟩ := h
  · have hstep := groupStep_handler kind op { s with clock }
    rw [hrun] at hstep
    cases hstep with
    | write row pk hgroups hdrawn => exact .write row pk hgroups hdrawn
    | draw hgroups hdrawn => exact .draw hgroups hdrawn
    | read groupId hsame => exact .read groupId ⟨hsame.tradeGroups, hsame.drawn⟩
    | readById pk hsame => exact .readById pk ⟨hsame.tradeGroups, hsame.drawn⟩
    | failed op e hsame => exact .failed op e ⟨hsame.tradeGroups, hsame.drawn⟩
    | other op r hop hsame => exact .other op r hop ⟨hsame.tradeGroups, hsame.drawn⟩
  · exact .failed op e ⟨rfl, rfl⟩

section Ids

variable {s s' : InMemoryStore}

theorem getTradeGroup_congr (h : s'.tradeGroups = s.tradeGroups) (id : String) :
    s'.getTradeGroup id = s.getTradeGroup id := by
  rw [InMemoryStore.getTradeGroup, h, InMemoryStore.getTradeGroup]

theorem getTradeGroup_of_upsert {money : MoneyColumn} {row : TradeGroupRow}
    (h : s'.tradeGroups = (s.tradeGroups.upsert (row.heldIn money)).2) (id : String) :
    s'.getTradeGroup id =
      if id = row.groupId then some (row.heldIn money) else s.getTradeGroup id := by
  rw [InMemoryStore.getTradeGroup, h, Table.getByKey_upsert _ _
    (show TradeGroupRow.key (row.heldIn money) = some row.groupId from rfl)]
  rfl

/-- A group that is stored has an identifier shorter than the next one drawn. -/
theorem length_lt_of_getTradeGroup {id : String} {tg : TradeGroupRow}
    (h : s.getTradeGroup id = some tg) : id.length < s.freshGroupId.length := by
  have hid : tg.groupId = id := Option.some.inj (Table.getByKey_eq_some.mp h).2
  exact hid ▸ length_lt_freshGroupId s (Table.mem_values_of_getByKey h)

/-- Identifiers in use stay in use. -/
theorem length_freshGroupId_mono {money : MoneyColumn} {op : LedgerOp}
    {r : Except String op.Reply} (h : GroupStep money s s' op r) :
    s.freshGroupId.length ≤ s'.freshGroupId.length := by
  have hsame : s'.tradeGroups = s.tradeGroups → s.drawn ≤ s'.drawn →
      s.freshGroupId.length ≤ s'.freshGroupId.length := by
    intro hgroups hdrawn
    obtain ⟨hlt, hall⟩ := (length_freshGroupId_le s').mp (Nat.le_refl _)
    exact (length_freshGroupId_le s).mpr ⟨Nat.lt_of_le_of_lt hdrawn hlt, hgroups ▸ hall⟩
  cases h with
  | write row pk hgroups hdrawn =>
    obtain ⟨hlt, -⟩ := (length_freshGroupId_le s').mp (Nat.le_refl _)
    refine (length_freshGroupId_le s).mpr ⟨hdrawn ▸ hlt, fun tg htg => ?_⟩
    have hget := Table.getByKey_of_mem_values htg (k := tg.groupId) rfl
    have hget' := getTradeGroup_of_upsert hgroups tg.groupId
    by_cases hid : tg.groupId = row.groupId
    · rw [if_pos hid] at hget'
      exact length_lt_of_getTradeGroup hget'
    · rw [if_neg hid] at hget'
      exact length_lt_of_getTradeGroup (hget'.trans hget)
  | draw hgroups hdrawn =>
    refine hsame hgroups ?_
    exact hdrawn ▸ (((length_freshGroupId_le s).mp (Nat.le_refl _)).1).le
  | read _ h | readById _ h | failed _ _ h | other _ _ _ h =>
    exact hsame h.tradeGroups (Nat.le_of_eq h.drawn.symm)

/-- The identifier drawn is in use from then on. -/
theorem length_lt_of_drawn {id : String} (hdrawn : s'.drawn = id.length) :
    id.length < s'.freshGroupId.length :=
  hdrawn ▸ ((length_freshGroupId_le s').mp (Nat.le_refl _)).1

end Ids

/-! ## What is given when a group is opened -/

/-- Submit-time columns as the money columns hold them. -/
def Frozen.heldIn (money : MoneyColumn) (f : Frozen) : Frozen :=
  { f with
    initialRisk := f.initialRisk.map money.hold
    maxProfit := f.maxProfit.map money.hold
    maxLoss := f.maxLoss.map money.hold }

theorem TradeGroupRow.frozen_heldIn (money : MoneyColumn) (tg : TradeGroupRow) :
    (tg.heldIn money).frozen = tg.frozen.heldIn money := rfl

theorem Frozen.heldIn_heldIn (money : MoneyColumn) (f : Frozen) :
    (f.heldIn money).heldIn money = f.heldIn money := by
  simp [heldIn, Function.comp_def]

section Frozen

variable {ι : Type} [DecidableEq ι] (i : ι) (money : MoneyColumn) (frozen : Frozen)

/-- The task that opens the group, and any others. -/
def openerCalls (j : ι) : Monitor LedgerOp LedgerOp.Reply String Learned :=
  if j = i then openCalls frozen else taskCalls

theorem openerCalls_update (j : ι) : (openerCalls i frozen j).update = Learned.after := by
  unfold openerCalls
  split <;> rfl

/-- Every row held of a group that the task `i` has opened has its submit-time columns, as the store
holds them, and no other task has drawn its identifier. -/
structure OpenedBy (gs : ι → Learned) (s : InMemoryStore) : Prop where
  rowsBelow : ∀ j, ∀ tg ∈ (gs j).rows, tg.groupId.length < s.freshGroupId.length
  drawnBelow : ∀ j, ∀ id ∈ (gs j).drawn, id.length < s.freshGroupId.length
  stored : ∀ id ∈ (gs i).drawn, ∀ tg, s.getTradeGroup id = some tg →
    tg.frozen = frozen.heldIn money
  seen : ∀ id ∈ (gs i).drawn, ∀ j, ∀ tg ∈ (gs j).rows, tg.groupId = id →
    tg.frozen = frozen.heldIn money
  own : ∀ id ∈ (gs i).drawn, ∀ j, j ≠ i → id ∉ (gs j).drawn
  written : ∀ id ∈ (gs i).written, (s.getTradeGroup id).isSome

variable {i money frozen} {gs : ι → Learned} {s s' : InMemoryStore}

omit [DecidableEq ι] in
/-- Nothing is learned and the groups stay. -/
theorem OpenedBy.same (h : OpenedBy i money frozen gs s) (hsame : SameGroups s s')
    (hlen : s.freshGroupId.length ≤ s'.freshGroupId.length) : OpenedBy i money frozen gs s' where
  rowsBelow j tg htg := (h.rowsBelow j tg htg).trans_le hlen
  drawnBelow j id hid := (h.drawnBelow j id hid).trans_le hlen
  stored id hid tg htg := h.stored id hid tg ((getTradeGroup_congr hsame.tradeGroups id) ▸ htg)
  seen := h.seen
  own := h.own
  written id hid := (getTradeGroup_congr hsame.tradeGroups id).symm ▸ h.written id hid

/-- A task reads a stored row. -/
theorem OpenedBy.read (h : OpenedBy i money frozen gs s) (j : ι) {tg : TradeGroupRow}
    (htg : s.getTradeGroup tg.groupId = some tg) :
    OpenedBy i money frozen (Function.update gs j { gs j with rows := tg :: (gs j).rows }) s := by
  have hdrawn : ∀ k, (Function.update gs j
      { gs j with rows := tg :: (gs j).rows } k).drawn = (gs k).drawn :=
    Pool.view_update Learned.drawn rfl
  have hwritten : ∀ k, (Function.update gs j
      { gs j with rows := tg :: (gs j).rows } k).written = (gs k).written :=
    Pool.view_update Learned.written rfl
  have hrows : ∀ k, ∀ row ∈ (Function.update gs j { gs j with rows := tg :: (gs j).rows } k).rows,
      row = tg ∨ row ∈ (gs k).rows := fun k row hrow => by
    rcases eq_or_ne k j with rfl | hk
    · rw [Function.update_self] at hrow
      exact List.mem_cons.mp hrow
    · rw [Function.update_of_ne hk] at hrow
      exact Or.inr hrow
  refine ⟨fun k row hrow => ?_, fun k id hid => h.drawnBelow k id (hdrawn k ▸ hid),
    fun id hid => h.stored id (hdrawn i ▸ hid), fun id hid k row hrow hrid => ?_,
    fun id hid k hk => hdrawn k ▸ h.own id (hdrawn i ▸ hid) k hk,
    fun id hid => h.written id (hwritten i ▸ hid)⟩
  · rcases hrows k row hrow with rfl | hrow
    · exact length_lt_of_getTradeGroup htg
    · exact h.rowsBelow k row hrow
  · rcases hrows k row hrow with rfl | hrow
    · exact h.stored id (hdrawn i ▸ hid) row (hrid ▸ htg)
    · exact h.seen id (hdrawn i ▸ hid) k row hrow hrid

/-- A task draws an identifier: nobody holds it, and no group has it. -/
theorem OpenedBy.draw (h : OpenedBy i money frozen gs s) (j : ι)
    (hgroups : s'.tradeGroups = s.tradeGroups)
    (hdrawn : s'.drawn = s.freshGroupId.length)
    (hlen : s.freshGroupId.length ≤ s'.freshGroupId.length) :
    OpenedBy i money frozen
      (Function.update gs j { gs j with drawn := s.freshGroupId :: (gs j).drawn }) s' := by
  have hrows : ∀ k, (Function.update gs j
      { gs j with drawn := s.freshGroupId :: (gs j).drawn } k).rows = (gs k).rows :=
    Pool.view_update Learned.rows rfl
  have hwritten : ∀ k, (Function.update gs j
      { gs j with drawn := s.freshGroupId :: (gs j).drawn } k).written = (gs k).written :=
    Pool.view_update Learned.written rfl
  have hids : ∀ k id, id ∈ (Function.update gs j
      { gs j with drawn := s.freshGroupId :: (gs j).drawn } k).drawn →
        (k = j ∧ id = s.freshGroupId) ∨ id ∈ (gs k).drawn := fun k id hid => by
    rcases eq_or_ne k j with rfl | hk
    · rw [Function.update_self] at hid
      exact (List.mem_cons.mp hid).imp (⟨rfl, ·⟩) fun h => h
    · rw [Function.update_of_ne hk] at hid
      exact Or.inr hid
  have hget := getTradeGroup_congr hgroups
  refine ⟨fun k tg htg => ?_, fun k id hid => ?_, fun id hid tg htg => ?_,
    fun id hid k tg htg hrid => ?_, fun id hid k hk hkid => ?_, fun id hid => ?_⟩
  · exact (h.rowsBelow k tg (hrows k ▸ htg)).trans_le hlen
  · rcases hids k id hid with ⟨-, rfl⟩ | hid
    · exact length_lt_of_drawn hdrawn
    · exact (h.drawnBelow k id hid).trans_le hlen
  · rw [hget] at htg
    rcases hids i id hid with ⟨-, rfl⟩ | hid
    · exact absurd (length_lt_of_getTradeGroup htg) (Nat.lt_irrefl _)
    · exact h.stored id hid tg htg
  · rw [hrows] at htg
    rcases hids i id hid with ⟨-, rfl⟩ | hid
    · exact absurd (hrid ▸ h.rowsBelow k tg htg) (Nat.lt_irrefl _)
    · exact h.seen id hid k tg htg hrid
  · rcases hids i id hid with ⟨rfl, rfl⟩ | hid
    · rcases hids k _ hkid with ⟨rfl, -⟩ | hkid
      · exact hk rfl
      · exact absurd (h.drawnBelow k _ hkid) (Nat.lt_irrefl _)
    · rcases hids k id hkid with ⟨-, rfl⟩ | hkid
      · exact absurd (h.drawnBelow i _ hid) (Nat.lt_irrefl _)
      · exact h.own id hid k hk hkid
  · rw [hget]
    exact h.written id (hwritten i ▸ hid)

/-- A task writes a group as it may. -/
theorem OpenedBy.write (h : OpenedBy i money frozen gs s) (j : ι) {row : TradeGroupRow}
    (hallows : (openerCalls i frozen j).allows (gs j) (.upsertTradeGroup row))
    (hgroups : s'.tradeGroups = (s.tradeGroups.upsert (row.heldIn money)).2)
    (hlen : s.freshGroupId.length ≤ s'.freshGroupId.length) :
    OpenedBy i money frozen
      (Function.update gs j { gs j with written := row.groupId :: (gs j).written }) s' := by
  have hrows : ∀ k, (Function.update gs j
      { gs j with written := row.groupId :: (gs j).written } k).rows = (gs k).rows :=
    Pool.view_update Learned.rows rfl
  have hdrawn : ∀ k, (Function.update gs j
      { gs j with written := row.groupId :: (gs j).written } k).drawn = (gs k).drawn :=
    Pool.view_update Learned.drawn rfl
  have hget := getTradeGroup_of_upsert hgroups
  refine ⟨fun k tg htg => (h.rowsBelow k tg (hrows k ▸ htg)).trans_le hlen,
    fun k id hid => (h.drawnBelow k id (hdrawn k ▸ hid)).trans_le hlen,
    fun id hid tg htg => ?_, fun id hid k tg htg => h.seen id (hdrawn i ▸ hid) k tg (hrows k ▸ htg),
    fun id hid k hk => hdrawn k ▸ h.own id (hdrawn i ▸ hid) k hk, fun id hid => ?_⟩
  · rw [hdrawn] at hid
    rw [hget] at htg
    split at htg
    · -- the group written is the one opened
      rename_i hrid
      obtain rfl := Option.some.inj htg
      unfold openerCalls at hallows
      rw [TradeGroupRow.frozen_heldIn]
      split at hallows
      · rw [(hallows row rfl).2]
      · rename_i hj
        rcases hallows with ⟨tg', htg', hid', hfrozen⟩ | hown
        · -- a copy of the row stored is stored as it is
          rw [← hfrozen, h.seen id hid j tg' htg' (hid'.trans hrid.symm), Frozen.heldIn_heldIn]
        · exact absurd (hrid ▸ hown) (h.own id hid j hj)
    · exact h.stored id hid tg htg
  · rw [hget]
    split
    · rfl
    · rename_i hne
      rcases eq_or_ne i j with rfl | hij
      · rw [Function.update_self] at hid
        exact h.written id ((List.mem_cons.mp hid).resolve_left hne)
      · rw [Function.update_of_ne hij] at hid
        exact h.written id hid

/-- **One call** keeps what is known of the group opened. -/
theorem OpenedBy.step (h : OpenedBy i money frozen gs s) {j : ι} {op : LedgerOp}
    {r : Except String op.Reply} (hallows : (openerCalls i frozen j).allows (gs j) op)
    (hstep : GroupStep money s s' op r) :
    OpenedBy i money frozen
      (Function.update gs j ((openerCalls i frozen j).update (gs j) op r)) s' := by
  have hlen := length_freshGroupId_mono hstep
  rw [openerCalls_update]
  cases hstep with
  | write row pk hgroups hdrawn => exact h.write j hallows hgroups hlen
  | draw hgroups hdrawn => exact h.draw j hgroups hdrawn hlen
  | read groupId hsame =>
    cases htg : s.getTradeGroup groupId with
    | none => simpa only [Learned.after, Function.update_eq_self] using h.same hsame hlen
    | some tg =>
      have hid : tg.groupId = groupId := Option.some.inj (Table.getByKey_eq_some.mp htg).2
      exact (h.read j (hid ▸ htg)).same hsame hlen
  | readById pk hsame =>
    cases htg : s.getTradeGroupById pk with
    | none => simpa only [Learned.after, Function.update_eq_self] using h.same hsame hlen
    | some tg =>
      have hmem := Table.mem_values.mpr ⟨pk, htg⟩
      exact (h.read j (Table.getByKey_of_mem_values hmem rfl)).same hsame hlen
  | failed op e hsame =>
    have hafter : (gs j).after op (.error e) = gs j := by cases op <;> rfl
    rw [hafter, Function.update_eq_self]
    exact h.same hsame hlen
  | other op r hop hsame =>
    have hafter : (gs j).after op (.ok r) = gs j := by
      cases op <;> first | rfl | exact hop.elim
    rw [hafter, Function.update_eq_self]
    exact h.same hsame hlen

variable {kind : StoreKind} {tasks : ι → Task} {account : String} {input : TradeGroupInput}
  {ps' : ι → LedgerProg (Option TradeGroupRow)} {row : TradeGroupRow}

/-- **Submit-time columns are frozen**: in every pool of tasks, whatever the interleaving and
whichever calls fail, a group that has been opened is stored with the columns it was given, as the
money columns of the store hold them. -/
theorem frozen_of_reaches (hi : tasks i = .openTradeGroup account input)
    (h : Pool.Reaches kind.meaning (fun i => (tasks i).program) s ps' s')
    (hend : ps' i = .ret (some row)) :
    ∃ stored, s'.getTradeGroup row.groupId = some stored ∧
      stored.frozen = input.frozen.heldIn kind.money := by
  obtain ⟨gs', hrun⟩ := h.watched (openerCalls i input.frozen) fun _ => {}
  have hstart : OpenedBy i kind.money input.frozen (fun _ => {}) s :=
    ⟨fun _ _ h => (by cases h), fun _ _ h => (by cases h), fun _ h => (by cases h),
      fun _ h => (by cases h), fun _ h => (by cases h), fun _ h => (by cases h)⟩
  have hprograms : ∀ j, (tasks j).program.Guarded (openerCalls i input.frozen j).meaning
      (openerCalls i input.frozen j).allows {} fun x known => j = i →
        ∀ row, x = .ok (some row) → row.groupId ∈ known.drawn ∧ row.groupId ∈ known.written := by
    intro j
    unfold openerCalls
    split
    · rename_i hj
      rw [hj, hi]
      exact Guarded.mono (fun _ _ hQ _ => hQ) (guarded_openTradeGroup account input)
    · rename_i hj
      exact (taskCalls_program (tasks j) {} {} (taskCalls_grows.refl _)).guarded
        fun _ _ hj' => absurd hj' hj
  obtain ⟨hguarded, hopened⟩ := hrun.guarded
    (fun gs s j op r s' hJ hallows _ hop => hJ.step hallows (groupStep_of_meaning hop))
    hprograms hstart
  have hreturned := hguarded i
  rw [hend] at hreturned
  obtain ⟨hdrawn, hwritten⟩ := hreturned rfl row rfl
  obtain ⟨stored, hstored⟩ := Option.isSome_iff_exists.mp (hopened.written _ hwritten)
  exact ⟨stored, hstored, hopened.stored _ hdrawn stored hstored⟩

end Frozen

end TtLedger
