import TtLedger.Ingest.GroupWrites
import TtLedger.Ingest.Frames
import TtLedger.Ingest.Remap

/-!
# An operator's edit beside a pass

`remapTradeGroup` and a pass both read a group's row and later write the whole row back. When no
write of the one falls between the other's read and write of the group (`Uncrossed`), the group
ends with the attribution the operator set and with the lifecycle columns the pass wrote last
(`editSurvives_of_uncrossed`); a pass that stamps the group between the operator's read and write
loses its stamp (`not_editSurvives`).

The proof follows the group's row along the interleaved run. Of the pass it uses what its monitor
says (`writesGroups_reconcile`), of the operator's edit where it stands (`Phase`).
-/

namespace TtLedger

open LedgerStore Prog

/-! ## What the parties leave -/

/-- The group carries what the operator set; what was not given is as it was. -/
structure Attributed (attribution : Attribution) (tg₀ tg : TradeGroupRow) : Prop where
  strategyId : tg.strategyId = (attribution.strategy <|> tg₀.strategyId)
  botName : tg.botName = (attribution.bot <|> tg₀.botName)
  signalId : tg.signalId = (attribution.signal <|> tg₀.signalId)
  strategyType : ∀ t, attribution.strategyType = some t → tg.strategyType = some t
  manuallyAttributed : tg.manuallyAttributed = true
  reviewStatus : tg.reviewStatus = .confirmed
  reviewedBy : tg.reviewedBy = some attribution.reviewedBy

/-- The lifecycle columns are the same. -/
structure SameLifecycle (row tg : TradeGroupRow) : Prop where
  status : tg.status = row.status
  closedAt : tg.closedAt = row.closedAt
  realizedPnl : tg.realizedPnl = row.realizedPnl
  totalFees : tg.totalFees = row.totalFees

/-- The row of the group a call of the first party writes. -/
def writtenRow (groupId : String) : Party × LedgerOp → Option TradeGroupRow
  | (.first, .upsertTradeGroup row) => if row.groupId = groupId then some row else none
  | _ => none

/-- The row of the group the first party wrote last. -/
def lastWritten (groupId : String) (tr : List (Party × LedgerOp)) : Option TradeGroupRow :=
  (tr.filterMap (writtenRow groupId)).getLast?

theorem lastWritten_cons (groupId : String) (e : Party × LedgerOp) (tr : List (Party × LedgerOp))
    (last : Option TradeGroupRow) :
    (lastWritten groupId (e :: tr) <|> last) =
      (lastWritten groupId tr <|> (writtenRow groupId e <|> last)) := by
  unfold lastWritten
  cases he : writtenRow groupId e with
  | none => simp [he]
  | some row =>
    rw [List.filterMap_cons_some he, List.getLast?_cons]
    cases (tr.filterMap (writtenRow groupId)).getLast? <;> rfl

/-- What was written since it was read: the group since the first party read it (`pass`), and since
the second did (`edit`). -/
structure Stale where
  pass : Bool := false
  edit : Bool := false

/-- A read of the group is fresh, a write makes the other party's stale. -/
def Stale.after (groupId : String) (pk : ℕ) (stale : Stale) : Party × LedgerOp → Stale
  | (.first, .getTradeGroupById pk') => if pk' = pk then { stale with pass := false } else stale
  | (.first, .upsertTradeGroup row) =>
    if row.groupId = groupId then { stale with edit := true } else stale
  | (.second, .getTradeGroup groupId') =>
    if groupId' = groupId then { stale with edit := false } else stale
  | (.second, .upsertTradeGroup row) =>
    if row.groupId = groupId then { stale with pass := true } else stale
  | _ => stale

/-- The call does not write the group over what its party has not read. -/
def Stale.permits (groupId : String) (stale : Stale) : Party × LedgerOp → Bool
  | (.first, .upsertTradeGroup row) => row.groupId ≠ groupId || !stale.pass
  | (.second, .upsertTradeGroup row) => row.groupId ≠ groupId || !stale.edit
  | _ => true

/-- No write of the group by one party falls between the other's last read of it and its write. -/
def Uncrossed (groupId : String) (pk : ℕ) : Stale → List (Party × LedgerOp) → Bool
  | _, [] => true
  | stale, e :: tr => stale.permits groupId e && Uncrossed groupId pk (stale.after groupId pk e) tr

/-! ## Where the operator's edit stands -/

/-- The edit, once the group's row is written. -/
def remapRest (attribution : Attribution) (updated : TradeGroupRow) (at_ : Datetime)
    (groupPk : ℕ) : LedgerProg TradeGroupRow := do
  match attribution.strategy with
  | some strategy => cascadeStrategy strategy groupPk updated
  | none => pure ()
  addTradeGroupEvent (adjustment groupPk at_ ("remapped by " ++ attribution.reviewedBy))
  pure updated

/-- The edit, once the group's row and the clock are read. -/
def remapWrite (attribution : Attribution) (tg : TradeGroupRow) (at_ : Datetime) :
    LedgerProg TradeGroupRow :=
  upsertTradeGroup (remapped tg attribution at_) >>=
    remapRest attribution (remapped tg attribution at_) at_

theorem remapTradeGroup_eq (groupId : String) (attribution : Attribution) :
    remapTradeGroup groupId attribution = getTradeGroup groupId >>= fun tg? =>
      match tg? with
      | none => .raise ("trade group " ++ quoted groupId ++ " not found")
      | some tg => now >>= remapWrite attribution tg := rfl

theorem calls_remapRest (attribution : Attribution) (updated : TradeGroupRow) (at_ : Datetime)
    (groupPk : ℕ) :
    (remapRest attribution updated at_ groupPk).Calls fun op =>
      ∀ row, op ≠ .upsertTradeGroup row := by
  have hevent : ∀ ev, (addTradeGroupEvent ev >>= fun _ => pure updated).Calls fun op =>
      ∀ row, op ≠ .upsertTradeGroup row := fun ev =>
    Calls.bind (Calls.invoke.mpr (by simp)) fun _ => Calls.pure _
  unfold remapRest
  split
  · rename_i strategy _
    refine Calls.bind ?_ fun _ => hevent _
    refine Calls.bind (Calls.invoke.mpr (by simp)) fun orders => ?_
    have hposition : (cascadeToPosition strategy groupPk updated).Calls fun op =>
        ∀ row, op ≠ .upsertTradeGroup row := by
      unfold cascadeToPosition
      split
      · exact Calls.pure _
      · refine Calls.bind (Calls.invoke.mpr (by simp)) fun position => ?_
        split
        · exact Calls.pure _
        · exact Calls.invoke.mpr (by simp)
    split
    · exact Calls.bind (Calls.invoke.mpr (by simp)) fun _ => hposition
    · exact hposition
  · exact hevent _

/-- How far the edit has come. -/
inductive Phase
  | idle
  /-- The row is read. -/
  | holding (tg : TradeGroupRow)
  /-- The row and the clock are read. -/
  | timed (tg : TradeGroupRow) (at_ : Datetime)
  | written

/-- The row the edit holds and has not written yet. -/
def Phase.held : Phase → Option TradeGroupRow
  | holding tg => some tg
  | timed tg _ => some tg
  | _ => none

/-- The edit of a group as a program in a phase. -/
def Phase.At (groupId : String) (attribution : Attribution) :
    Phase → LedgerProg TradeGroupRow → Prop
  | idle, q => q = remapTradeGroup groupId attribution
  | holding tg, q => q = now >>= remapWrite attribution tg
  | timed tg at_, q => q = remapWrite attribution tg at_
  | written, q => q.Calls fun op => ∀ row, op ≠ .upsertTradeGroup row

/-! ## The group's row along a run -/

/-- The columns an operator may set are as they were. -/
structure Unedited (tg₀ tg : TradeGroupRow) : Prop where
  strategyId : tg.strategyId = tg₀.strategyId
  botName : tg.botName = tg₀.botName
  signalId : tg.signalId = tg₀.signalId

section Race

variable (attribution : Attribution) (tg₀ : TradeGroupRow) (pk : ℕ)

/-- Before the edit is written nothing is edited, afterwards the group carries it. -/
def Carries : Phase → TradeGroupRow → Prop
  | .written, tg => Attributed attribution tg₀ tg
  | _, tg => Unedited tg₀ tg

/-- What holds of the group's row, of what the pass has seen and of what the edit holds. -/
structure RaceInv (phase : Phase) (seen : Seen) (stale : Stale)
    (last : Option TradeGroupRow) (s : InMemoryStore) (cur : TradeGroupRow) : Prop where
  stored : s.getTradeGroupById pk = some cur
  groupId : cur.groupId = tg₀.groupId
  carries : Carries attribution tg₀ phase cur
  lifecycle : ∀ row, last = some row → SameLifecycle row cur
  held : ∀ tg, phase.held = some tg → tg.groupId = tg₀.groupId ∧ Unedited tg₀ tg ∧
    (stale.edit = false → SameLifecycle tg cur)
  rowSeen : ∀ tg, seen.row = some tg → tg.groupId = tg₀.groupId → stale.pass = false →
    Carries attribution tg₀ phase tg
  idDrawn : ∀ id, seen.drawn = some id → id ≠ tg₀.groupId

variable {attribution tg₀ pk}

theorem SameLifecycle.refl (tg : TradeGroupRow) : SameLifecycle tg tg := ⟨rfl, rfl, rfl, rfl⟩

theorem Unedited.of_keeps {tg row : TradeGroupRow} (h : Unedited tg₀ tg)
    (hrow : KeepsAttribution tg row) : Unedited tg₀ row :=
  ⟨hrow.strategyId.trans h.strategyId, hrow.botName.trans h.botName,
    hrow.signalId.trans h.signalId⟩

/-- A row written back over one that carries the edit carries it. -/
theorem Carries.of_keeps (hset : attribution.strategyType ≠ some "") {phase : Phase}
    {tg row : TradeGroupRow} (h : Carries attribution tg₀ phase tg)
    (hrow : KeepsAttribution tg row) : Carries attribution tg₀ phase row := by
  cases phase with
  | written =>
    refine ⟨hrow.strategyId.trans h.strategyId, hrow.botName.trans h.botName,
      hrow.signalId.trans h.signalId, fun t ht => ?_, hrow.manuallyAttributed.trans
      h.manuallyAttributed, hrow.reviewStatus.trans h.reviewStatus,
      hrow.reviewedBy.trans h.reviewedBy⟩
    have htg := h.strategyType t ht
    have htruthy : truthy tg.strategyType := by
      rw [htg, truthy]
      refine decide_eq_true fun hempty => hset ?_
      rw [ht, hempty]
    rw [hrow.strategyType htruthy, htg]
  | idle => exact Unedited.of_keeps h hrow
  | holding => exact Unedited.of_keeps h hrow
  | timed => exact Unedited.of_keeps h hrow

/-- Only the write of a group changes groups. -/
theorem tradeGroups_step {op : LedgerOp} (hop : ∀ row, op ≠ .upsertTradeGroup row)
    (s : InMemoryStore) : (s.step op).2.tradeGroups = s.tradeGroups := by
  cases op with
  | upsertTradeGroup row => exact absurd rfl (hop row)
  | upsertOrders rows => exact InMemoryStore.tradeGroups_upsertOrders s rows
  | upsertTransactions rows => exact InMemoryStore.tradeGroups_upsertTransactions s rows
  | _ => rfl

/-- The group's row after a group is written. -/
theorem getTradeGroupById_upsert {s : InMemoryStore} {cur : TradeGroupRow}
    (hcur : s.getTradeGroupById pk = some cur) (row : TradeGroupRow) :
    (s.upsertTradeGroup row).2.getTradeGroupById pk =
      some (if row.groupId = cur.groupId then row else cur) := by
  have hget : (s.upsertTradeGroup row).2.getTradeGroupById pk =
      if pk = (s.upsertTradeGroup row).1 then some row else s.getTradeGroupById pk :=
    Table.get_upsert _ _ pk
  split
  · rename_i hid
    -- the row is written over the one under its identifier
    have hold : (TradeGroupRow.key row).bind s.tradeGroups.idOf = some pk := by
      rw [TradeGroupRow.key, Option.bind_some]
      exact Table.idOf_eq_some.mpr ⟨cur, Table.get_eq_some.mp hcur, by rw [TradeGroupRow.key, hid]⟩
    have hpk : (s.upsertTradeGroup row).1 = pk := by
      show (s.tradeGroups.upsert row).1 = pk
      rw [s.tradeGroups.upsert_of_old _ hold]
    rw [hget, if_pos hpk.symm]
  · rename_i hid
    rw [hget, if_neg, hcur]
    intro hpk
    rw [hpk] at hcur
    obtain ⟨k, hk, hk'⟩ := Table.getByKey_of_get_upsert hcur
    exact hid ((Option.some.inj hk).trans (Option.some.inj (Table.getByKey_eq_some.mp hk').2).symm)

variable {phase : Phase} {seen : Seen} {stale : Stale} {last : Option TradeGroupRow}
  {s s' : InMemoryStore} {cur : TradeGroupRow}

/-- A call that writes no group and is not noticed by either party. -/
theorem RaceInv.frame (h : RaceInv attribution tg₀ pk phase seen stale last s cur)
    (hs : s'.tradeGroups = s.tradeGroups) :
    RaceInv attribution tg₀ pk phase seen stale last s' cur :=
  { h with stored := by rw [InMemoryStore.getTradeGroupById, hs]; exact h.stored }

/-- The pass reads a group. -/
theorem RaceInv.read (h : RaceInv attribution tg₀ pk phase seen stale last s cur) (pk' : ℕ) :
    RaceInv attribution tg₀ pk phase
      (seen.after (.getTradeGroupById pk') (.ok (s.getTradeGroupById pk')))
      (stale.after tg₀.groupId pk (.first, .getTradeGroupById pk')) last s cur := by
  rw [Stale.after]
  cases htg : s.getTradeGroupById pk' with
  | none =>
    have hne : pk' ≠ pk := by
      rintro rfl
      rw [h.stored] at htg
      cases htg
    rw [if_neg hne]
    exact h
  | some tg =>
    refine ⟨h.stored, h.groupId, h.carries, h.lifecycle, fun tg' htg' => ?_,
      fun tg' htg' hid hfresh => ?_, h.idDrawn⟩
    · obtain ⟨hid, hedit, hlife⟩ := h.held tg' htg'
      refine ⟨hid, hedit, fun hfresh => hlife ?_⟩
      split at hfresh <;> exact hfresh
    · obtain rfl : tg = tg' := Option.some.inj htg'
      split at hfresh
      · rename_i hpk
        rw [hpk, h.stored] at htg
        rw [← Option.some.inj htg]
        exact h.carries
      · -- another group has another identifier
        rename_i hpk
        have hpair := Table.eq_of_mem_of_key (Table.get_eq_some.mp htg)
          (Table.get_eq_some.mp h.stored) (k := tg₀.groupId)
          (by rw [TradeGroupRow.key, hid]) (by rw [TradeGroupRow.key, h.groupId])
        exact absurd (congrArg Prod.fst hpair) hpk

/-- The pass draws an identifier: it is not the group's. -/
theorem RaceInv.draw (h : RaceInv attribution tg₀ pk phase seen stale last s cur) :
    RaceInv attribution tg₀ pk phase { seen with drawn := some s.freshGroupId } stale last
      s.uuid4.2 cur := by
  refine { h with stored := h.stored, idDrawn := fun id hid hsame => ?_ }
  obtain rfl := Option.some.inj hid
  have hnone := Table.idOf_eq_none.mp (freshGroupId_idOf s) _ (Table.get_eq_some.mp h.stored)
  rw [TradeGroupRow.key, h.groupId, hsame] at hnone
  exact hnone rfl

/-- The pass writes a row it may. -/
theorem RaceInv.write (h : RaceInv attribution tg₀ pk phase seen stale last s cur)
    (hset : attribution.strategyType ≠ some "") {row : TradeGroupRow}
    (hallows : seen.Allows (.upsertTradeGroup row))
    (hpermits : stale.permits tg₀.groupId (.first, .upsertTradeGroup row) = true) :
    ∃ cur', RaceInv attribution tg₀ pk phase seen
      (stale.after tg₀.groupId pk (.first, .upsertTradeGroup row))
      (writtenRow tg₀.groupId (.first, .upsertTradeGroup row) <|> last)
      (s.upsertTradeGroup row).2 cur' := by
  have hstored := getTradeGroupById_upsert h.stored row
  rw [h.groupId] at hstored
  by_cases hid : row.groupId = tg₀.groupId
  · rw [if_pos hid] at hstored
    refine ⟨row, ?_⟩
    rw [Stale.after, if_pos hid, writtenRow, if_pos hid]
    have hfresh : stale.pass = false := by simpa [Stale.permits, hid] using hpermits
    have hcarries : Carries attribution tg₀ phase row := by
      rcases hallows with ⟨tg, htg, hkeeps⟩ | hdrawn
      · exact (h.rowSeen tg htg (hkeeps.groupId.symm.trans hid) hfresh).of_keeps hset hkeeps
      · exact absurd hid (h.idDrawn _ hdrawn)
    refine ⟨hstored, hid, hcarries, fun row' hrow' => ?_, fun tg htg => ?_, h.rowSeen, h.idDrawn⟩
    · rw [← Option.some.inj hrow']
      exact .refl row
    · obtain ⟨htgid, hedit, -⟩ := h.held tg htg
      exact ⟨htgid, hedit, fun hfalse => by cases hfalse⟩
  · rw [if_neg hid] at hstored
    refine ⟨cur, ?_⟩
    rw [Stale.after, if_neg hid, writtenRow, if_neg hid]
    exact { h with stored := hstored }

/-- The edit writes the row it holds. -/
theorem RaceInv.edit {tg : TradeGroupRow} {at_ : Datetime}
    (h : RaceInv attribution tg₀ pk (.timed tg at_) seen stale last s cur)
    (hpermits : stale.permits tg₀.groupId
      (.second, .upsertTradeGroup (remapped tg attribution at_)) = true) :
    RaceInv attribution tg₀ pk .written seen
      (stale.after tg₀.groupId pk (.second, .upsertTradeGroup (remapped tg attribution at_))) last
      (s.upsertTradeGroup (remapped tg attribution at_)).2 (remapped tg attribution at_) := by
  obtain ⟨hid, hedit, hlife⟩ := h.held tg rfl
  have hid' : (remapped tg attribution at_).groupId = tg₀.groupId := hid
  have hfresh : stale.edit = false := by simpa [Stale.permits, hid'] using hpermits
  have hstored := getTradeGroupById_upsert h.stored (remapped tg attribution at_)
  rw [h.groupId, if_pos hid'] at hstored
  rw [Stale.after, if_pos hid']
  refine ⟨hstored, hid, ⟨?_, ?_, ?_, fun t ht => ?_, rfl, rfl, rfl⟩, fun row hrow => ?_,
    fun tg' htg' => (by cases htg'), fun _ _ _ hfalse => (by cases hfalse), h.idDrawn⟩
  · rw [← hedit.strategyId]
    rfl
  · rw [← hedit.botName]
    rfl
  · rw [← hedit.signalId]
    rfl
  · show (attribution.strategyType <|> tg.strategyType) = some t
    rw [ht]
    rfl
  · -- the columns held are those of the row written last
    have hheld := hlife hfresh
    have hlast := h.lifecycle row hrow
    exact ⟨hheld.status.symm.trans hlast.status, hheld.closedAt.symm.trans hlast.closedAt,
      hheld.realizedPnl.symm.trans hlast.realizedPnl, hheld.totalFees.symm.trans hlast.totalFees⟩

/-- One call of the pass. -/
theorem RaceInv.first (h : RaceInv attribution tg₀ pk phase seen stale last s cur)
    (hset : attribution.strategyType ≠ some "") {op : LedgerOp} (hallows : seen.Allows op)
    (hpermits : stale.permits tg₀.groupId (.first, op) = true) :
    ∃ cur', RaceInv attribution tg₀ pk phase (seen.after op (.ok (s.step op).1))
      (stale.after tg₀.groupId pk (.first, op)) (writtenRow tg₀.groupId (.first, op) <|> last)
      (s.step op).2 cur' := by
  cases op with
  | upsertTradeGroup row => exact h.write hset hallows hpermits
  | getTradeGroupById pk' => exact ⟨cur, h.read pk'⟩
  | uuid4 => exact ⟨cur, h.draw⟩
  | _ => exact ⟨cur, h.frame (tradeGroups_step (by simp) s)⟩

/-- One call of the edit. -/
theorem RaceInv.second (h : RaceInv attribution tg₀ pk phase seen stale last s cur)
    {op : LedgerOp} {k : Except String op.Reply → LedgerProg TradeGroupRow}
    (hat : phase.At tg₀.groupId attribution (.call op k))
    (hpermits : stale.permits tg₀.groupId (.second, op) = true) :
    ∃ phase' cur', phase'.At tg₀.groupId attribution (k (.ok (s.step op).1)) ∧
      RaceInv attribution tg₀ pk phase' seen (stale.after tg₀.groupId pk (.second, op)) last
        (s.step op).2 cur' := by
  cases phase with
  | idle =>
    rw [Phase.At, remapTradeGroup_eq, invoke_bind] at hat
    cases hat
    have hcur : s.getTradeGroup tg₀.groupId = some cur := by
      rw [← h.groupId]
      exact Table.getByKey_of_mem_values (Table.mem_values.mpr ⟨pk, h.stored⟩) rfl
    refine ⟨.holding cur, cur, ?_, ?_⟩
    · simp only [InMemoryStore.step, hcur]
      rfl
    · rw [Stale.after, if_pos rfl]
      refine ⟨h.stored, h.groupId, h.carries, h.lifecycle, fun tg htg => ?_, h.rowSeen, h.idDrawn⟩
      obtain rfl := Option.some.inj htg
      exact ⟨h.groupId, h.carries, fun _ => .refl cur⟩
  | holding tg =>
    rw [Phase.At, invoke_bind] at hat
    cases hat
    exact ⟨.timed tg s.clock, cur, rfl,
      ⟨h.stored, h.groupId, h.carries, h.lifecycle, h.held, h.rowSeen, h.idDrawn⟩⟩
  | timed tg at_ =>
    rw [Phase.At, remapWrite, invoke_bind] at hat
    cases hat
    exact ⟨.written, _, calls_remapRest _ _ _ _, h.edit hpermits⟩
  | written =>
    have hframe := h.frame (tradeGroups_step hat.1 s)
    refine ⟨.written, cur, hat.2 _, hframe.stored, hframe.groupId, hframe.carries,
      hframe.lifecycle, fun tg htg => (by cases htg), fun tg htg hid hfresh => ?_, hframe.idDrawn⟩
    refine hframe.rowSeen tg htg hid ?_
    have hop := hat.1
    cases op with
    | upsertTradeGroup row => exact absurd rfl (hop row)
    | getTradeGroup groupId' =>
      rw [Stale.after] at hfresh
      split at hfresh <;> exact hfresh
    | _ => exact hfresh

/-- **The run as a whole**: from a state in which the invariant holds, the group ends with the
edit and with the lifecycle written last. -/
theorem RaceInv.interleaved {p : LedgerProg SyncResult} {q : LedgerProg TradeGroupRow}
    {tr : List (Party × LedgerOp)} {x : Except String SyncResult} {y : Except String TradeGroupRow}
    (hrun : Interleaved memory.meaning p q s tr x y s')
    (hset : attribution.strategyType ≠ some "")
    (h : RaceInv attribution tg₀ pk phase seen stale last s cur)
    (hp : p.Obeys groupWrites seen) (hq : phase.At tg₀.groupId attribution q)
    (hun : Uncrossed tg₀.groupId pk stale tr = true) :
    ∃ tg, s'.getTradeGroupById pk = some tg ∧ tg.groupId = tg₀.groupId ∧
      Attributed attribution tg₀ tg ∧
      ∀ row, (lastWritten tg₀.groupId tr <|> last) = some row → SameLifecycle row tg := by
  induction hrun generalizing phase seen stale last cur with
  | done hx hy =>
    cases phase with
    | written => exact ⟨cur, h.stored, h.groupId, h.carries, h.lifecycle⟩
    | idle =>
      rw [Phase.At, remapTradeGroup_eq, invoke_bind] at hq
      rw [hq] at hy
      cases hy
    | holding tg =>
      rw [Phase.At, invoke_bind] at hq
      rw [hq] at hy
      cases hy
    | timed tg at_ =>
      rw [Phase.At, remapWrite, invoke_bind] at hq
      rw [hq] at hy
      cases hy
  | first hop hrest ih =>
    obtain ⟨rfl, rfl⟩ := Prod.mk.inj hop
    obtain ⟨hpermits, hun⟩ := (Bool.and_eq_true _ _).mp hun
    obtain ⟨cur', h'⟩ := h.first hset hp.1 hpermits
    obtain ⟨tg, htg, hid, hedit, hlife⟩ := ih h' (hp.2 _) hq hun
    refine ⟨tg, htg, hid, hedit, fun row hrow => hlife row ?_⟩
    rw [← lastWritten_cons]
    exact hrow
  | second hop hrest ih =>
    obtain ⟨rfl, rfl⟩ := Prod.mk.inj hop
    obtain ⟨hpermits, hun⟩ := (Bool.and_eq_true _ _).mp hun
    obtain ⟨phase', cur', hq', h'⟩ := h.second hq hpermits
    obtain ⟨tg, htg, hid, hedit, hlife⟩ := ih h' hp hq' hun
    exact ⟨tg, htg, hid, hedit, fun row hrow => hlife row hrow⟩

end Race

/-! ## The group after the race -/

/-- The group ends with what the operator set, and with the lifecycle columns that the first party
wrote last. -/
def EditSurvives (groupId : String) (attribution : Attribution) (tg₀ : TradeGroupRow)
    (tr : List (Party × LedgerOp)) (s' : InMemoryStore) : Prop :=
  ∃ tg, s'.getTradeGroup groupId = some tg ∧ Attributed attribution tg₀ tg ∧
    ∀ row, lastWritten groupId tr = some row → SameLifecycle row tg

/-- **An edit and a pass side by side**, in any interleaving in which neither writes the group
between the other's read and write of it: what the operator set and what the pass stamped both
survive. -/
theorem editSurvives_of_uncrossed {s s' : InMemoryStore} {groupId account : String}
    {args : ReconcileArgs} {attribution : Attribution} {pk : ℕ} {tg₀ : TradeGroupRow}
    {tr : List (Party × LedgerOp)} {x : Except String SyncResult} {y : Except String TradeGroupRow}
    (hid : s.getTradeGroupId groupId = some pk) (htg : s.getTradeGroup groupId = some tg₀)
    (hset : attribution.strategyType ≠ some "")
    (hrun : Interleaved memory.meaning (reconcile (some account) args)
      (remapTradeGroup groupId attribution) s tr x y s')
    (hun : Uncrossed groupId pk {} tr = true) : EditSurvives groupId attribution tg₀ tr s' := by
  have hkey : tg₀.groupId = groupId := Option.some.inj (Table.getByKey_eq_some.mp htg).2
  have hstored : s.getTradeGroupById pk = some tg₀ := by
    obtain ⟨row, hrow, hk⟩ := Table.idOf_eq_some.mp hid
    obtain ⟨⟨i, hi⟩, hk'⟩ := Table.getByKey_eq_some.mp htg
    have hrow' : row = tg₀ := congrArg Prod.snd (Table.eq_of_mem_of_key hrow hi hk hk')
    exact Table.get_eq_some.mpr (hrow' ▸ hrow)
  subst hkey
  have hinv : RaceInv attribution tg₀ pk .idle {} {} none s tg₀ :=
    ⟨hstored, rfl, ⟨rfl, rfl, rfl⟩, fun _ hrow => (by cases hrow), fun _ htg => (by cases htg),
      fun _ htg => (by cases htg), fun _ hid => (by cases hid)⟩
  obtain ⟨tg, htg', hid', hedit, hlife⟩ :=
    hinv.interleaved hrun hset (writesGroups_reconcile (some account) args {}) rfl hun
  refine ⟨tg, ?_, hedit, fun row hrow => hlife row ?_⟩
  · rw [← hid']
    exact Table.getByKey_of_mem_values (Table.mem_values.mpr ⟨pk, htg'⟩) rfl
  · rw [hrow]
    rfl

/-- A ledger with one open group whose two trades have closed it. -/
def closedUnstamped : InMemoryStore :=
  let fills :=
    [{ TxnRow.fill "A" "t1" "o1" "Buy to Open" "X" 1 0 with tradeGroupId := some 1 },
      { TxnRow.fill "A" "t2" "o2" "Sell to Close" "X" 1 day with tradeGroupId := some 1 }]
  let s := InMemoryStore.seeded [{ securityId := "X", productType := "E" }]
    [.placed "A" "o1", .placed "A" "o2"] fills
  (s.upsertTradeGroup { groupId := "g", account := "A", origin := .broker }).2

/-- An operator gives the group a strategy. -/
def strategyEdit : Attribution where
  strategy := some 7
  reviewedBy := "operator"

/-- The pass and the edit, by a schedule. -/
def editRace (sched : List Party) :
    List (Party × LedgerOp) × Except String SyncResult × Except String TradeGroupRow ×
      InMemoryStore :=
  interleave memory sched (reconcile (some "A") {}) (remapTradeGroup "g" strategyEdit)
    closedUnstamped

/-- The operator reads and writes the group in the middle of the pass, call by call in turn with it;
the pass reads the group after that, and stamps it before the edit ends. -/
def inTurn : List Party :=
  List.replicate 12 .first ++
    [.second, .first, .second, .second, .first, .second, .first, .first, .first]

/-- Both survive. -/
theorem editSurvives_inTurn :
    ∃ tg₀, EditSurvives "g" strategyEdit tg₀ (editRace inTurn).1 (editRace inTurn).2.2.2 := by
  have hrow : (closedUnstamped.getTradeGroup "g").isSome = true := by decide +kernel
  obtain ⟨tg₀, htg⟩ := Option.isSome_iff_exists.mp hrow
  have hpk : closedUnstamped.getTradeGroupId "g" = some 1 := by decide +kernel
  exact ⟨tg₀, editSurvives_of_uncrossed hpk htg (by decide)
    (interleaved_interleave memory inTurn _ _ _) (by decide +kernel)⟩

/-- The operator reads the group, the pass stamps it, the operator writes it back. -/
theorem not_editSurvives :
    ¬ ∀ (s s' : InMemoryStore) (groupId account : String) (args : ReconcileArgs)
      (attribution : Attribution) (tg₀ : TradeGroupRow) (tr : List (Party × LedgerOp))
      (x : Except String SyncResult) (y : Except String TradeGroupRow),
      s.getTradeGroup groupId = some tg₀ → tg₀.account = account →
      Interleaved memory.meaning (reconcile (some account) args)
        (remapTradeGroup groupId attribution) s tr x y s' →
      EditSurvives groupId attribution tg₀ tr s' := by
  intro h
  have hrow : (closedUnstamped.getTradeGroup "g").map TradeGroupRow.account = some "A" := by
    decide +kernel
  obtain ⟨tg₀, htg, hacc⟩ := Option.map_eq_some_iff.mp hrow
  obtain ⟨tg, htg', -, hlife⟩ := h closedUnstamped _ "g" "A" {} strategyEdit tg₀ _ _ _ htg hacc
    (interleaved_interleave memory [.second, .second] _ _ _)
  have hafter : ((editRace [.second, .second]).2.2.2.getTradeGroup "g").map TradeGroupRow.status =
      some .open := by decide +kernel
  have hlast : (lastWritten "g" (editRace [.second, .second]).1).map TradeGroupRow.status =
      some .closed := by decide +kernel
  obtain ⟨row, hwritten, hclosed⟩ := Option.map_eq_some_iff.mp hlast
  obtain ⟨tg', htg'', hopen⟩ := Option.map_eq_some_iff.mp hafter
  have hsame : tg' = tg := Option.some.inj (htg''.symm.trans htg')
  have hstatus := (hlife row hwritten).status
  rw [← hsame, hopen, hclosed] at hstatus
  cases hstatus

end TtLedger
