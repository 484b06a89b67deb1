import TtLedger.Ingest.LotMoves
import TtLedger.Ingest.RebuildAccount

/-!
# What a rebuild writes

A rebuild of an account upserts, for each of its securities, the position the walk ends with and
the lifecycles it completes, and changes nothing else but the links of transactions (`Rebuilt`,
`run_rebuildForAccount`). What it writes is a function of the
account's rows without their links and of the securities (`lifecycles`, `replayedPosition`). The
same holds on either store (`Rebuilds`), for the order in which it returns the rows.
-/

namespace TtLedger

open LedgerStore

/-! ## Both stores -/

/-- Selecting the row with the key and updating or inserting it is the upsert on that key. -/
theorem SqlLedgerStore.upsertClosedPosition_eq :
    SqlLedgerStore.upsertClosedPosition = InMemoryStore.upsertClosedPosition := by
  funext s row
  unfold SqlLedgerStore.upsertClosedPosition InMemoryStore.upsertClosedPosition
  split
  · rename_i p hp
    have hmatch := List.find?_some hp
    simp only [decide_eq_true_eq] at hmatch
    obtain ⟨haccount, hsecurity, hopened, hclosed⟩ := hmatch
    have hid : row.key.bind s.closedPositions.idOf = some p.1 := by
      rw [ClosedPositionRow.key, Option.bind_some]
      refine Table.idOf_eq_some.mpr ⟨p.2, List.mem_of_find?_eq_some hp, ?_⟩
      rw [ClosedPositionRow.key, haccount, hsecurity, hopened, hclosed]
    simp only [Table.upsert_of_old _ row hid]
  · rfl

/-! ## What the walk reads -/

/-- A row without the links that the walk does not read. -/
def TxnRow.unlinked (r : TxnRow) : TxnRow :=
  { r with
    orderLegId := none
    positionId := none
    closedPositionId := none
    tradeGroupId := none }

theorem unlinked_relink (links : List PositionLink) (r : TxnRow) :
    (InMemoryStore.relink links r).unlinked = r.unlinked := by
  unfold InMemoryStore.relink
  split <;> rfl

theorem rebuild_unlinked (account securityId : String) (multiplier : Int) (rows : List TxnRow) :
    rebuild account securityId multiplier (rows.map TxnRow.unlinked) =
      rebuild account securityId multiplier rows := by
  rw [rebuild, List.foldl_map]
  rfl

theorem sortOn_unlinked (rows : List TxnRow) :
    sortOn replayKey (rows.map TxnRow.unlinked) = (sortOn replayKey rows).map TxnRow.unlinked :=
  sortOn_map replayKey TxnRow.unlinked rows

theorem securityPlan_unlinked (account sid : String) (multiplier : Int) (expiry : Option Date)
    (last : Option Datetime) (rows : List TxnRow) (existing : Option PositionRow) :
    securityPlan account sid multiplier expiry last (rows.map TxnRow.unlinked) existing =
      securityPlan account sid multiplier expiry last rows existing := by
  unfold securityPlan replaySecurity
  rw [sortOn_unlinked, rebuild_unlinked]

theorem bySecurity_unlinked (rows : List TxnRow) :
    (bySecurity (rows.map TxnRow.unlinked)).entries =
      (bySecurity rows).entries.map fun e => (e.1, e.2.map TxnRow.unlinked) := by
  have hfilter : (rows.map TxnRow.unlinked).filter TxnRow.isReplayed =
      (rows.filter TxnRow.isReplayed).map TxnRow.unlinked := List.filter_map
  unfold bySecurity groupBy
  rw [hfilter]
  simp only [List.filterMap_map, List.map_map, List.filter_map]
  rfl

theorem latestReplayed_unlinked (rows : List TxnRow) :
    latestReplayed (rows.map TxnRow.unlinked) = latestReplayed rows := by
  unfold latestReplayed lastExecutedAt
  rw [bySecurity_unlinked, List.flatMap_map]
  simp only [← List.map_flatMap, List.filterMap_map]
  rfl

/-! ## Lifecycles and positions -/

/-- The completed lifecycles that the walk, with the lapse backstop, computes from an account's
rows, in the order they are written. -/
def lifecycles (account : String) (sec : String → Option SecurityRow) (rows : List TxnRow) :
    List ClosedPositionRow :=
  (bySecurity rows).entries.flatMap fun e =>
    closedRows (securityPlan account e.1 (multiplierOf (sec e.1))
      ((sec e.1).bind SecurityRow.expiry) (latestReplayed rows) e.2 none).2

/-- An account's rows in one security that move its lot. -/
def replayedRows (rows : List TxnRow) (sid : String) : List TxnRow :=
  (rows.filter TxnRow.isReplayed).filter fun r => r.securityId = some sid

/-- The position of a security after the walk. -/
def replayedPosition (account : String) (sec : String → Option SecurityRow) (rows : List TxnRow)
    (sid : String) (existing : Option PositionRow) : PositionRow :=
  (securityPlan account sid (multiplierOf (sec sid)) ((sec sid).bind SecurityRow.expiry)
    (latestReplayed rows) (replayedRows rows sid) existing).1

theorem lifecycles_unlinked (account : String) (sec : String → Option SecurityRow)
    (rows : List TxnRow) :
    lifecycles account sec (rows.map TxnRow.unlinked) = lifecycles account sec rows := by
  unfold lifecycles
  rw [bySecurity_unlinked, List.flatMap_map, latestReplayed_unlinked]
  simp only [securityPlan_unlinked]

theorem replayedRows_unlinked (rows : List TxnRow) (sid : String) :
    replayedRows (rows.map TxnRow.unlinked) sid = (replayedRows rows sid).map TxnRow.unlinked := by
  unfold replayedRows
  rw [List.filter_map, List.filter_map]
  rfl

theorem replayedPosition_unlinked (account : String) (sec : String → Option SecurityRow)
    (rows : List TxnRow) (sid : String) (existing : Option PositionRow) :
    replayedPosition account sec (rows.map TxnRow.unlinked) sid existing =
      replayedPosition account sec rows sid existing := by
  unfold replayedPosition
  rw [replayedRows_unlinked, latestReplayed_unlinked, securityPlan_unlinked]

theorem mem_bySecurity {rows : List TxnRow} {e : String × List TxnRow} :
    e ∈ (bySecurity rows).entries ↔ e.2 = replayedRows rows e.1 ∧ replayedRows rows e.1 ≠ [] := by
  obtain ⟨sid, vs⟩ := e
  rw [bySecurity, mem_groupBy_iff, and_comm]
  refine and_congr_right fun _ => ?_
  rw [Ne, replayedRows, List.filter_eq_nil_iff]
  simp [and_assoc]

section Plan

variable (account sid : String) (multiplier : Int) (expiry : Option Date)
  (last : Option Datetime) (rows : List TxnRow)

/-- What lapses does not depend on the position stored before. -/
theorem lapsesLot_replaySecurity (existing : Option PositionRow) (rows : List TxnRow) :
    lapsesLot (replaySecurity account sid rows multiplier existing).1 expiry last =
      lapsesLot (replaySecurity account sid rows multiplier none).1 expiry last := rfl

/-- The plan does not depend on the position stored before. -/
theorem securityPlan_plan (existing : Option PositionRow) :
    (securityPlan account sid multiplier expiry last rows existing).2 =
      (securityPlan account sid multiplier expiry last rows none).2 := by
  unfold securityPlan lapseExpiredLot
  simp only [lapsesLot_replaySecurity _ _ _ _ _ existing]
  split <;> rfl

/-- The key of a security's position. -/
theorem securityPlan_key (existing : Option PositionRow) :
    (securityPlan account sid multiplier expiry last rows existing).1.key =
      some (account, sid) := by
  unfold securityPlan lapseExpiredLot
  simp only [replaySecurity]
  split <;> rfl

end Plan

section Walk

variable (account sid : String) {multiplier : Int}

/-- A lifecycle of an account in a security, not in a group yet. -/
structure ClosedPositionRow.IsLifecycle (c : ClosedPositionRow) : Prop where
  account : c.account = account
  security : c.securityId = sid
  group : c.tradeGroupId = none

variable {account sid}

theorem isLifecycle_rebuild (rows : List TxnRow) :
    ∀ w : Rebuild, (∀ c ∈ closedRows w.plan, c.IsLifecycle account sid) →
      ∀ c ∈ closedRows (rows.foldl (rebuildStep account sid multiplier) w).plan,
        c.IsLifecycle account sid := by
  induction rows with
  | nil => exact fun w hw => hw
  | cons r rows ih =>
    intro w hw
    refine ih _ fun c hc => ?_
    unfold rebuildStep at hc
    cases happ : appliedBy w r with
    | none =>
      rw [happ] at hc
      exact hw c (by simpa using hc)
    | some dp =>
      rw [happ] at hc
      rcases closedRows_applyDelta account sid multiplier w r dp.1 dp.2 with h | h
      · exact hw c (h ▸ hc)
      · rw [h, List.mem_append, List.mem_singleton] at hc
        rcases hc with hc | rfl
        · exact hw c hc
        · exact ⟨rfl, rfl, rfl⟩

end Walk

theorem isLifecycle_securityPlan {account sid : String} {multiplier : Int}
    {expiry : Option Date} {last : Option Datetime} {rows : List TxnRow}
    {existing : Option PositionRow} {c : ClosedPositionRow}
    (hc : c ∈ closedRows (securityPlan account sid multiplier expiry last rows existing).2) :
    c.IsLifecycle account sid := by
  have hwalk : ∀ c ∈ closedRows (rebuild account sid multiplier (sortOn replayKey rows)).plan,
      c.IsLifecycle account sid :=
    isLifecycle_rebuild (sortOn replayKey rows) {} (by simp [closedRows])
  unfold securityPlan lapseExpiredLot at hc
  simp only [] at hc
  split at hc
  · exact hwalk c hc
  · rw [closedRows, List.filterMap_append] at hc
    rcases List.mem_append.mp hc with hc | hc
    · exact hwalk c hc
    · rw [List.filterMap_cons, List.filterMap_nil] at hc
      rw [List.mem_singleton.mp hc]
      exact ⟨rfl, rfl, rfl⟩

theorem isLifecycle_of_mem_lifecycles {account : String} {sec : String → Option SecurityRow}
    {rows : List TxnRow} {c : ClosedPositionRow} (hc : c ∈ lifecycles account sec rows) :
    ∃ sid, c.IsLifecycle account sid := by
  obtain ⟨e, -, hc⟩ := List.mem_flatMap.mp hc
  exact ⟨e.1, isLifecycle_securityPlan hc⟩

theorem account_of_mem_lifecycles {account : String} {sec : String → Option SecurityRow}
    {rows : List TxnRow} {c : ClosedPositionRow} (hc : c ∈ lifecycles account sec rows) :
    c.account = account := by
  obtain ⟨sid, hc⟩ := isLifecycle_of_mem_lifecycles hc
  exact hc.account

/-! ## What a rebuild changes -/

/-- The transactions of an account. -/
def InMemoryStore.accountRows (s : InMemoryStore) (account : String) : List TxnRow :=
  s.transactions.values.filter fun txn => txn.account = account

/-- What an account's rebuild reads, but for its positions and lifecycles, is the same. -/
structure SameReading (s s' : InMemoryStore) : Prop where
  securities : s'.securities = s.securities
  unlinked : s'.transactions.values.map TxnRow.unlinked =
    s.transactions.values.map TxnRow.unlinked

namespace SameReading

variable {s s' s'' : InMemoryStore}

theorem refl (s : InMemoryStore) : SameReading s s := ⟨rfl, rfl⟩

theorem trans (h : SameReading s s') (h' : SameReading s' s'') : SameReading s s'' :=
  ⟨h'.securities.trans h.securities, h'.unlinked.trans h.unlinked⟩

theorem getSecurity (h : SameReading s s') : s'.getSecurity = s.getSecurity := by
  unfold InMemoryStore.getSecurity
  rw [h.securities]

theorem accountRows (h : SameReading s s') (account : String) :
    (s'.accountRows account).map TxnRow.unlinked =
      (s.accountRows account).map TxnRow.unlinked := by
  have hfilter : ∀ s : InMemoryStore, (s.accountRows account).map TxnRow.unlinked =
      (s.transactions.values.map TxnRow.unlinked).filter fun txn => txn.account = account :=
    fun s => by
      rw [List.filter_map]
      rfl
  rw [hfilter, hfilter, h.unlinked]

theorem lifecycles (h : SameReading s s') (account : String) :
    TtLedger.lifecycles account s'.getSecurity (s'.accountRows account) =
      TtLedger.lifecycles account s.getSecurity (s.accountRows account) := by
  rw [← lifecycles_unlinked, h.accountRows, lifecycles_unlinked, h.getSecurity]

theorem replayedPosition (h : SameReading s s') (account sid : String)
    (existing : Option PositionRow) :
    TtLedger.replayedPosition account s'.getSecurity (s'.accountRows account) sid existing =
      TtLedger.replayedPosition account s.getSecurity (s.accountRows account) sid existing := by
  rw [← replayedPosition_unlinked, h.accountRows, replayedPosition_unlinked, h.getSecurity]

theorem replayedRows_eq_nil (h : SameReading s s') (account sid : String) :
    replayedRows (s'.accountRows account) sid = [] ↔
      replayedRows (s.accountRows account) sid = [] := by
  rw [← List.map_eq_nil_iff (f := TxnRow.unlinked), ← replayedRows_unlinked, h.accountRows,
    replayedRows_unlinked, List.map_eq_nil_iff]

end SameReading

/-- The other calls of a rebuild: look-ups, and the links of transactions. -/
def LedgerOp.IsRebuildRead : LedgerOp → Prop
  | getSecurity _ | getPosition _ _ | getPositionId _ _ | linkTransactionsToPositions _ => True
  | _ => False

/-- A store on which a rebuild runs as on the in-memory one, but for what the columns hold and the
order in which it returns an account's rows. -/
structure Rebuilds (h : Prog.Handler LedgerOp LedgerOp.Reply String InMemoryStore)
    (money : MoneyColumn) (scan : List ActivityRow → List ActivityRow) : Prop where
  activity : ∀ f s, h (.accountActivity f) s = (.ok (scan (s.accountActivity f)), s)
  position : ∀ row s, h (.upsertPositions [row]) s = memory (.upsertPositions [row.heldIn money]) s
  closed : ∀ row s,
    h (.upsertClosedPosition row) s = memory (.upsertClosedPosition (row.heldIn money)) s
  others : ∀ op s, op.IsRebuildRead → h op s = memory op s

theorem rebuilds_memory : Rebuilds memory .exact id :=
  ⟨fun _ _ => rfl, fun _ _ => by rw [PositionRow.heldIn_exact],
    fun _ _ => by rw [ClosedPositionRow.heldIn_exact], fun _ _ _ => rfl⟩

theorem rebuilds_sql (money : MoneyColumn) (scan : List ActivityRow → List ActivityRow) :
    Rebuilds (SqlLedgerStore.handler money scan) money scan := by
  refine ⟨fun _ _ => rfl, fun _ _ => rfl, fun row s => ?_, fun op s hop => ?_⟩
  · rw [SqlLedgerStore.handler, SqlLedgerStore.upsertClosedPosition_eq]
    rfl
  · cases op <;> first | rfl | exact hop.elim

section Run

variable {h : Prog.Handler LedgerOp LedgerOp.Reply String InMemoryStore}
  {money : MoneyColumn} {scan : List ActivityRow → List ActivityRow}
  (hh : Rebuilds h money scan)

include hh

/-- The calls that write nothing but links. -/
theorem Rebuilds.run_issue (op : LedgerOp) (s : InMemoryStore) (hop : op.IsRebuildRead) :
    Prog.run h (issue op) s = (.ok (s.step op).1, (s.step op).2) := by
  rw [Prog.run_invoke, hh.others op s hop]
  rfl

theorem run_writeEntries (positionId : Option ℕ) (plan : List PlanEntry)
    (links : List PositionLink) (s : InMemoryStore) :
    ∃ links', Prog.run h (plan.foldlM (writeEntry positionId) links) s =
      (.ok links', { s with
        closedPositions := s.closedPositions.upsertAll
          ((closedRows plan).map (ClosedPositionRow.heldIn money)) }) := by
  induction plan generalizing links s with
  | nil => exact ⟨links, rfl⟩
  | cons entry plan ih =>
    rw [List.foldlM_cons]
    unfold writeEntry
    cases hentry : entry.closedRow with
    | none =>
      have hclosed : closedRows (entry :: plan) = closedRows plan := by simp [closedRows, hentry]
      rw [hclosed]
      exact ih _ s
    | some row =>
      have hclosed : closedRows (entry :: plan) = row :: closedRows plan := by
        simp [closedRows, hentry]
      have hwrite : Prog.run h (issue (.upsertClosedPosition row)) s =
          (.ok (s.upsertClosedPosition (row.heldIn money)).1,
            (s.upsertClosedPosition (row.heldIn money)).2) := by
        rw [Prog.run_invoke, hh.closed row s]
        rfl
      obtain ⟨links', hrun⟩ := ih (links ++ [⟨entry.ttTransactionId,
        if entry.marksOpen then positionId else none,
        some (s.upsertClosedPosition (row.heldIn money)).1⟩])
        (s.upsertClosedPosition (row.heldIn money)).2
      refine ⟨links', ?_⟩
      rw [hclosed, bind_assoc, Prog.run_bind_of_ok h hwrite]
      exact hrun

variable (account : String) (last : Option Datetime)

/-- The position and the plan of one security on a store. -/
abbrev storedPlan (s : InMemoryStore) (e : String × List TxnRow) : PositionRow × List PlanEntry :=
  securityPlan account e.1 (multiplierOf (s.getSecurity e.1))
    ((s.getSecurity e.1).bind SecurityRow.expiry) last e.2 (s.getPosition account e.1)

/-- One security of a rebuild. -/
theorem run_rebuildSecurity (s : InMemoryStore) (e : String × List TxnRow) :
    ∃ s', Prog.run h (rebuildSecurity account last e) s = (.ok (), s') ∧
      s'.positions = (s.positions.upsert ((storedPlan account last s e).1.heldIn money)).2 ∧
      s'.closedPositions = s.closedPositions.upsertAll
        ((closedRows (storedPlan account last s e).2).map (ClosedPositionRow.heldIn money)) ∧
      SameReading s s' := by
  let row := (storedPlan account last s e).1.heldIn money
  obtain ⟨links, hlinks⟩ := run_writeEntries hh
    ((s.upsertPositions [row]).getPositionId account e.1)
    (storedPlan account last s e).2 [] (s.upsertPositions [row])
  have hmultiplier : Prog.run h (multiplierOf <$> getSecurity e.1) s =
      (.ok (multiplierOf (s.getSecurity e.1)), s) := by
    rw [Prog.run_map, hh.run_issue (.getSecurity e.1) s trivial]
    rfl
  have hsec := hh.run_issue (.getSecurity e.1) s trivial
  have hexisting := hh.run_issue (.getPosition account e.1) s trivial
  have hwrite : Prog.run h (issue (.upsertPositions [(storedPlan account last s e).1])) s =
      (.ok (), s.upsertPositions [row]) := by
    rw [Prog.run_invoke, hh.position]
    rfl
  have hid := hh.run_issue (.getPositionId account e.1) (s.upsertPositions [row]) trivial
  let written : InMemoryStore :=
    { s.upsertPositions [row] with
      closedPositions := s.closedPositions.upsertAll
        ((closedRows (storedPlan account last s e).2).map (ClosedPositionRow.heldIn money)) }
  refine ⟨(written.linkTransactionsToPositions links).2, ?_, rfl, rfl, rfl, ?_⟩
  · unfold rebuildSecurity
    refine (Prog.run_bind_of_ok h hmultiplier).trans ((Prog.run_bind_of_ok h hsec).trans
      ((Prog.run_bind_of_ok h hexisting).trans ((Prog.run_bind_of_ok h hwrite).trans
        ((Prog.run_bind_of_ok h hid).trans ((Prog.run_bind_of_ok h hlinks).trans ?_)))))
    exact Prog.run_bind_of_ok h (hh.run_issue (.linkTransactionsToPositions links) _ trivial)
  · simp only [InMemoryStore.linkTransactionsToPositions, Table.values_modify, List.map_map]
    exact List.map_congr_left fun txn _ => unlinked_relink _ txn

/-- What rebuilding the securities of `entries` leaves. -/
structure RebuiltBy (money : MoneyColumn) (entries : List (String × List TxnRow))
    (s s' : InMemoryStore) : Prop extends SameReading s s' where
  closed : s'.closedPositions = s.closedPositions.upsertAll
    (entries.flatMap fun e =>
      (closedRows (storedPlan account last s e).2).map (ClosedPositionRow.heldIn money))
  rebuilt : ∀ e ∈ entries,
    s'.getPosition account e.1 = some ((storedPlan account last s e).1.heldIn money)
  others : ∀ account' sid, (account' = account → ∀ e ∈ entries, e.1 ≠ sid) →
    s'.getPosition account' sid = s.getPosition account' sid

/-- The securities of a rebuild, one after the other. -/
theorem run_rebuildSecurities (entries : List (String × List TxnRow))
    (hnodup : (entries.map Prod.fst).Nodup) (s : InMemoryStore) :
    ∃ s', Prog.run h (entries.forM (rebuildSecurity account last)) s = (.ok (), s') ∧
      RebuiltBy account last money entries s s' := by
  induction entries generalizing s with
  | nil =>
    exact ⟨s, rfl, SameReading.refl s, rfl, fun _ he => (by cases he), fun _ _ _ => rfl⟩
  | cons e entries ih =>
    obtain ⟨hnot, hnodup⟩ := List.nodup_cons.mp hnodup
    obtain ⟨s₁, hrun, hpos, hclosed, hsame⟩ := run_rebuildSecurity hh account last s e
    obtain ⟨s₂, hrun', hsame', hclosed', hrebuilt, hothers⟩ := ih hnodup s₁
    have hkey : ((storedPlan account last s e).1.heldIn money).key = some (account, e.1) :=
      securityPlan_key ..
    have hget : ∀ account' sid, s₁.getPosition account' sid =
        if (account', sid) = (account, e.1) then
          some ((storedPlan account last s e).1.heldIn money)
        else s.getPosition account' sid := by
      intro account' sid
      rw [InMemoryStore.getPosition, hpos, Table.getByKey_upsert _ _ hkey]
      rfl
    -- the later securities have other positions
    have hplan : ∀ e' ∈ entries, storedPlan account last s₁ e' = storedPlan account last s e' := by
      intro e' he'
      have hne : (account, e'.1) ≠ (account, e.1) :=
        fun heq => hnot (List.mem_map.mpr ⟨e', he', (Prod.mk.inj heq).2⟩)
      rw [storedPlan, hsame.getSecurity, hget, if_neg hne]
    refine ⟨s₂, (Prog.run_bind_of_ok h hrun).trans hrun', hsame.trans hsame', ?_, ?_, ?_⟩
    · rw [hclosed', hclosed, List.flatMap_cons, Table.upsertAll_append]
      congr 1
      exact List.flatMap_congr fun e' he' => by rw [hplan e' he']
    · intro e' he'
      rcases List.mem_cons.mp he' with rfl | he'
      · rw [hothers account e'.1 fun _ e'' he'' heq => hnot (List.mem_map.mpr ⟨e'', he'', heq⟩),
          hget, if_pos rfl]
      · rw [hrebuilt e' he', hplan e' he']
    · intro account' sid hsid
      rw [hothers account' sid fun ha e' he' => hsid ha e' (by simp [he']), hget, if_neg]
      intro heq
      obtain ⟨ha, hs⟩ := Prod.mk.inj heq
      exact hsid ha e (by simp) hs.symm

end Run

/-! ## One account -/

section Account

variable {h : Prog.Handler LedgerOp LedgerOp.Reply String InMemoryStore}
  {money : MoneyColumn} {scan : List ActivityRow → List ActivityRow}

/-- The account's rows in the order a store returns them. -/
def scannedRows (scan : List ActivityRow → List ActivityRow) (s : InMemoryStore)
    (account : String) : List TxnRow :=
  (scan (s.accountActivity { account := some account })).map ActivityRow.toTxnRow

theorem scannedRows_id (s : InMemoryStore) (account : String) :
    scannedRows id s account = s.accountRows account := s.toTxnRow_accountActivity account

/-- What a rebuild of an account leaves, as the columns hold it. -/
structure Rebuilt (money : MoneyColumn) (rows : List TxnRow) (account : String)
    (s s' : InMemoryStore) : Prop extends SameReading s s' where
  closed : s'.closedPositions = s.closedPositions.upsertAll
    ((lifecycles account s.getSecurity rows).map (ClosedPositionRow.heldIn money))
  position : ∀ sid, replayedRows rows sid ≠ [] → s'.getPosition account sid =
    some ((replayedPosition account s.getSecurity rows sid (s.getPosition account sid)).heldIn
      money)
  others : ∀ account' sid, (account' = account → replayedRows rows sid = []) →
    s'.getPosition account' sid = s.getPosition account' sid

/-- **A rebuild** upserts the account's lifecycles and the positions of its securities. -/
theorem run_rebuildForAccount (hh : Rebuilds h money scan) (s : InMemoryStore) (account : String) :
    ∃ n s', Prog.run h (rebuildForAccount account) s = (.ok n, s') ∧
      Rebuilt money (scannedRows scan s account) account s s' := by
  have hactivity : Prog.run h (accountActivity { account := some account }) s =
      (.ok (scan (s.accountActivity { account := some account })), s) := by
    rw [Prog.run_invoke, hh.activity]
  obtain ⟨s', hrun, hsame, hclosed, hrebuilt, hothers⟩ := run_rebuildSecurities hh account
    (latestReplayed (scannedRows scan s account)) (bySecurity (scannedRows scan s account)).entries
    (bySecurity (scannedRows scan s account)).keys_nodup s
  refine ⟨(bySecurity (scannedRows scan s account)).entries.length, s', ?_, hsame, ?_,
    fun sid hne => ?_, fun account' sid hnil => hothers account' sid fun ha e he heq => ?_⟩
  · unfold rebuildForAccount
    rw [Prog.run_bind_of_ok h hactivity]
    exact (Prog.run_bind_of_ok h hrun).trans rfl
  · rw [hclosed, lifecycles, List.map_flatMap]
    simp only [securityPlan_plan]
  · exact hrebuilt (sid, replayedRows (scannedRows scan s account) sid)
      (mem_bySecurity.mpr ⟨rfl, hne⟩)
  · exact (mem_bySecurity.mp he).2 (heq ▸ hnil ha)

end Account

/-- The store after rebuilding an account. -/
def rebuilt (s : InMemoryStore) (account : String) : InMemoryStore :=
  (exec (rebuildForAccount account) s).2

theorem rebuilt_spec (s : InMemoryStore) (account : String) :
    Rebuilt .exact (s.accountRows account) account s (rebuilt s account) := by
  obtain ⟨n, s', hrun, hs'⟩ := run_rebuildForAccount rebuilds_memory s account
  rw [rebuilt, exec, hrun]
  rwa [scannedRows_id] at hs'

end TtLedger
