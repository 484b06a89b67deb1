import TtLedger.Ingest.PassLaws
import TtLedger.Ingest.Remap

/-!
# Attribution

Which transactions a pass re-attributes. Links, routing and healing change the group of
ungrouped rows only; the lapse step writes each settlement row due under a fixed identifier and
with the group it settles, over whatever group the transaction under that identifier has. So a
pass keeps every group a transaction has if and only if no settlement due is written over a
transaction in another group, or the pass stops before it writes any
(`reconcile_keepsGroups_iff`).
-/

namespace TtLedger

variable (s : InMemoryStore) (account : String) (args : ReconcileArgs)

/-- Every transaction in a group before is in that group after. -/
def KeepsGroups (s s' : InMemoryStore) : Prop :=
  ∀ id pk, s.groupOf id = some pk → s'.groupOf id = some pk

/-- A settlement is due for an open group in a security it holds, by the state the pass starts
from. -/
def SettlementDue (g : OpenGroup) (sid : String) : Prop :=
  g ∈ openGroupsOf s account ∧ netIn g.rows sid ≠ 0 ∧
    ∃ sec expiry points, Lapses s account args sid sec expiry points

/-- The caller's resolver raises on a security held past its gate. -/
def ResolverRaises : Prop :=
  ∃ g ∈ openGroupsOf s account, ∃ sid, netIn g.rows sid ≠ 0 ∧ ∃ last sec expiry e,
    lastActivity s account = some last ∧ s.getSecurity sid = some sec ∧
      lapsedExpiry args last sec = some expiry ∧ settlePointsOf args sec sid expiry = .error e

/-- No settlement due has the identifier of a transaction in another group. -/
def OwnSettlements : Prop :=
  ∀ g sid, SettlementDue s account args g sid →
    ∀ pk, s.groupOf (lapseId account g.pk sid) = some pk → pk = g.pk

/-! ## When the lapse step raises -/

theorem securityLapse_error_iff {last : Datetime} {openGroups : List OpenGroup} {sid : String} :
    (∃ e, securityLapse s args account last openGroups sid = .error e) ↔
      ∃ sec expiry e, s.getSecurity sid = some sec ∧ lapsedExpiry args last sec = some expiry ∧
        settlePointsOf args sec sid expiry = .error e := by
  unfold securityLapse
  cases hsec : s.getSecurity sid with
  | none => simp
  | some sec =>
    simp only []
    cases hexp : lapsedExpiry args last sec with
    | none =>
      constructor
      · rintro ⟨e, he⟩
        cases he
      · rintro ⟨sec', expiry, e, hsec', hexp', -⟩
        obtain rfl := Option.some.inj hsec'
        rw [hexp] at hexp'
        cases hexp'
    | some expiry =>
      constructor
      · rintro ⟨e, he⟩
        cases hpoints : settlePointsOf args sec sid expiry with
        | error e' => exact ⟨sec, expiry, e', rfl, hexp, hpoints⟩
        | ok points =>
          simp only [hpoints] at he
          cases he
      · rintro ⟨sec', expiry', e, hsec', hexp', hpoints⟩
        obtain rfl := Option.some.inj hsec'
        obtain rfl := Option.some.inj (hexp.symm.trans hexp')
        exact ⟨e, by simp only [hpoints]; rfl⟩

theorem securitiesLapse_error_iff {last : Datetime} {openGroups : List OpenGroup}
    {sids : List String} :
    (∃ e, securitiesLapse s args account last openGroups sids = .error e) ↔
      ∃ sid ∈ sids, ∃ e, securityLapse s args account last openGroups sid = .error e := by
  induction sids with
  | nil =>
    constructor
    · rintro ⟨e, he⟩
      cases he
    · rintro ⟨sid, hsid, -⟩
      cases hsid
  | cons sid sids ih =>
    unfold securitiesLapse
    cases hone : securityLapse s args account last openGroups sid with
    | error e => simp [hone]
    | ok rows =>
      have hmap : (∃ e, (securitiesLapse s args account last openGroups sids).map (rows ++ ·) =
          .error e) ↔ ∃ e, securitiesLapse s args account last openGroups sids = .error e := by
        cases securitiesLapse s args account last openGroups sids <;> simp [Except.map]
      simp only [hmap, ih, List.exists_mem_cons_iff, hone, reduceCtorEq, exists_false, false_or]

/-- The lapse step raises when the resolver does. -/
theorem lapseSettlements_error_iff :
    (∃ e, lapseSettlements s account args = .error e) ↔ ResolverRaises s account args := by
  unfold lapseSettlements ResolverRaises
  cases hlast : lastActivity s account with
  | none => simp
  | some last =>
    simp only [securitiesLapse_error_iff, mem_heldSecurities]
    constructor
    · rintro ⟨sid, ⟨g, hg, hne⟩, herr⟩
      obtain ⟨sec, expiry, e, hsec, hexp, hpoints⟩ :=
        (securityLapse_error_iff s account args).mp herr
      exact ⟨g, hg, sid, hne, last, sec, expiry, e, rfl, hsec, hexp, hpoints⟩
    · rintro ⟨g, hg, sid, hne, last', sec, expiry, e, hlast', hsec, hexp, hpoints⟩
      obtain rfl := Option.some.inj hlast'
      exact ⟨sid, ⟨g, hg, hne⟩,
        (securityLapse_error_iff s account args).mpr ⟨sec, expiry, e, hsec, hexp, hpoints⟩⟩

/-! ## What each step keeps -/

/-- After a pass whose lapse step returned, a transaction in a group has the group the lapse step
left it in. -/
theorem groupOf_reconcile {rows : List TxnRow} (hdry : args.dryRun = false)
    (h : lapseSettlements (linked s account) account args = .ok rows) {id : String} {pk : ℕ}
    (hid : ((linked s account).upsertTransactions rows).groupOf id = some pk) :
    (exec (reconcile (some account) args) s).2.groupOf id = some pk := by
  obtain ⟨events, s₂, hs₂, -, hrun⟩ := exec_reconcileAccount s h
  rw [exec_reconcile_ok s rfl rfl hrun,
    groupOf_congr (transactions_healed s₂ account args.dryRun), hs₂,
    groupOf_congr (InMemoryStore.transactions_addEvents _ _)]
  have hlapsed : (lapsedState s account args rows).groupOf id = some pk := by
    rw [lapsedState, hdry, groupOf_congr (transactions_lapsed _ h), hid]
  have hroute := attaches_routeLoop (lapsedState s account args rows) account args hdry
  rw [hroute.groupOf_of_notMem, hlapsed]
  intro hmem
  rw [groupOf_candidate _ account args hmem] at hlapsed
  cases hlapsed

/-- The group of a transaction after the settlement rows are written: its own settlement's, or the
one it had. -/
theorem groupOf_upsert_due {rows : List TxnRow} (h : lapseSettlements s account args = .ok rows)
    (id : String) :
    (∃ g sid, SettlementDue s account args g sid ∧ lapseId account g.pk sid = id ∧
        ((linked s account).upsertTransactions rows).groupOf id = some g.pk) ∨
      (∀ g sid, SettlementDue s account args g sid → lapseId account g.pk sid ≠ id) ∧
        ((linked s account).upsertTransactions rows).groupOf id = s.groupOf id := by
  by_cases hmem : id ∈ rows.map TxnRow.ttTransactionId
  · left
    obtain ⟨r, hr, rfl⟩ := List.mem_map.mp hmem
    obtain ⟨g, sid, hdue⟩ := (mem_lapseSettlements s h).mp hr
    obtain ⟨hgroup, hid⟩ := due_group s hdue
    obtain ⟨hg, hne, sec, expiry, points, hl, -⟩ := hdue
    refine ⟨g, sid, ⟨hg, hne, sec, expiry, points, hl⟩, hid.symm, ?_⟩
    rw [InMemoryStore.groupOf, txn_upsertTransactions_of_mem _ (nodup_lapseSettlements s h) hr,
      Option.bind_some, written_group _ (isSome_group_of_lapse s h r hr), hgroup]
  · right
    constructor
    · rintro g sid ⟨hg, hne, sec, expiry, points, hl⟩ hid
      have hdue : Due s account args g sid
          (lapseRow account sid sec expiry points g.pk (netIn g.rows sid)) :=
        ⟨hg, hne, sec, expiry, points, hl, rfl⟩
      have hrow := (mem_lapseSettlements s h).mpr ⟨g, sid, hdue⟩
      exact hmem (hid ▸ List.mem_map_of_mem hrow)
    · rw [InMemoryStore.groupOf, txn_upsertTransactions_of_notMem _ hmem]
      exact groupOf_linked s account id

/-! ## The pass -/

/-- **A pass re-attributes nothing if and only if every settlement due is written under an
identifier of its own group**, or the resolver raises before any is written. -/
theorem reconcile_keepsGroups_iff (hdry : args.dryRun = false) :
    KeepsGroups s (exec (reconcile (some account) args) s).2 ↔
      ResolverRaises s account args ∨ OwnSettlements s account args := by
  have hlinks := lapseSettlements_linked s account account args
  cases h : lapseSettlements s account args with
  | error e =>
    have hraises := (lapseSettlements_error_iff s account args).mp ⟨e, h⟩
    refine ⟨fun _ => Or.inl hraises, fun _ id pk hid => ?_⟩
    rw [exec_reconcile_error s (hlinks.trans h), groupOf_linked, hid]
  | ok rows =>
    have hreturns : ¬ResolverRaises s account args := by
      intro hraises
      obtain ⟨e, he⟩ := (lapseSettlements_error_iff s account args).mpr hraises
      rw [h] at he
      cases he
    rw [or_iff_right hreturns]
    constructor
    · intro hkeeps g sid hdue pk hpk
      have hafter := hkeeps _ _ hpk
      rcases groupOf_upsert_due s account args h (lapseId account g.pk sid) with
        ⟨g', sid', -, hid', hgroup⟩ | ⟨hnone, -⟩
      · obtain ⟨hgg, -⟩ := lapseId_inj hid'
        rw [groupOf_reconcile s account args hdry (hlinks.trans h) hgroup, hgg] at hafter
        exact (Option.some.inj hafter).symm
      · exact absurd rfl (hnone g sid hdue)
    · intro hown id pk hid
      apply groupOf_reconcile s account args hdry (hlinks.trans h)
      rcases groupOf_upsert_due s account args h id with
        ⟨g, sid, hdue, rfl, hgroup⟩ | ⟨-, hsame⟩
      · rw [hgroup, hown g sid hdue pk hid]
      · rw [hsame, hid]

/-- A two-legged position with one leg settled by a lapse, whose settlement row an operator has
moved to a group of its own. -/
def movedSettlement : InMemoryStore :=
  let fills :=
    [TxnRow.fill "A" "t1" "o1" "Buy to Open" "X" 1 0, .fill "A" "t2" "o1" "Buy to Open" "Y" 1 0,
      .fill "A" "t3" "o2" "Buy to Open" "Y" 1 (10 * day)]
  let s := InMemoryStore.seeded
    [{ securityId := "X", productType := "E", expiry := some 0 },
      { securityId := "Y", productType := "E" }]
    [.placed "A" "o1", .placed "A" "o2"] fills
  let s := (exec (reconcile (some "A") {}) s).2
  let s := (exec (reconcile (some "A") {}) s).2
  (exec (regroupTransactions [4] none "operator") s).2

/-- The moved settlement row has a group, and no settlement due may be written over it. -/
theorem reconcile_keepsGroups_moved :
    movedSettlement.groupOf "lapse-A-1-X" = some 3 ∧ ({} : ReconcileArgs).dryRun = false ∧
      (KeepsGroups movedSettlement (exec (reconcile (some "A") {}) movedSettlement).2 ↔
        ResolverRaises movedSettlement "A" {} ∨ OwnSettlements movedSettlement "A" {}) :=
  ⟨by decide +kernel, rfl, reconcile_keepsGroups_iff movedSettlement "A" {} rfl⟩

/-- The next pass moves the settlement row back. -/
theorem reconcile_not_keepsGroups :
    ¬KeepsGroups movedSettlement (exec (reconcile (some "A") {}) movedSettlement).2 := by
  intro h
  have hbefore : movedSettlement.groupOf "lapse-A-1-X" = some 3 := by decide +kernel
  have hafter : (exec (reconcile (some "A") {}) movedSettlement).2.groupOf "lapse-A-1-X" =
      some 1 := by decide +kernel
  have := h _ _ hbefore
  rw [hafter] at this
  cases this

end TtLedger
