import TtLedger.Ingest.Detect
import TtLedger.Ingest.WalkLaws

/-!
# The detectors of stuck groups tile

A group with a net that is not zero is none whose walk is empty, so no group is in both reports.
After a pass no open group is fully closed; a group whose securities the account does not hold has
then either such a net, or nothing that entered its walk, and is in one of the two
(`detectors_tile`).
-/

namespace TtLedger

/-- A detector's program reports a group. -/
def Detects (detector : LedgerProg (List StuckGroup)) (s : InMemoryStore) (pk : ℕ) : Prop :=
  ∃ found, (exec detector s).1 = .ok found ∧ ∃ e ∈ found, e.groupPk = pk

/-- A group's position rows, of which there are some, all trade or settle, in securities that the
account does not hold. -/
structure OffTheBooks (s : InMemoryStore) (account : String) (rows : List TxnRow) : Prop where
  traded : ∃ r ∈ rows, r.isPosition = true
  kinds : ∀ r ∈ rows, r.isPosition = true → r.isNontradeClose = true ∨
    r.isMoneyMovement = false ∧
      (isOpeningAction r.action || isClosingAction r.action || isBareAction r.action) = true
  flat : ∀ r ∈ rows, r.isPosition = true →
    ((netOpenQuantities (s.accountBook account)).get? r.sid).getD 0 = 0

section Rows

variable {rows : List TxnRow}

theorem mem_orderedPositionRows {r : TxnRow} :
    r ∈ orderedPositionRows rows ↔ r ∈ rows ∧ r.isPosition = true := by
  rw [orderedPositionRows, mem_sortOn, List.mem_filter]

theorem mem_openSecurities {sid : String} : sid ∈ openSecurities rows ↔ netIn rows sid ≠ 0 := by
  simp only [openSecurities, List.mem_map, List.mem_filter, decide_eq_true_eq]
  constructor
  · rintro ⟨e, ⟨he, hne⟩, rfl⟩
    rw [netIn, Dict.get?_eq_some.mpr he]
    exact hne
  · intro hne
    cases hget : (netQuantities rows).get? sid with
    | none => simp [netIn, hget] at hne
    | some q =>
      rw [netIn, hget] at hne
      exact ⟨(sid, q), ⟨Dict.get?_eq_some.mp hget, hne⟩, rfl⟩

theorem isSome_misattributed_iff {accountNets : Dict String ℚ} {byGroup : Dict ℕ (List TxnRow)}
    {g : OpenGroup} :
    (misattributed accountNets byGroup g).isSome = true ↔
      (∃ sid, netIn g.rows sid ≠ 0) ∧
        ∀ sid, netIn g.rows sid ≠ 0 → (accountNets.get? sid).getD 0 = 0 := by
  have hcond : (!(openSecurities g.rows).isEmpty &&
      (openSecurities g.rows).all fun sid => (accountNets.get? sid).getD 0 = 0) = true ↔
      (∃ sid, netIn g.rows sid ≠ 0) ∧
        ∀ sid, netIn g.rows sid ≠ 0 → (accountNets.get? sid).getD 0 = 0 := by
    simp only [Bool.and_eq_true, Bool.not_eq_true', List.isEmpty_eq_false_iff_exists_mem,
      List.all_eq_true, decide_eq_true_eq, mem_openSecurities]
  rw [← hcond]
  unfold misattributed
  simp only []
  split_ifs with h <;> simp [h]

theorem isSome_orphanSettlement_iff {byGroup : Dict ℕ (List TxnRow)} {g : OpenGroup} :
    (orphanSettlement byGroup g).isSome = true ↔
      (∃ r ∈ g.rows, r.isPosition = true) ∧
        (∀ r ∈ g.rows, r.isPosition = true → r.isClosing = true) ∧
        ∀ sid, (netQuantities g.rows).get? sid = none := by
  have hrows : ((orderedPositionRows g.rows).isEmpty ||
      !(orderedPositionRows g.rows).all TxnRow.isClosing) = false ↔
      (∃ r ∈ g.rows, r.isPosition = true) ∧
        ∀ r ∈ g.rows, r.isPosition = true → r.isClosing = true := by
    simp only [Bool.or_eq_false_iff, List.isEmpty_eq_false_iff_exists_mem, Bool.not_eq_false',
      List.all_eq_true, mem_orderedPositionRows, and_imp]
  have hnets : (netQuantities g.rows).entries.isEmpty = true ↔
      ∀ sid, (netQuantities g.rows).get? sid = none := by
    rw [List.isEmpty_iff, Dict.entries_eq_nil_iff]
  rw [← and_assoc, ← hrows, ← hnets]
  unfold orphanSettlement
  simp only []
  split_ifs with h h'
  · rw [h]
    simp
  · rw [Bool.not_eq_true'] at h'
    rw [h']
    simp
  · rw [Bool.not_eq_true', Bool.not_eq_false] at h'
    rw [Bool.not_eq_true] at h
    rw [h, h']
    simp

end Rows

/-! ## What the detectors report -/

section Detectors

variable {s : InMemoryStore} {account : String} {pk : ℕ}

theorem detects_misattributed_iff :
    Detects (findMisattributedOpenGroups account) s pk ↔
      ∃ g ∈ openGroupsOf s account, g.pk = pk ∧
        (∃ sid, netIn g.rows sid ≠ 0) ∧
        ∀ sid, netIn g.rows sid ≠ 0 →
          ((netOpenQuantities (s.accountBook account)).get? sid).getD 0 = 0 := by
  rw [Detects, exec_findMisattributedOpenGroups]
  constructor
  · rintro ⟨found, hfound, e, he, rfl⟩
    cases hfound
    obtain ⟨g, hg, report, hreport, rfl⟩ := mem_stuckGroups.mp he
    exact ⟨g, hg, rfl, isSome_misattributed_iff.mp (by rw [hreport]; rfl)⟩
  · rintro ⟨g, hg, rfl, hstuck⟩
    obtain ⟨report, hreport⟩ := Option.isSome_iff_exists.mp (isSome_misattributed_iff.mpr hstuck)
    exact ⟨_, rfl, _, mem_stuckGroups.mpr ⟨g, hg, report, hreport, rfl⟩, rfl⟩

theorem detects_orphan_iff :
    Detects (findOrphanSettlementGroups account) s pk ↔
      ∃ g ∈ openGroupsOf s account, g.pk = pk ∧
        (∃ r ∈ g.rows, r.isPosition = true) ∧
        (∀ r ∈ g.rows, r.isPosition = true → r.isClosing = true) ∧
        ∀ sid, (netQuantities g.rows).get? sid = none := by
  rw [Detects, exec_findOrphanSettlementGroups]
  constructor
  · rintro ⟨found, hfound, e, he, rfl⟩
    cases hfound
    obtain ⟨g, hg, report, hreport, rfl⟩ := mem_stuckGroups.mp he
    exact ⟨g, hg, rfl, isSome_orphanSettlement_iff.mp (by rw [hreport]; rfl)⟩
  · rintro ⟨g, hg, rfl, hstuck⟩
    obtain ⟨report, hreport⟩ :=
      Option.isSome_iff_exists.mp (isSome_orphanSettlement_iff.mpr hstuck)
    exact ⟨_, rfl, _, mem_stuckGroups.mpr ⟨g, hg, report, hreport, rfl⟩, rfl⟩

/-- No group is in both reports, of whatever accounts. -/
theorem not_detects_both {account' : String} :
    ¬(Detects (findMisattributedOpenGroups account) s pk ∧
      Detects (findOrphanSettlementGroups account') s pk) := by
  rintro ⟨hmis, horphan⟩
  obtain ⟨g, hg, rfl, ⟨sid, hne⟩, -⟩ := detects_misattributed_iff.mp hmis
  obtain ⟨g', hg', hpk, -, -, hnone⟩ := detects_orphan_iff.mp horphan
  have hrows : g'.rows = g.rows := by
    rw [((mem_openGroupsOf s).mp hg').2, ((mem_openGroupsOf s).mp hg).2, hpk]
  rw [netIn, ← hrows, hnone] at hne
  exact hne rfl

/-! ## What a pass leaves open -/

/-- A row that trades, and settles nothing, enters the walk unless it closes. -/
theorem OffTheBooks.enters_or_closing {rows : List TxnRow} (h : OffTheBooks s account rows)
    {r : TxnRow} (hr : r ∈ rows) (hposition : r.isPosition = true) :
    r.isClosing = true ∨
      r.enters = true ∧ (r.isOpening || isBareAction r.action) = true := by
  cases hclosing : r.isClosing with
  | true => exact Or.inl rfl
  | false =>
    obtain ⟨hclose, hsettles⟩ := Bool.or_eq_false_iff.mp hclosing
    rcases h.kinds r hr hposition with hsettles' | ⟨hmoney, haction⟩
    · rw [hsettles] at hsettles'
      cases hsettles'
    · have hopens : (isOpeningAction r.action || isBareAction r.action) = true := by
        simpa [hclose] using haction
      have htruthy : truthy r.action = true := by
        rcases Bool.or_eq_true_iff.mp hopens with hopening | hbare
        · rcases isOpeningAction_eq_true.mp hopening with heq | heq <;> rw [heq] <;> rfl
        · exact truthy_of_bare hbare
      exact Or.inr ⟨by simp [TxnRow.enters, hmoney, hsettles, htruthy, hclose], hopens⟩

/-- Of the groups off the account's books, those that are not fully closed are in a report. -/
theorem detects_of_offTheBooks {g : OpenGroup} (hg : g ∈ openGroupsOf s account)
    (hclosed : fullyClosed g.rows = false) (h : OffTheBooks s account g.rows) :
    Detects (findMisattributedOpenGroups account) s g.pk ∨
      Detects (findOrphanSettlementGroups account) s g.pk := by
  by_cases hnet : ∃ sid, netIn g.rows sid ≠ 0
  · refine Or.inl (detects_misattributed_iff.mpr ⟨g, hg, rfl, hnet, fun sid hne => ?_⟩)
    -- a security with a net is that of some position row
    have hentry : (netQuantities g.rows).get? sid ≠ none := by
      intro hnone
      rw [netIn, hnone] at hne
      exact hne rfl
    obtain ⟨r, hr, hposition, rfl, -⟩ := (get?_netQuantities_ne_none_iff g.rows sid).mp hentry
    exact h.flat r hr hposition
  · push Not at hnet
    -- had a row entered the walk, the group would have opened something and be closed
    have hnone : ∀ r ∈ g.rows, r.isPosition = true → r.isClosing = true := by
      intro r hr hposition
      rcases h.enters_or_closing hr hposition with hclosing | ⟨henters, hopens⟩
      · exact hclosing
      · have hfull : fullyClosed g.rows = true := by
          rw [fullyClosed_iff]
          refine ⟨⟨r.sid, (get?_netQuantities_ne_none_iff g.rows r.sid).mpr
            ⟨r, hr, hposition, rfl, henters⟩⟩, ?_, hnet⟩
          exact List.any_eq_true.mpr ⟨r, hr, hopens⟩
        rw [hfull] at hclosed
        cases hclosed
    refine Or.inr (detects_orphan_iff.mpr ⟨g, hg, rfl, h.traded, hnone, fun sid => ?_⟩)
    by_contra hentry
    obtain ⟨r, hr, hposition, -, henters⟩ := (get?_netQuantities_ne_none_iff g.rows sid).mp hentry
    have := enters_of_closing (hnone r hr hposition)
    rw [this] at henters
    cases henters

end Detectors

/-- A non-dry pass over an account that returns leaves no open group fully closed. -/
theorem fullyClosed_of_reconcileAccount {s s' : InMemoryStore} {args : ReconcileArgs}
    {account : String} {r : SyncResult} (hdry : args.dryRun = false)
    (hrun : exec (reconcileAccount args account) s = (.ok r, s')) {g : OpenGroup}
    (hg : g ∈ openGroupsOf s' account) : fullyClosed g.rows = false := by
  cases hlapse : lapseSettlements (linked s account) account args with
  | error e =>
    rw [exec_reconcileAccount_error s hlapse] at hrun
    cases hrun
  | ok synthesized =>
    obtain ⟨events, s₂, -, -, hexec⟩ := exec_reconcileAccount s hlapse
    rw [hexec, hdry] at hrun
    obtain ⟨-, rfl⟩ := Prod.mk.inj hrun
    by_contra hclosed
    have hmem : g ∈ closedOpenGroups (healed s₂ account false) account :=
      (mem_closedOpenGroups _ account).mpr ⟨hg, by simpa using hclosed⟩
    rw [closedOpenGroups_healed] at hmem
    exact List.not_mem_nil hmem

/-- A pass over one account without errors is a pass over the account that returns. -/
theorem reconcileAccount_of_reconcile {s s' : InMemoryStore} {args : ReconcileArgs}
    {account : String} {r : SyncResult}
    (hrun : exec (reconcile (some account) args) s = (.ok r, s')) (herrors : r.errors = []) :
    ∃ r', exec (reconcileAccount args account) s = (.ok r', s') := by
  cases hlapse : lapseSettlements (linked s account) account args with
  | error e =>
    rw [exec_reconcile_error s hlapse] at hrun
    obtain ⟨hr, -⟩ := Prod.mk.inj hrun
    rw [← Except.ok.inj hr] at herrors
    cases herrors
  | ok synthesized =>
    obtain ⟨events, s₂, -, -, hexec⟩ := exec_reconcileAccount s hlapse
    rw [exec_reconcile_ok s rfl rfl hexec] at hrun
    obtain ⟨hr, hs⟩ := Prod.mk.inj hrun
    exact ⟨r, by rw [hexec, hs, hr]⟩

/-- A contract sold to close that the ledger never saw bought. -/
def loneClose : InMemoryStore :=
  .seeded [] [.placed "A" "o1"] [.fill "A" "t1" "o1" "Sell to Close" "X" 1 0]

end TtLedger
