import TtLedger.Guarantees.PaperCash
import TtLedger.Ingest.Backend

/-!
# The lapse step on either backend

On a backend that returns aware instants the lapse step is the step of the in-memory store
(`exec_synthesizeOn_aware`). On a backend that returns naive ones it compares the naive instants
of a group's stored rows with the aware ones of the settlement rows it adds to them, and raises:
it does what the other does exactly when every group that takes a new settlement has nothing dated
to compare it with (`synthesizeOn_agrees_iff`).
-/

namespace TtLedger

open LedgerStore

/-! ## Comparisons -/

/-- Instants of one kind. -/
def Comparable (kinds : List Tz) : Prop := ¬(.naive ∈ kinds ∧ .aware ∈ kinds)

instance (kinds : List Tz) : Decidable (Comparable kinds) := inferInstanceAs (Decidable ¬_)

theorem compareAll_of_comparable {α : Type} {kinds : List Tz} (h : Comparable kinds) (value : α) :
    compareAll kinds value = .ok value := if_neg h

theorem compareAll_of_not {α : Type} {kinds : List Tz} (h : ¬Comparable kinds) (value : α) :
    compareAll kinds value = .error cantCompare := if_pos (not_not.mp h)

theorem comparable_of_forall {kinds : List Tz} (tz : Tz) (h : ∀ k ∈ kinds, k = tz) :
    Comparable kinds := by
  rintro ⟨hn, ha⟩
  cases (h _ hn).trans (h _ ha).symm

/-- A list of comparisons raises when one of them does. -/
theorem mapM_compareAll {α β : Type} {p : α → Except String β} (kinds : α → List Tz) (f : α → β) :
    ∀ l : List α, (∀ a ∈ l, p a = compareAll (kinds a) (f a)) →
      l.mapM p = if ∀ a ∈ l, Comparable (kinds a) then .ok (l.map f) else .error cantCompare
  | [], _ => rfl
  | a :: l, h => by
    have ih := mapM_compareAll kinds f l fun b hb => h b (by simp [hb])
    simp only [List.mapM_cons, ih, h a (by simp), List.forall_mem_cons]
    by_cases ha : Comparable (kinds a)
    · by_cases hl : ∀ b ∈ l, Comparable (kinds b)
      · rw [compareAll_of_comparable ha, if_pos hl, if_pos ⟨ha, hl⟩]
        rfl
      · rw [compareAll_of_comparable ha, if_neg hl, if_neg fun h => hl h.2]
        rfl
    · rw [compareAll_of_not ha, if_neg (c := Comparable (kinds a) ∧ _) fun h => ha h.1]
      rfl

theorem comparable_stamped (g : OpenGroup) (tz : Tz) :
    Comparable (positionKinds (g.stamped tz)) := by
  refine comparable_of_forall tz fun k hk => ?_
  obtain ⟨r, hr, rfl⟩ := List.mem_map.mp hk
  obtain ⟨r', -, rfl⟩ := List.mem_map.mp (List.mem_of_mem_filter (List.mem_of_mem_filter hr))
  rfl

theorem comparable_madeRows (rows : List TxnRow) : Comparable (datedKinds (madeRows rows)) := by
  refine comparable_of_forall .aware fun k hk => ?_
  obtain ⟨r, hr, rfl⟩ := List.mem_map.mp hk
  obtain ⟨r', -, rfl⟩ := List.mem_map.mp (List.mem_of_mem_filter hr)
  rfl

@[simp] theorem plainRows_stamped (g : OpenGroup) (tz : Tz) :
    plainRows (g.stamped tz) = g.rows := by
  rw [plainRows, OpenGroup.stamped, List.map_map]
  exact List.map_id _

@[simp] theorem plainRows_madeRows (rows : List TxnRow) : plainRows (madeRows rows) = rows := by
  rw [plainRows, madeRows, List.map_map]
  exact List.map_id _

@[simp] theorem plainRows_append (rows rows' : List Stamped) :
    plainRows (rows ++ rows') = plainRows rows ++ plainRows rows' := List.map_append

/-! ## Realized P&L -/

section Realized

variable (s : InMemoryStore)

/-- The price walks of a group's futures compare instants of one kind. -/
def FuturesComparable (rows : List Stamped) : Prop :=
  ∀ sid, isFuture (s.getSecurity sid) = true → Comparable (epochKinds (inSecurity rows sid))

theorem plainRows_inSecurity (rows : List Stamped) (sid : String) :
    plainRows (inSecurity rows sid) = (plainRows rows).filter fun r => r.securityId = some sid := by
  rw [plainRows, inSecurity, plainRows, List.filter_map]
  rfl

section FuturesRows

variable {s} {rows : List Stamped} {w : RealizedWalk}

/-- A futures security has its rows of the group among the futures rows. -/
theorem RealizedInv.priceRealizedGrossOn_eq (hw : RealizedInv s (plainRows rows) w) :
    ∀ e ∈ (groupBy TxnRow.securityId w.futuresRows).entries,
      priceRealizedGrossOn (inSecurity rows e.1) (multiplierOf ((w.securities.get? e.1).join))
        true =
        compareAll (epochKinds (inSecurity rows e.1))
          (priceRealizedGross e.2 (multiplierOf (s.getSecurity e.1)) true) := by
  rintro ⟨sid, vs⟩ he
  obtain ⟨⟨r, hr, hsid⟩, rfl⟩ := mem_groupBy.mp he
  have hfut : isFuture (s.getSecurity sid) = true := by
    rw [hw.futures] at hr
    have := (List.mem_filter.mp hr).2
    rwa [isFutureRow, hsid] at this
  have hall : (plainRows rows).filter (fun r => decide (r.securityId = some sid)) =
      w.futuresRows.filter fun r => r.securityId == some sid := by
    rw [hw.futures, List.filter_filter]
    refine List.filter_congr fun r _ => ?_
    by_cases hr' : r.securityId = some sid
    · simp [hr', isFutureRow, hfut]
    · simp [hr']
  rw [priceRealizedGrossOn, plainRows_inSecurity, hall, hw.known r hr sid hsid]
  rfl

/-- The price walks compare the rows of the futures securities that have rows: one without rows
compares nothing. -/
theorem RealizedInv.futuresComparable_iff (hw : RealizedInv s (plainRows rows) w) :
    FuturesComparable s rows ↔
      ∀ e ∈ (groupBy TxnRow.securityId w.futuresRows).entries,
        Comparable (epochKinds (inSecurity rows e.1)) := by
  constructor
  · rintro h ⟨sid, vs⟩ he
    obtain ⟨⟨r, hr, hsid⟩, -⟩ := mem_groupBy.mp he
    rw [hw.futures] at hr
    have hfut := (List.mem_filter.mp hr).2
    rw [isFutureRow, hsid] at hfut
    exact h sid hfut
  · intro h sid hfut
    by_cases hsome : ∃ r ∈ w.futuresRows, r.securityId = some sid
    · exact h (sid, _) (mem_groupBy.mpr ⟨hsome, rfl⟩)
    · have hnil : inSecurity rows sid = [] := by
        rw [inSecurity, List.filter_eq_nil_iff]
        intro r hr hsid
        refine hsome ⟨r.row, ?_, by simpa using hsid⟩
        rw [hw.futures, List.mem_filter]
        have hsid' : r.row.securityId = some sid := by simpa using hsid
        exact ⟨List.mem_map_of_mem hr, by rw [isFutureRow, hsid']; exact hfut⟩
      rw [hnil]
      rintro ⟨h, -⟩
      cases h

end FuturesRows

theorem exec_groupRealizedOn (rows : List Stamped) :
    (FuturesComparable s rows →
      exec (groupRealizedOn rows) s = (.ok (realizedOf s.getSecurity (plainRows rows)), s)) ∧
    (¬FuturesComparable s rows → exec (groupRealizedOn rows) s = (.error cantCompare, s)) := by
  have hinit : RealizedInv s [] {} :=
    { cached := by simp, known := by simp, futures := rfl, total := rfl }
  obtain ⟨w, hrun, hw⟩ := exec_realizedRows s hinit (plainRows rows)
  rw [List.nil_append] at hw
  have hmap := mapM_compareAll (fun e : String × List TxnRow => epochKinds (inSecurity rows e.1))
    (fun e => priceRealizedGross e.2 (multiplierOf (s.getSecurity e.1)) true) _
    hw.priceRealizedGrossOn_eq
  have hbody : exec (groupRealizedOn rows) s = exec (do
      let futures ← Prog.ofExcept ((groupBy TxnRow.securityId w.futuresRows).entries.mapM fun e =>
        priceRealizedGrossOn (inSecurity rows e.1) (multiplierOf ((w.securities.get? e.1).join))
          true)
      pure (w.total + futures.sum)) s := by
    unfold groupRealizedOn
    exact exec_bind hrun
  rw [hbody, hmap]
  constructor
  · intro h
    rw [if_pos (hw.futuresComparable_iff.mp h), exec_bind (Prog.run_ofExcept memory _ s),
      exec_pure, hw.total, hw.futures, realizedOf]
  · intro h
    rw [if_neg (hw.futuresComparable_iff.not.mp h)]
    exact exec_bind_error (Prog.run_ofExcept memory _ s)

end Realized

/-! ## Applying settlements -/

section Exit

variable (s : InMemoryStore) (tz : Tz) (g : OpenGroup)

/-- Adding rows made by the step to a group compares instants of one kind. -/
def MembersComparable (new : List TxnRow) : Prop :=
  Comparable (positionKinds (g.stamped tz ++ madeRows new)) ∧
    (fullyClosed (g.rows ++ new) = true → FuturesComparable s (g.stamped tz ++ madeRows new))

theorem plainRows_members (new : List TxnRow) :
    plainRows (g.stamped tz ++ madeRows new) = g.rows ++ new := by simp

/-- Stamping compares instants of one kind, or raises. -/
theorem exec_stampGroupOn {rows : List Stamped} (hpos : Comparable (positionKinds rows))
    (group : OpenGroup) (hrows : plainRows rows = group.rows) (closedAt : Option Datetime) :
    (FuturesComparable s rows →
      exec (stampGroupOn group.pk rows closedAt) s = (.ok (), s.stamped group closedAt)) ∧
    (¬FuturesComparable s rows → (s.getTradeGroupById group.pk).isSome = true →
      ∃ s', exec (stampGroupOn group.pk rows closedAt) s = (.error cantCompare, s')) := by
  have hstatus : exec (Prog.ofExcept (closedStatusOn rows)) s =
      (.ok (closedStatus group.rows), s) := by
    rw [closedStatusOn, compareAll_of_comparable hpos, hrows]
    rfl
  unfold stampGroupOn
  rw [exec_bind hstatus, exec_bind (exec_getTradeGroupById s _)]
  constructor
  · intro hfut
    unfold InMemoryStore.stamped
    cases s.getTradeGroupById group.pk with
    | none => rfl
    | some tg =>
      simp only []
      rw [exec_bind ((exec_groupRealizedOn s rows).1 hfut), exec_bind (exec_upsertTradeGroup s _),
        hrows]
      rfl
  · intro hfut hsome
    obtain ⟨tg, htg⟩ := Option.isSome_iff_exists.mp hsome
    rw [htg]
    exact ⟨s, exec_bind_error ((exec_groupRealizedOn s rows).2 hfut)⟩

theorem futuresComparable_congr {s s' : InMemoryStore} (h : s'.securities = s.securities)
    (rows : List Stamped) : FuturesComparable s' rows ↔ FuturesComparable s rows := by
  have hsec : s'.getSecurity = s.getSecurity := by
    funext sid
    rw [InMemoryStore.getSecurity, h, InMemoryStore.getSecurity]
  rw [FuturesComparable, hsec, FuturesComparable]

theorem exec_applyExitOn (rows : List TxnRow) :
    ((g.newRows rows ≠ [] → MembersComparable s tz g (g.newRows rows)) →
      exec (applyExitOn tz g rows) s = (.ok (), exitState s g rows none none)) ∧
    (g.newRows rows ≠ [] → ¬MembersComparable s tz g (g.newRows rows) →
      (s.getTradeGroupById g.pk).isSome = true →
      ∃ s', exec (applyExitOn tz g rows) s = (.error cantCompare, s')) := by
  unfold applyExitOn exitState
  rw [exec_bind (exec_attachTransactionsToTradeGroup s _ _)]
  by_cases hnew : g.newRows rows = []
  · refine ⟨fun _ => ?_, fun h => absurd hnew h⟩
    simp only [hnew, List.isEmpty_nil, if_true]
    rw [exec_bind (exec_getTradeGroupById _ _), fullyClosedOn,
      compareAll_of_comparable (comparable_stamped g tz)]
    rfl
  · have hne : (g.newRows rows).isEmpty = false := by simpa using hnew
    simp only [hne, Bool.false_eq_true, if_false]
    have hmembers : plainRows (g.stamped tz ++ madeRows (g.newRows rows)) =
        (g.extendUnique rows).rows := plainRows_members tz g _
    by_cases hpos : Comparable (positionKinds (g.stamped tz ++ madeRows (g.newRows rows)))
    · rw [fullyClosedOn, compareAll_of_comparable hpos, hmembers,
        exec_bind (Prog.run_ofExcept memory _ _), lastExecutedAtOn,
        compareAll_of_comparable (comparable_madeRows _), plainRows_madeRows,
        exec_bind (Prog.run_ofExcept memory _ _), exec_bind (exec_addEvents _ _)]
      have hsec : ∀ events, FuturesComparable
          ((s.attached (rows.map TxnRow.ttTransactionId) g.pk).addEvents events)
            (g.stamped tz ++ madeRows (g.newRows rows)) ↔
          FuturesComparable s (g.stamped tz ++ madeRows (g.newRows rows)) := fun events =>
        futuresComparable_congr (by simp) _
      by_cases hclosed : fullyClosed (g.extendUnique rows).rows = true
      · simp only [hclosed, if_true]
        constructor
        · intro h
          exact (exec_stampGroupOn _ hpos (g.extendUnique rows) hmembers _).1
            ((hsec _).mpr ((h hnew).2 hclosed))
        · intro _ h hsome
          refine (exec_stampGroupOn _ hpos (g.extendUnique rows) hmembers _).2
            (fun hfut => h ⟨hpos, fun _ => (hsec _).mp hfut⟩) ?_
          rw [InMemoryStore.getTradeGroupById_congr (InMemoryStore.tradeGroups_addEvents _ _)]
          exact hsome
      · simp only [hclosed, Bool.false_eq_true, if_false]
        refine ⟨fun _ => rfl, fun _ h => absurd ⟨hpos, fun hc => absurd hc hclosed⟩ h⟩
    · rw [fullyClosedOn, compareAll_of_not hpos]
      exact ⟨fun h => absurd (h hnew).1 hpos, fun _ _ _ => ⟨_, rfl⟩⟩

end Exit

/-! ## The step -/

section Step

variable (s : InMemoryStore) (tz : Tz) (account : String) (args : ReconcileArgs)

/-- Applying a group's own settlement rows compares instants of one kind. -/
def LapseComparable (rows : List TxnRow) (g : OpenGroup) : Prop :=
  g.newRows (ownRows rows g) ≠ [] → MembersComparable s tz g (g.newRows (ownRows rows g))

theorem lapseComparable_congr {s s' : InMemoryStore} (h : s'.securities = s.securities)
    (rows : List TxnRow) (g : OpenGroup) :
    LapseComparable s' tz rows g ↔ LapseComparable s tz rows g := by
  rw [LapseComparable, MembersComparable, futuresComparable_congr h, LapseComparable,
    MembersComparable]

theorem exec_applyLapseOn (rows : List TxnRow) (g : OpenGroup) :
    (LapseComparable s tz rows g →
      exec (applyLapseOn tz rows g) s = (.ok (), lapseStep rows s g)) ∧
    (¬LapseComparable s tz rows g → (s.getTradeGroupById g.pk).isSome = true →
      ∃ s', exec (applyLapseOn tz rows g) s = (.error cantCompare, s')) := by
  unfold applyLapseOn lapseStep
  simp only []
  split
  · rename_i hempty
    have hown : ownRows rows g = [] := List.isEmpty_iff.mp hempty
    refine ⟨fun _ => rfl, fun h => absurd (fun hne => ?_) h⟩
    rw [hown] at hne
    exact absurd rfl hne
  · obtain ⟨hok, herr⟩ := exec_applyExitOn s tz g (ownRows rows g)
    refine ⟨hok, fun h hsome => ?_⟩
    obtain ⟨hne, hmem⟩ := Classical.not_imp.mp h
    exact herr hne hmem hsome

theorem exec_applyLapsesOn (rows : List TxnRow) {groups : List OpenGroup} (h : Backed s groups) :
    ((∀ g ∈ groups, LapseComparable s tz rows g) →
      exec (groups.forM (applyLapseOn tz rows)) s = (.ok (), groups.foldl (lapseStep rows) s)) ∧
    ((¬∀ g ∈ groups, LapseComparable s tz rows g) →
      ∃ s', exec (groups.forM (applyLapseOn tz rows)) s = (.error cantCompare, s')) := by
  induction groups generalizing s with
  | nil => exact ⟨fun _ => rfl, fun hn => absurd (by simp) hn⟩
  | cons g groups ih =>
    obtain ⟨hok, herr⟩ := exec_applyLapseOn s tz rows g
    have hbacked : Backed (lapseStep rows s g) groups := by
      intro g' hg'
      unfold lapseStep
      simp only []
      split
      · exact h g' (by simp [hg'])
      · rw [isSome_getTradeGroupById_exitState]
        exact h g' (by simp [hg'])
    have hcongr : (∀ g' ∈ groups, LapseComparable (lapseStep rows s g) tz rows g') ↔
        ∀ g' ∈ groups, LapseComparable s tz rows g' :=
      forall₂_congr fun g' _ => lapseComparable_congr tz (securities_lapseStep s g) rows g'
    obtain ⟨ihok, iherr⟩ := ih (lapseStep rows s g) hbacked
    rw [hcongr] at ihok iherr
    have hcons : (g :: groups).forM (applyLapseOn tz rows) =
        applyLapseOn tz rows g >>= fun _ => groups.forM (applyLapseOn tz rows) := rfl
    rw [hcons]
    by_cases hg : LapseComparable s tz rows g
    · rw [exec_bind (hok hg)]
      refine ⟨fun hall => ihok fun g' hg' => hall g' (by simp [hg']), fun hn => iherr ?_⟩
      intro hall
      refine hn fun g' hg' => ?_
      rcases List.mem_cons.mp hg' with rfl | hg'
      · exact hg
      · exact hall g' hg'
    · refine ⟨fun hall => absurd (hall g (by simp)) hg, fun _ => ?_⟩
      obtain ⟨s', hs'⟩ := herr hg (h g (by simp))
      exact ⟨s', exec_bind_error hs'⟩

/-- The rows of one read share their kind. -/
theorem comparable_activity (rows : List ActivityRow) :
    Comparable (datedKinds (rows.map fun a => (⟨a.toTxnRow, tz⟩ : Stamped))) := by
  refine comparable_of_forall tz fun k hk => ?_
  obtain ⟨r, hr, rfl⟩ := List.mem_map.mp hk
  obtain ⟨a, -, rfl⟩ := List.mem_map.mp (List.mem_of_mem_filter hr)
  rfl

theorem mapM_netQuantitiesOn (groups : List OpenGroup) :
    groups.mapM (fun g => netQuantitiesOn (g.stamped tz)) =
      .ok (groups.map fun g => netQuantities g.rows) := by
  rw [mapM_compareAll (fun g => positionKinds (g.stamped tz)) (fun g => netQuantities g.rows),
    if_pos fun g _ => comparable_stamped g tz]
  intro g _
  rw [netQuantitiesOn, plainRows_stamped]

/-- Settlement rows are written: some are due and this is no dry run. -/
def WritesSettlements (rows : List TxnRow) : Prop := rows ≠ [] ∧ args.dryRun = false

theorem writesSettlements_iff {rows : List TxnRow} :
    WritesSettlements args rows ↔ (!rows.isEmpty && !args.dryRun) = true := by
  simp [WritesSettlements]

/-- What is applied once the settlement rows are written. -/
theorem exec_applyLapsesOn_written (rows : List TxnRow) :
    ((∀ g ∈ openGroupsOf s account, LapseComparable s tz rows g) →
      exec ((openGroupsOf s account).forM (applyLapseOn tz rows)) (s.upsertTransactions rows) =
        (.ok (), (openGroupsOf s account).foldl (lapseStep rows) (s.upsertTransactions rows))) ∧
    ((¬∀ g ∈ openGroupsOf s account, LapseComparable s tz rows g) →
      ∃ s', exec ((openGroupsOf s account).forM (applyLapseOn tz rows))
        (s.upsertTransactions rows) = (.error cantCompare, s')) := by
  have hbacked : Backed (s.upsertTransactions rows) (openGroupsOf s account) := by
    intro g hg
    rw [InMemoryStore.getTradeGroupById_congr (InMemoryStore.tradeGroups_upsertTransactions _ _)]
    exact backed_openGroupsOf s account g hg
  have hstore : (∀ g ∈ openGroupsOf s account,
      LapseComparable (s.upsertTransactions rows) tz rows g) ↔
        ∀ g ∈ openGroupsOf s account, LapseComparable s tz rows g :=
    forall₂_congr fun g _ =>
      lapseComparable_congr tz (InMemoryStore.securities_upsertTransactions s rows) rows g
  have happlied := exec_applyLapsesOn (s.upsertTransactions rows) tz rows hbacked
  rwa [hstore] at happlied

/-- **The lapse step on a backend** is the plain step when applying the rows due compares instants
of one kind, and raises otherwise. -/
theorem exec_synthesizeOn :
    ((∀ rows, lapseSettlements s account args = .ok rows → WritesSettlements args rows →
        ∀ g ∈ openGroupsOf s account, LapseComparable s tz rows g) →
      exec (synthesizeLapsedSettlementsOn tz account args) s =
        exec (synthesizeLapsedSettlements account args) s) ∧
    ((¬∀ rows, lapseSettlements s account args = .ok rows → WritesSettlements args rows →
        ∀ g ∈ openGroupsOf s account, LapseComparable s tz rows g) →
      ∃ s', exec (synthesizeLapsedSettlementsOn tz account args) s = (.error cantCompare, s')) := by
  rw [exec_synthesizeLapsedSettlements]
  unfold synthesizeLapsedSettlementsOn lapseSettlements lastActivity
  have hplain : plainRows ((s.accountActivity { account := some account }).map
      fun a => (⟨a.toTxnRow, tz⟩ : Stamped)) =
      (s.accountActivity { account := some account }).map ActivityRow.toTxnRow := by
    rw [plainRows, List.map_map]
    rfl
  rw [exec_bind (exec_accountActivity s _), lastExecutedAtOn,
    compareAll_of_comparable (comparable_activity tz _), hplain,
    exec_bind (Prog.run_ofExcept memory _ s)]
  cases lastExecutedAt
      ((s.accountActivity { account := some account }).map ActivityRow.toTxnRow) with
  | none =>
    refine ⟨fun _ => by simp [lapsed], fun hn => absurd ?_ hn⟩
    intro rows hrows happ
    exact absurd (Except.ok.inj hrows).symm happ.1
  | some last =>
    simp only []
    rw [exec_bind (exec_loadOpenGroups s _), mapM_netQuantitiesOn,
      exec_bind (Prog.run_ofExcept memory _ s)]
    have hfold := exec_synthesizeSecurities s args account last (openGroupsOf s account)
      (heldSecurities (openGroupsOf s account)) []
    cases hrows : securitiesLapse s args account last (openGroupsOf s account)
        (heldSecurities (openGroupsOf s account)) with
    | error e =>
      rw [hrows] at hfold
      exact ⟨fun _ => exec_bind_error hfold, fun hn => absurd (fun _ h => by cases h) hn⟩
    | ok rows =>
      rw [hrows] at hfold
      rw [exec_bind hfold]
      simp only [List.nil_append, lapsed, Except.ok.injEq]
      by_cases happ : WritesSettlements args rows
      · have hgate := (writesSettlements_iff args).mp happ
        have hskip : ¬(rows.isEmpty = true ∨ args.dryRun = true) := by
          simpa [WritesSettlements] using happ
        rw [if_neg hskip, hgate]
        simp only [if_true]
        obtain ⟨hok, herr⟩ := exec_applyLapsesOn_written s tz account rows
        have hone : (∀ rows', rows = rows' → WritesSettlements args rows' →
            ∀ g ∈ openGroupsOf s account, LapseComparable s tz rows' g) ↔
              ∀ g ∈ openGroupsOf s account, LapseComparable s tz rows g := by
          simp [happ]
        rw [hone, exec_bind (exec_upsertTransactions s rows)]
        refine ⟨fun hall => exec_bind (hok hall), fun hn => ?_⟩
        obtain ⟨s', hs'⟩ := herr hn
        exact ⟨s', exec_bind_error hs'⟩
      · have hgate : (!rows.isEmpty && !args.dryRun) = false :=
          Bool.eq_false_iff.mpr ((writesSettlements_iff args).not.mp happ)
        have hskip : rows.isEmpty = true ∨ args.dryRun = true := by
          by_contra hs
          exact happ (by simpa [WritesSettlements] using hs)
        rw [if_pos hskip, hgate]
        refine ⟨fun _ => rfl, fun hn => absurd ?_ hn⟩
        rintro rows' rfl happ'
        exact absurd happ' happ

/-! ## Either backend -/

theorem mem_stamped {g : OpenGroup} {x : Stamped} :
    x ∈ g.stamped tz ↔ x.row ∈ g.rows ∧ x.tz = tz := by
  constructor
  · intro hx
    obtain ⟨r, hr, rfl⟩ := List.mem_map.mp hx
    exact ⟨hr, rfl⟩
  · rintro ⟨hr, rfl⟩
    exact List.mem_map.mpr ⟨x.row, hr, rfl⟩

theorem mem_madeRows {rows : List TxnRow} {x : Stamped} :
    x ∈ madeRows rows ↔ x.row ∈ rows ∧ x.tz = .aware := mem_stamped .aware (g := ⟨0, rows⟩)

theorem membersComparable_aware (g : OpenGroup) (new : List TxnRow) :
    MembersComparable s .aware g new := by
  have haware : ∀ x ∈ g.stamped .aware ++ madeRows new, x.tz = .aware := by
    intro x hx
    rcases List.mem_append.mp hx with hx | hx
    · exact ((mem_stamped .aware).mp hx).2
    · exact (mem_madeRows.mp hx).2
  refine ⟨comparable_of_forall .aware fun k hk => ?_,
    fun _ sid _ => comparable_of_forall .aware fun k hk => ?_⟩
  · obtain ⟨x, hx, rfl⟩ := List.mem_map.mp hk
    exact haware x (List.mem_of_mem_filter (List.mem_of_mem_filter hx))
  · obtain ⟨x, hx, rfl⟩ := List.mem_map.mp hk
    split
    · exact haware x (List.mem_of_mem_filter hx)
    · rfl

/-- **On a backend with aware instants** the step is the in-memory one. -/
theorem exec_synthesizeOn_aware :
    exec (synthesizeLapsedSettlementsOn .aware account args) s =
      exec (synthesizeLapsedSettlements account args) s :=
  (exec_synthesizeOn s .aware account args).1 fun _ _ _ g _ _ => membersComparable_aware s g _

/-- Nothing stored in a group has an instant that stamping it with the new rows compares with
theirs. -/
structure NothingToCompare (g : OpenGroup) (new : List TxnRow) : Prop where
  positions : ∀ r ∈ g.rows, r.isPosition = true → r.executedAt = none
  futures : fullyClosed (g.rows ++ new) = true → ∀ sid, isFuture (s.getSecurity sid) = true →
    (∀ r ∈ g.rows, r.securityId = some sid → r.executedAt = none) ∨
      (∀ r ∈ g.rows, r.securityId = some sid → r.executedAt.isSome = true) ∧
        ∀ r ∈ new, r.securityId ≠ some sid

theorem comparable_members_iff {g : OpenGroup} {new : List TxnRow} (hne : new ≠ [])
    (hpos : ∀ r ∈ new, r.isPosition = true) (hdated : ∀ r ∈ new, r.executedAt.isSome = true) :
    Comparable (positionKinds (g.stamped .naive ++ madeRows new)) ↔
      ∀ r ∈ g.rows, r.isPosition = true → r.executedAt = none := by
  obtain ⟨n, hn⟩ := List.exists_mem_of_ne_nil new hne
  have haware : Tz.aware ∈ positionKinds (g.stamped .naive ++ madeRows new) := by
    refine List.mem_map.mpr ⟨⟨n, .aware⟩, ?_, rfl⟩
    rw [List.mem_filter, List.mem_filter, List.mem_append]
    exact ⟨⟨Or.inr (mem_madeRows.mpr ⟨hn, rfl⟩), hpos n hn⟩, hdated n hn⟩
  constructor
  · intro h r hr hrpos
    by_contra hd
    refine h ⟨List.mem_map.mpr ⟨⟨r, .naive⟩, ?_, rfl⟩, haware⟩
    rw [List.mem_filter, List.mem_filter, List.mem_append]
    exact ⟨⟨Or.inl ((mem_stamped .naive).mpr ⟨hr, rfl⟩), hrpos⟩,
      Option.isSome_iff_ne_none.mpr hd⟩
  · rintro h ⟨hnaive, -⟩
    obtain ⟨x, hx, hxtz⟩ := List.mem_map.mp hnaive
    obtain ⟨hx, hxd⟩ := List.mem_filter.mp hx
    obtain ⟨hx, hxpos⟩ := List.mem_filter.mp hx
    rcases List.mem_append.mp hx with hx | hx
    · rw [h x.row ((mem_stamped .naive).mp hx).1 hxpos] at hxd
      cases hxd
    · rw [(mem_madeRows.mp hx).2] at hxtz
      cases hxtz

theorem comparable_future_iff {g : OpenGroup} {new : List TxnRow} {sid : String}
    (hdated : ∀ r ∈ new, r.executedAt.isSome = true) :
    Comparable (epochKinds (inSecurity (g.stamped .naive ++ madeRows new) sid)) ↔
      (∀ r ∈ g.rows, r.securityId = some sid → r.executedAt = none) ∨
        (∀ r ∈ g.rows, r.securityId = some sid → r.executedAt.isSome = true) ∧
          ∀ r ∈ new, r.securityId ≠ some sid := by
  set kinds := epochKinds (inSecurity (g.stamped .naive ++ madeRows new) sid) with hkinds
  have hmem : ∀ k, k ∈ kinds ↔
      (∃ r ∈ g.rows, r.securityId = some sid ∧
        (if r.executedAt.isSome then .naive else .aware) = k) ∨
        ∃ r ∈ new, r.securityId = some sid ∧ Tz.aware = k := by
    intro k
    simp only [hkinds, epochKinds, inSecurity, List.mem_map, List.mem_filter, List.mem_append,
      mem_stamped, mem_madeRows, decide_eq_true_eq]
    constructor
    · rintro ⟨x, ⟨⟨hx, htz⟩ | ⟨hx, htz⟩, hsid⟩, rfl⟩
      · exact Or.inl ⟨x.row, hx, hsid, by rw [htz]⟩
      · exact Or.inr ⟨x.row, hx, hsid, by rw [hdated x.row hx, htz]; rfl⟩
    · rintro (⟨r, hr, hsid, rfl⟩ | ⟨r, hr, hsid, rfl⟩)
      · exact ⟨⟨r, .naive⟩, ⟨Or.inl ⟨hr, rfl⟩, hsid⟩, rfl⟩
      · exact ⟨⟨r, .aware⟩, ⟨Or.inr ⟨hr, rfl⟩, hsid⟩, by rw [hdated r hr]; rfl⟩
  rw [Comparable, hmem, hmem]
  constructor
  · intro h
    by_cases hnone : ∀ r ∈ g.rows, r.securityId = some sid → r.executedAt = none
    · exact Or.inl hnone
    · right
      push Not at hnone
      obtain ⟨r, hr, hsid, hd⟩ := hnone
      have hnaive : ∃ r ∈ g.rows, r.securityId = some sid ∧
          (if r.executedAt.isSome then Tz.naive else .aware) = .naive :=
        ⟨r, hr, hsid, if_pos (Option.isSome_iff_ne_none.mpr hd)⟩
      constructor
      · intro r' hr' hsid'
        by_contra hd'
        exact h ⟨Or.inl hnaive, Or.inl ⟨r', hr', hsid', if_neg hd'⟩⟩
      · intro r' hr' hsid'
        exact h ⟨Or.inl hnaive, Or.inr ⟨r', hr', hsid', rfl⟩⟩
  · rintro (hnone | ⟨hall, hnew⟩) ⟨hn, ha⟩
    · rcases hn with ⟨r, hr, hsid, hk⟩ | ⟨r, -, -, hk⟩
      · rw [hnone r hr hsid] at hk
        cases hk
      · cases hk
    · rcases ha with ⟨r, hr, hsid, hk⟩ | ⟨r, hr, hsid, -⟩
      · rw [hall r hr hsid] at hk
        cases hk
      · exact hnew r hr hsid

/-- Settlement rows are dated position rows. -/
theorem settlement_position {rows : List TxnRow}
    (h : lapseSettlements s account args = .ok rows) {r : TxnRow} (hr : r ∈ rows) :
    r.isPosition = true ∧ r.executedAt.isSome = true := by
  obtain ⟨g, sid, -, hne, sec, expiry, points, -, rfl⟩ := (mem_lapseSettlements s h).mp hr
  refine ⟨?_, rfl⟩
  -- the net is of rows in the security, so the security has a name
  have hrows : rowsIn g.rows sid ≠ [] := by
    intro hnil
    rw [netIn_eq, hnil] at hne
    exact hne rfl
  obtain ⟨r, hr⟩ := List.exists_mem_of_ne_nil _ hrows
  obtain ⟨-, hpos, hsid⟩ := mem_rowsIn.mp hr
  rw [TxnRow.isPosition, Bool.and_eq_true] at hpos
  obtain ⟨htruthy, -⟩ := hpos
  have hname : r.securityId = some sid := by
    rw [TxnRow.sid] at hsid
    cases hsec : r.securityId with
    | none =>
      rw [hsec] at htruthy
      cases htruthy
    | some sid' =>
      rw [hsec] at hsid
      exact congrArg some hsid
  rw [hname] at htruthy
  rw [TxnRow.isPosition]
  exact Bool.and_eq_true_iff.mpr ⟨htruthy, rfl⟩

/-- **The lapse step does the same on either backend exactly when** no group that takes a new
settlement has anything dated to compare it with. -/
theorem synthesizeOn_agrees_iff :
    exec (synthesizeLapsedSettlementsOn .naive account args) s =
        exec (synthesizeLapsedSettlementsOn .aware account args) s ↔
      ∀ rows, lapseSettlements s account args = .ok rows → args.dryRun = false →
        ∀ g ∈ openGroupsOf s account, g.newRows (ownRows rows g) ≠ [] →
          NothingToCompare s g (g.newRows (ownRows rows g)) := by
  have hgroup : ∀ rows, lapseSettlements s account args = .ok rows → ∀ g,
      LapseComparable s .naive rows g ↔ (g.newRows (ownRows rows g) ≠ [] →
        NothingToCompare s g (g.newRows (ownRows rows g))) := by
    intro rows hrows g
    refine forall_congr' fun hne => ?_
    have hnew : ∀ r ∈ g.newRows (ownRows rows g),
        r.isPosition = true ∧ r.executedAt.isSome = true := fun r hr =>
      settlement_position s account args hrows
        (List.mem_of_mem_filter (List.mem_of_mem_filter hr))
    rw [MembersComparable, comparable_members_iff hne (fun r hr => (hnew r hr).1)
      fun r hr => (hnew r hr).2]
    have hfut : FuturesComparable s (g.stamped .naive ++ madeRows (g.newRows (ownRows rows g))) ↔
        ∀ sid, isFuture (s.getSecurity sid) = true →
          (∀ r ∈ g.rows, r.securityId = some sid → r.executedAt = none) ∨
            (∀ r ∈ g.rows, r.securityId = some sid → r.executedAt.isSome = true) ∧
              ∀ r ∈ g.newRows (ownRows rows g), r.securityId ≠ some sid :=
      forall₂_congr fun sid _ => comparable_future_iff fun r hr => (hnew r hr).2
    rw [hfut]
    exact ⟨fun h => ⟨h.1, h.2⟩, fun h => ⟨h.positions, h.futures⟩⟩
  obtain ⟨hok, herr⟩ := exec_synthesizeOn s .naive account args
  rw [exec_synthesizeOn_aware]
  constructor
  · intro h rows hrows hdry g hg hne
    by_contra hbad
    have hsome : rows ≠ [] := by
      rintro rfl
      exact hne rfl
    obtain ⟨s', hs'⟩ := herr fun hall =>
      hbad ((hgroup rows hrows g).mp (hall rows hrows ⟨hsome, hdry⟩ g hg) hne)
    rw [h, exec_synthesizeLapsedSettlements, hrows] at hs'
    cases hs'
  · intro h
    exact hok fun rows hrows happ g hg => (hgroup rows hrows g).mpr (h rows hrows happ.2 g hg)

end Step

/-! ## A dated fill -/

/-- The fill of `longPut` and its settlement do not compare on a backend with naive instants. -/
theorem not_synthesizeOn_agrees :
    (exec (synthesizeLapsedSettlementsOn .naive "A" settleAt550) longPut).1 = .error cantCompare ∧
      ((exec (synthesizeLapsedSettlementsOn .aware "A" settleAt550) longPut).1.toOption.map
        List.length) = some 1 := by
  constructor <;> decide +kernel

end TtLedger
