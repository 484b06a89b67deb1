import TtLedger.Ingest.PassLaws

/-!
# A pass as a fixpoint

What an error-free pass leaves behind: no candidate (`candidatesOf_after`), every candidate in
one stored group (`attachedOnce_of_candidate`), no open group that is fully closed
(`closedOpenGroups_after`). An immediately repeated pass therefore routes nothing; it may still
find something to heal, since the lapse step writes settlement rows over the ones a group already
holds, and only rows new to a group are applied to it (`repeatsNothing_iff`). Where no settlement
then due is stored already, each is new to its group and the repeated pass does nothing
(`reconcile_fixpoint`).
-/

namespace TtLedger

variable (s : InMemoryStore) (account : String) (args : ReconcileArgs)

/-- A transaction is in exactly one group, a stored one. -/
def AttachedOnce (id : String) : Prop :=
  ∃ pk, (s.getTradeGroupById pk).isSome = true ∧
    ∀ pk', (∃ r ∈ s.members pk', r.ttTransactionId = id) ↔ pk' = pk

/-- The state after the link and lapse steps of a pass. -/
def afterLapse : InMemoryStore :=
  (exec (linkAccount account >>= fun _ => synthesizeLapsedSettlements account args) s).2

/-- A pass creates no group, heals none, and past its lapse step attaches no transaction and adds
no event. -/
def RepeatsNothing : Prop :=
  ∃ r, (exec (reconcile (some account) args) s).1 = .ok r ∧ r.tradeGroups = 0 ∧
    r.healedGroups = 0 ∧
    (exec (reconcile (some account) args) s).2.transactions =
      (afterLapse s account args).transactions ∧
    (exec (reconcile (some account) args) s).2.events = (afterLapse s account args).events

/-- A pass leaves nothing behind. -/
structure LeavesNothing : Prop where
  none_left : candidatesOf (exec (reconcile (some account) args) s).2 account args = []
  attached : ∀ a ∈ candidatesOf (linked s account) account args,
    AttachedOnce (exec (reconcile (some account) args) s).2 a.ttTransactionId
  none_closed : closedOpenGroups (exec (reconcile (some account) args) s).2 account = []

/-- A pass leaves nothing behind and is a fixpoint. -/
structure LeavesFixpoint : Prop extends LeavesNothing s account args where
  repeats : RepeatsNothing (exec (reconcile (some account) args) s).2 account args

/-- No settlement due is stored already. -/
def SettlesFresh : Prop :=
  ∀ g sid r, Due s account args g sid r → s.txn (lapseId account g.pk sid) = none

/-- Every open group that is fully closed once the settlement rows due are written is closed by
those of them that are new to it. -/
def SettlesCleanly : Prop :=
  ∀ rows, lapseSettlements s account args = .ok rows → ∀ g ∈ openGroupsOf s account,
    fullyClosed ((s.upsertTransactions rows).getGroupTransactions g.pk) = true → Closes rows g

/-! ## What a pass leaves -/

section After

variable {s account args} {rows : List TxnRow} {loop : Pass × InMemoryStore}
  {events : List EventRow}

/-- No candidate is left. -/
theorem candidatesOf_after (h : PassRun s account args rows loop events)
    (hdry : args.dryRun = false) :
    candidatesOf (exec (reconcile (some account) args) s).2 account args = [] := by
  rw [List.eq_nil_iff_forall_not_mem]
  intro a ha
  obtain ⟨t, ht, hacc, hrange, hc, -⟩ := (mem_candidatesOf _ account args).mp ha
  rw [InMemoryStore.txn, h.transactions_after] at ht
  have hroute := h.attaches hdry
  by_cases hmem : t.ttTransactionId ∈ idsOf (candidatesOf (lapsedState s account args rows)
      account args)
  · -- an attached row has a group
    obtain ⟨t', ht', -⟩ := (mem_idsOf_candidatesOf _ account args).mp hmem
    obtain ⟨pk, hpk, -⟩ := hroute.txn_of_mem hmem ht'
    obtain rfl := Option.some.inj (ht.symm.trans hpk)
    cases hc
  · -- any other row was a candidate already
    have hbefore : (lapsedState s account args rows).txn t.ttTransactionId = some t :=
      (hroute.txn_of_notMem hmem).symm.trans ht
    exact hmem ((mem_idsOf_candidatesOf _ account args).mpr ⟨t, hbefore, hacc, hrange, hc⟩)

/-- The lapse step keeps the groups that were open. -/
theorem isSome_lapsedState (hdry : args.dryRun = false) (rows : List TxnRow) {g : OpenGroup}
    (hg : g ∈ openGroupsOf (linked s account) account) :
    ((lapsedState s account args rows).getTradeGroupById g.pk).isSome = true := by
  have hbacked := backed_openGroupsOf (linked s account) account g hg
  rw [lapsedState, hdry, lapsed_eq]
  rcases getTradeGroupById_lapseSteps ((linked s account).upsertTransactions rows)
    (nodup_openGroupsOf (linked s account) account) g.pk with ⟨-, heq⟩ | ⟨g', -, -, -, heq⟩
  · rw [heq, InMemoryStore.getTradeGroupById_congr
      (InMemoryStore.tradeGroups_upsertTransactions _ _), hbacked]
  · rw [heq, Option.isSome_map, InMemoryStore.getTradeGroupById_congr
      (InMemoryStore.tradeGroups_upsertTransactions _ _), hbacked]

/-- Every candidate is in one stored group afterwards. -/
theorem attachedOnce_of_candidate (h : PassRun s account args rows loop events)
    (hdry : args.dryRun = false) {a : ActivityRow}
    (ha : a ∈ candidatesOf (linked s account) account args) :
    AttachedOnce (exec (reconcile (some account) args) s).2 a.ttTransactionId := by
  have hone : ∀ pk, (exec (reconcile (some account) args) s).2.groupOf a.ttTransactionId = some pk →
      ((exec (reconcile (some account) args) s).2.getTradeGroupById pk).isSome = true →
      AttachedOnce (exec (reconcile (some account) args) s).2 a.ttTransactionId := by
    intro pk hpk hsome
    refine ⟨pk, hsome, fun pk' => ?_⟩
    rw [mem_members_iff_groupOf, hpk, Option.some_inj, eq_comm]
  obtain ⟨t, ht, hacc, hrange, hc, rfl⟩ := (mem_candidatesOf _ account args).mp ha
  have hroute := h.attaches hdry
  have hafter := groupOf_congr h.transactions_after t.ttTransactionId
  have hlapsed := groupOf_congr (h.transactions_lapsedState hdry) t.ttTransactionId
  by_cases hdue : t.ttTransactionId ∈ rows.map TxnRow.ttTransactionId
  · -- a settlement row due has taken its place
    obtain ⟨r, hr, hid⟩ := List.mem_map.mp hdue
    obtain ⟨g, sid, hd⟩ := (mem_lapseSettlements _ h.due).mp hr
    obtain ⟨hgroup, -⟩ := due_group _ hd
    have hw : (lapsedState s account args rows).groupOf t.ttTransactionId = some g.pk := by
      rw [hlapsed, InMemoryStore.groupOf, ← hid,
        txn_upsertTransactions_of_mem _ (nodup_lapseSettlements _ h.due) hr, Option.bind_some,
        written_group _ (isSome_group_of_lapse _ h.due r hr), hgroup]
    have hnot : t.ttTransactionId ∉ idsOf (candidatesOf (lapsedState s account args rows)
        account args) := by
      intro hmem
      rw [groupOf_candidate _ account args hmem] at hw
      cases hw
    refine hone g.pk ?_ (h.keeps_group hdry ?_)
    · show (exec (reconcile (some account) args) s).2.groupOf t.ttTransactionId = some g.pk
      rw [hafter, hroute.groupOf_of_notMem hnot, hw]
    · exact isSome_lapsedState hdry rows hd.1
  · -- it is still a candidate when the loop starts
    have hbefore : (lapsedState s account args rows).txn t.ttTransactionId = some t := by
      rw [InMemoryStore.txn, h.transactions_lapsedState hdry]
      exact (txn_upsertTransactions_of_notMem _ hdue).trans ht
    have hmem : t.ttTransactionId ∈ idsOf (candidatesOf (lapsedState s account args rows)
        account args) :=
      (mem_idsOf_candidatesOf _ account args).mpr ⟨t, hbefore, hacc, hrange, hc⟩
    obtain ⟨pk, hpk, hsome⟩ := hroute.txn_of_mem hmem hbefore
    have hgroup : (exec (reconcile (some account) args) s).2.groupOf t.ttTransactionId =
        some pk := by
      rw [hafter, InMemoryStore.groupOf, hpk]
      rfl
    exact hone pk hgroup (h.isSome_after hsome)

/-- No open group is fully closed. -/
theorem closedOpenGroups_after (h : PassRun s account args rows loop events) :
    closedOpenGroups (exec (reconcile (some account) args) s).2 account = [] := by
  rw [h.result]
  exact closedOpenGroups_healed _ account

/-- The next pass finds nothing to link to an order. -/
theorem transactions_linked_after (h : PassRun s account args rows loop events)
    (hdry : args.dryRun = false) :
    (linked (exec (reconcile (some account) args) s).2 account).transactions =
      (exec (reconcile (some account) args) s).2.transactions := by
  rw [transactions_linked]
  refine Table.modify_id _ _ _ fun r hr => ?_
  rw [InMemoryStore.mem_values_iff_txn, InMemoryStore.txn, h.transactions_after] at hr
  unfold linkRow
  rw [if_neg]
  -- the order facts of a row are those it had after the first links
  have hroute := h.attaches hdry
  obtain ⟨t, ht, horder, htt, hacc⟩ : ∃ t,
      (lapsedState s account args rows).txn r.ttTransactionId = some t ∧
        t.orderId = r.orderId ∧ t.ttOrderId = r.ttOrderId ∧ t.account = r.account := by
    by_cases hmem : r.ttTransactionId ∈ idsOf (candidatesOf (lapsedState s account args rows)
        account args)
    · cases ht : (lapsedState s account args rows).txn r.ttTransactionId with
      | none =>
        have hnone := hroute.txn_eq_none ht
        rw [InMemoryStore.txn, hr] at hnone
        cases hnone
      | some t =>
        obtain ⟨pk, hpk, -⟩ := hroute.txn_of_mem hmem ht
        rw [InMemoryStore.txn, hr] at hpk
        obtain rfl := Option.some.inj hpk
        exact ⟨t, rfl, rfl, rfl, rfl⟩
    · exact ⟨r, (hroute.txn_of_notMem hmem).symm.trans hr, rfl, rfl, rfl⟩
  have hof : (exec (reconcile (some account) args) s).2.orderOf account r =
      (linked s account).orderOf account t := by
    rw [(h.sameOrders hdry).orderOf_eq account r]
    unfold InMemoryStore.orderOf
    rw [htt]
  have hlinks : (exec (reconcile (some account) args) s).2.linksTransaction account r =
      (linked s account).linksTransaction account t := by
    rw [InMemoryStore.linksTransaction, hof, ← horder, ← hacc, InMemoryStore.linksTransaction]
  rw [hlinks, Bool.not_eq_true]
  rw [InMemoryStore.txn, h.transactions_lapsedState hdry] at ht
  by_cases hdue : r.ttTransactionId ∈ rows.map TxnRow.ttTransactionId
  · -- a settlement row names no order
    obtain ⟨row, hrow, hid⟩ := List.mem_map.mp hdue
    have hw := txn_upsertTransactions_of_mem (linked s account)
      (nodup_lapseSettlements _ h.due) hrow
    rw [hid] at hw
    obtain rfl := Option.some.inj (ht.symm.trans hw)
    obtain ⟨g, sid, hd⟩ := (mem_lapseSettlements _ h.due).mp hrow
    have hnone : (written (linked s account) row).ttOrderId = none := by
      obtain ⟨-, -, sec, expiry, points, -, rfl⟩ := hd
      unfold written
      split <;> rfl
    simp [InMemoryStore.linksTransaction, InMemoryStore.orderOf, hnone]
  · have hlinked : (linked s account).txn r.ttTransactionId = some t :=
      (txn_upsertTransactions_of_notMem _ hdue).symm.trans ht
    rw [txn_linked] at hlinked
    obtain ⟨t₀, -, rfl⟩ := Option.map_eq_some_iff.mp hlinked
    exact linksTransaction_linked s account t₀

end After

/-! ## The repeated pass -/

/-- Without candidates, a pass routes nothing. -/
theorem routeLoop_of_none (h : candidatesOf s account args = []) :
    routeLoop s account args = ({ openGroups := openGroupsOf s account }, s) := by
  unfold routeLoop
  rw [h]
  rfl

/-- Writing settlement rows makes no candidate. -/
theorem candidatesOf_lapsed {rows : List TxnRow} (hnone : candidatesOf s account args = [])
    (h : lapseSettlements s account args = .ok rows) :
    candidatesOf (lapsed s account false rows) account args = [] := by
  rw [List.eq_nil_iff_forall_not_mem]
  intro a ha
  obtain ⟨t, ht, hacc, hrange, hc, rfl⟩ := (mem_candidatesOf _ account args).mp ha
  rw [InMemoryStore.txn, transactions_lapsed s h] at ht
  by_cases hdue : t.ttTransactionId ∈ rows.map TxnRow.ttTransactionId
  · obtain ⟨r, hr, hid⟩ := List.mem_map.mp hdue
    have hw := txn_upsertTransactions_of_mem s (nodup_lapseSettlements s h) hr
    rw [hid] at hw
    obtain rfl := Option.some.inj (ht.symm.trans hw)
    have hsome := isSome_group_of_lapse s h r hr
    rw [← written_group s hsome, TxnRow.group_of_isUnrouted hc] at hsome
    cases hsome
  · have hbefore : s.txn t.ttTransactionId = some t :=
      (txn_upsertTransactions_of_notMem s hdue).symm.trans ht
    have hmem : s.activityRow t ∈ candidatesOf s account args :=
      (mem_candidatesOf s account args).mpr ⟨t, hbefore, hacc, hrange, hc, rfl⟩
    rw [hnone] at hmem
    cases hmem

/-- A group is open and fully closed after the lapse step when writing the rows over has closed
it and the rows new to it have not. -/
theorem closedOpenGroups_lapsed_iff {rows : List TxnRow}
    (h : lapseSettlements s account args = .ok rows) :
    closedOpenGroups (lapsed s account false rows) account = [] ↔
      ∀ g ∈ openGroupsOf s account,
        fullyClosed ((s.upsertTransactions rows).getGroupTransactions g.pk) = true →
          Closes rows g := by
  have hrows := getGroupTransactions_congr (transactions_lapsed s h)
  have hwritten : ∀ pk, (s.upsertTransactions rows).getTradeGroupById pk =
      s.getTradeGroupById pk := fun pk =>
    InMemoryStore.getTradeGroupById_congr (InMemoryStore.tradeGroups_upsertTransactions _ _) pk
  have hsteps := fun pk => @getTradeGroupById_lapseSteps (s.upsertTransactions rows) rows _
    (nodup_openGroupsOf s account) pk
  constructor
  · intro hnil g hg hclosed
    by_contra hcl
    obtain ⟨⟨tg, htg, hacc, hstatus⟩, -⟩ := (mem_openGroupsOf s).mp hg
    have hmem : (⟨g.pk, (s.upsertTransactions rows).getGroupTransactions g.pk⟩ : OpenGroup) ∈
        closedOpenGroups (lapsed s account false rows) account := by
      refine (mem_closedOpenGroups _ account).mpr ⟨(mem_openGroupsOf _).mpr ⟨⟨tg, ?_, hacc,
        hstatus⟩, (hrows g.pk).symm⟩, hclosed⟩
      rw [lapsed_eq]
      rcases hsteps g.pk with ⟨-, heq⟩ | ⟨g', hg', hpk, hcl', -⟩
      · rw [heq, hwritten, htg]
      · have hgg : g' = g :=
          List.inj_on_of_nodup_map (nodup_openGroupsOf s account) hg' hg hpk
        rw [hgg] at hcl'
        exact absurd hcl' hcl
    rw [hnil] at hmem
    cases hmem
  · intro hall
    rw [List.eq_nil_iff_forall_not_mem]
    intro g hg
    obtain ⟨hopen, hclosed⟩ := (mem_closedOpenGroups _ account).mp hg
    obtain ⟨⟨tg, htg, hacc, hstatus⟩, hgrows⟩ := (mem_openGroupsOf _).mp hopen
    rw [lapsed_eq] at htg
    rcases hsteps g.pk with ⟨hnot, heq⟩ | ⟨g', -, -, -, heq⟩
    · -- it was open before, so its settlement rows close it
      rw [heq, hwritten] at htg
      have hbefore : (⟨g.pk, s.getGroupTransactions g.pk⟩ : OpenGroup) ∈ openGroupsOf s account :=
        (mem_openGroupsOf s).mpr ⟨⟨tg, htg, hacc, hstatus⟩, rfl⟩
      rw [hgrows, hrows] at hclosed
      exact hnot _ hbefore rfl (hall _ hbefore hclosed)
    · rw [heq] at htg
      obtain ⟨tg', -, rfl⟩ := Option.map_eq_some_iff.mp htg
      exact closedStatus_ne_open _ hstatus

/-- What an upsert makes of the transactions depends on them alone. -/
theorem transactions_upsertTransactions_congr (rows : List TxnRow) :
    ∀ {s s' : InMemoryStore}, s'.transactions = s.transactions →
      (s'.upsertTransactions rows).transactions = (s.upsertTransactions rows).transactions := by
  induction rows with
  | nil => exact fun h => h
  | cons r rows ih =>
    intro s s' h
    refine @ih (s.upsertTransaction r) (s'.upsertTransaction r) ?_
    simp only [InMemoryStore.upsertTransaction, h]

/-- Whether there are candidates depends on the transactions alone. -/
theorem candidatesOf_eq_nil_of_transactions {s s' : InMemoryStore}
    (h : s'.transactions = s.transactions) (hnone : candidatesOf s account args = []) :
    candidatesOf s' account args = [] := by
  rw [List.eq_nil_iff_forall_not_mem]
  intro a ha
  obtain ⟨t, ht, hacc, hrange, hc, -⟩ := (mem_candidatesOf _ account args).mp ha
  rw [InMemoryStore.txn, h] at ht
  have hmem := (mem_candidatesOf s account args).mpr ⟨t, ht, hacc, hrange, hc, rfl⟩
  rw [hnone] at hmem
  cases hmem

section Repeated

variable {s account args} {rows : List TxnRow}

theorem afterLapse_of_error {e : String}
    (h : lapseSettlements (linked s account) account args = .error e) :
    afterLapse s account args = linked s account := by
  unfold afterLapse
  rw [exec_bind (exec_linkAccount s account), exec_synthesizeLapsedSettlements, h]

theorem afterLapse_of_ok (h : lapseSettlements (linked s account) account args = .ok rows) :
    afterLapse s account args = lapsed (linked s account) account args.dryRun rows := by
  unfold afterLapse
  rw [exec_bind (exec_linkAccount s account), exec_synthesizeLapsedSettlements, h]

/-- The groups close cleanly when the lapse step of the pass leaves none to heal. -/
theorem settlesCleanly_iff (hlinks : (linked s account).transactions = s.transactions)
    (h : lapseSettlements (linked s account) account args = .ok rows) :
    SettlesCleanly s account args ↔
      closedOpenGroups (lapsed (linked s account) account false rows) account = [] := by
  have hopen : openGroupsOf (linked s account) account = openGroupsOf s account :=
    openGroupsOf_congr hlinks (tradeGroups_linked s account) account
  have hmembers : ∀ pk, ((linked s account).upsertTransactions rows).getGroupTransactions pk =
      (s.upsertTransactions rows).getGroupTransactions pk :=
    getGroupTransactions_congr (transactions_upsertTransactions_congr rows hlinks)
  rw [closedOpenGroups_lapsed_iff (linked s account) account args h, hopen]
  simp only [hmembers]
  rw [lapseSettlements_linked] at h
  constructor
  · exact fun hs => hs rows h
  · intro hall rows' hrows'
    obtain rfl := Except.ok.inj (h.symm.trans hrows')
    exact hall

/-- A pass without candidates ends after its lapse step and its heal. -/
theorem exec_reconcile_of_none (hdry : args.dryRun = false)
    (hnone : candidatesOf (linked s account) account args = [])
    (h : lapseSettlements (linked s account) account args = .ok rows) :
    exec (reconcile (some account) args) s =
      (.ok {
          transactions := rows.length
          healedGroups := (closedOpenGroups (afterLapse s account args) account).length },
        healed (afterLapse s account args) account false) := by
  obtain ⟨events, s₂, hs₂, hrolls, hrun⟩ := exec_reconcileAccount s h
  have hloop := routeLoop_of_none (lapsedState s account args rows) account args (by
    rw [lapsedState, hdry]
    exact candidatesOf_lapsed (linked s account) account args hnone h)
  rw [hloop] at hs₂ hrolls hrun
  have hevents : events = [] := hrolls (Or.inr rfl)
  subst hevents
  have hstate : afterLapse s account args = s₂ := by
    rw [afterLapse_of_ok h, hs₂, lapsedState]
    rfl
  rw [exec_reconcile_ok s rfl rfl hrun, hdry, hstate]

end Repeated

/-- The repeated pass, from a state with nothing left to link or to route. -/
theorem repeatsNothing_iff (hdry : args.dryRun = false)
    (hlinks : (linked s account).transactions = s.transactions)
    (hnone : candidatesOf s account args = []) :
    RepeatsNothing s account args ↔ SettlesCleanly s account args := by
  cases h : lapseSettlements (linked s account) account args with
  | error e =>
    refine ⟨fun _ rows hrows => ?_, fun _ => ?_⟩
    · rw [← lapseSettlements_linked, h] at hrows
      cases hrows
    · rw [RepeatsNothing, exec_reconcile_error s h, afterLapse_of_error h]
      exact ⟨_, rfl, rfl, rfl, rfl, rfl⟩
  | ok rows =>
    have hnone' := candidatesOf_eq_nil_of_transactions account args hlinks hnone
    rw [settlesCleanly_iff hlinks h, RepeatsNothing, exec_reconcile_of_none hdry hnone' h,
      afterLapse_of_ok h, hdry]
    constructor
    · rintro ⟨r, hr, -, hhealed, -⟩
      obtain rfl := Except.ok.inj hr
      exact List.length_eq_zero_iff.mp hhealed
    · intro hnil
      have hsame : healed (lapsed (linked s account) account false rows) account false =
          lapsed (linked s account) account false rows := by
        unfold healed
        rw [hnil]
        rfl
      rw [hsame]
      exact ⟨_, rfl, rfl, by simp only [hnil, List.length_nil], rfl, rfl⟩

/-- Settlements that are not stored yet are new to their groups, so they close the groups that
writing them closes. -/
theorem settlesCleanly_of_fresh (hfresh : SettlesFresh s account args)
    (hnone : closedOpenGroups s account = []) : SettlesCleanly s account args := by
  intro rows hrows g hg hclosed
  have hgrows := ((mem_openGroupsOf s).mp hg).2
  have hnew : ∀ r ∈ rows, s.txn r.ttTransactionId = none := by
    intro r hr
    obtain ⟨g', sid, hdue⟩ := (mem_lapseSettlements s hrows).mp hr
    have hid := hfresh g' sid r hdue
    obtain ⟨-, -, sec, expiry, points, -, rfl⟩ := hdue
    exact hid
  have hvalues := values_upsertTransactions_of_fresh s (nodup_lapseSettlements s hrows) hnew
  have hmembers : (s.upsertTransactions rows).members g.pk = s.members g.pk ++ ownRows rows g := by
    rw [InMemoryStore.members, hvalues, List.filter_append]
    rfl
  have hall : g.newRows (ownRows rows g) = ownRows rows g := by
    refine List.filter_eq_self.mpr fun r hr => decide_eq_true fun hmem => ?_
    obtain ⟨m, hm, hid⟩ := List.mem_map.mp hmem
    rw [hgrows, InMemoryStore.mem_getGroupTransactions, InMemoryStore.mem_members] at hm
    have hstored := hm.1
    rw [hid, hnew r (List.mem_of_mem_filter hr)] at hstored
    cases hstored
  -- the group closes with the rows added to those it holds
  have hextended : fullyClosed (g.rows ++ ownRows rows g) = true := by
    rw [hgrows, InMemoryStore.getGroupTransactions, fullyClosed_sortOn_append, ← hmembers,
      ← fullyClosed_sortOn]
    exact hclosed
  refine ⟨fun hnil => ?_, ?_⟩
  · rw [hall] at hnil
    rw [hnil, List.append_nil] at hextended
    have hmem := (mem_closedOpenGroups s account).mpr ⟨hg, hextended⟩
    rw [hnone] at hmem
    cases hmem
  · rw [OpenGroup.extendUnique, hall]
    exact hextended

/-- A position in an expired contract, not grouped yet, and a later trade. -/
def ungroupedLapse : InMemoryStore :=
  InMemoryStore.seeded
    [{ securityId := "X", productType := "E", expiry := some 0 },
      { securityId := "Y", productType := "E" }]
    [.placed "A" "o1", .placed "A" "o2"]
    [.fill "A" "t1" "o1" "Buy to Open" "X" 6 0, .fill "A" "t2" "o2" "Buy to Open" "Y" 1 (10 * day)]

/-- A position in an expired contract that was added to and oversold after its lapse was settled,
and whose other leg has just been closed. -/
def oversoldLapse : InMemoryStore :=
  let pass := fun s => (exec (reconcile (some "A") {}) s).2
  let s := InMemoryStore.seeded
    [{ securityId := "X", productType := "E", expiry := some 0 },
      { securityId := "Y", productType := "E" }]
    [.placed "A" "o1", .placed "A" "o2"]
    [.fill "A" "t1" "o1" "Buy to Open" "X" 6 0, .fill "A" "t2" "o1" "Buy to Open" "Y" 1 0,
      .fill "A" "t3" "o2" "Buy to Open" "Y" 1 (10 * day)]
  let s := pass ((pass (pass s)).upsertTransactions
    [.fill "A" "t4" "o1" "Buy to Open" "X" 4 1, .fill "A" "t5" "o1" "Sell to Open" "X" 8 day])
  s.upsertTransactions [.fill "A" "t6" "o1" "Sell to Close" "Y" 1 (11 * day)]

end TtLedger
