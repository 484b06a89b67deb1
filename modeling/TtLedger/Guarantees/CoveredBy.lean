import TtLedger.Ingest.RegroupLaws
import TtLedger.Guarantees.StuckGroups

/-!
# A covering group resolves the report

A detector tests a merge on the rows of two groups; the regroup that makes the merge reads the
store again. Where rows of one security have distinct times and rows are in groups of their own
account, the regroup finds the rows that were tested, so the merged group is closed under the
status and P&L of its rows and the group that is left empty is ignored (`coveredBy_resolves`).
-/

namespace TtLedger

variable {s s' : InMemoryStore} {account reviewedBy : String} {source pk : ℕ}

/-- Rows of an account and security have distinct times, undated ones counting as simultaneous,
and every row is in a group of its own account. -/
structure InMemoryStore.Orderly (s : InMemoryStore) (account : String) : Prop where
  distinct : ∀ r ∈ s.transactions.values, ∀ r' ∈ s.transactions.values,
    r.account = account → r'.account = account → r.isPosition = true → r'.isPosition = true →
    r.sid = r'.sid → r.executedAt = r'.executedAt → r = r'
  owned : ∀ r ∈ s.transactions.values, ∀ pk, r.tradeGroupId = some pk →
    ∃ tg, s.getTradeGroupById pk = some tg ∧ tg.account = r.account

/-- The surrogate identifiers of a group's transactions. -/
def InMemoryStore.memberIds (s : InMemoryStore) (pk : ℕ) : List ℕ :=
  (s.transactions.rows.filter fun p => p.2.tradeGroupId = some pk).map Prod.fst

/-- What the merge of a group into another leaves: the rows of both in the one, closed under a
terminal status at what they realize, and the other ignored and out of both reports. -/
structure Resolved (s s' : InMemoryStore) (source pk : ℕ) : Prop where
  rows : ((s'.getGroupTransactions pk).map TxnRow.book).Perm
    ((s.getGroupTransactions source ++ s.getGroupTransactions pk).map TxnRow.book)
  flat : ∀ sid, netIn (s'.getGroupTransactions pk) sid = 0
  merged : ∃ tg, s'.getTradeGroupById pk = some tg ∧ tg.status ≠ .open ∧
    tg.realizedPnl = some (realizedOf s'.getSecurity (s'.members pk))
  emptied : ∃ tg, s'.getTradeGroupById source = some tg ∧ s'.getGroupTransactions source = [] ∧
    tg.reviewStatus = .ignored ∧ tg.realizedPnl = none
  unreported : ∀ account, ¬Detects (findMisattributedOpenGroups account) s' source ∧
    ¬Detects (findOrphanSettlementGroups account) s' source

/-- A group without rows is in neither report. -/
theorem not_detects_of_empty (account : String) (h : s.getGroupTransactions pk = []) :
    ¬Detects (findMisattributedOpenGroups account) s pk ∧
      ¬Detects (findOrphanSettlementGroups account) s pk := by
  have hrows : ∀ g ∈ openGroupsOf s account, g.pk = pk → g.rows = [] := by
    rintro g hg rfl
    rw [((mem_openGroupsOf s).mp hg).2, h]
  constructor
  · intro hdetects
    obtain ⟨g, hg, hpk, ⟨sid, hnet⟩, -⟩ := detects_misattributed_iff.mp hdetects
    rw [hrows g hg hpk] at hnet
    exact hnet rfl
  · intro hdetects
    obtain ⟨g, hg, hpk, ⟨r, hr, -⟩, -⟩ := detects_orphan_iff.mp hdetects
    rw [hrows g hg hpk] at hr
    cases hr

/-! ## The rows of the two groups -/

theorem getTransactionsById_memberIds (s : InMemoryStore) (pk : ℕ) :
    s.getTransactionsById (s.memberIds pk) = s.members pk := by
  have hids : ∀ p ∈ s.transactions.rows,
      (s.memberIds pk).contains p.1 = decide (p.2.tradeGroupId = some pk) := by
    intro p hp
    rw [Bool.eq_iff_iff, List.contains_iff_mem, decide_eq_true_eq, InMemoryStore.memberIds,
      List.mem_map]
    constructor
    · rintro ⟨q, hq, hid⟩
      obtain ⟨hq, hgroup⟩ := List.mem_filter.mp hq
      rw [← Table.eq_of_mem_of_id hq hp hid]
      exact of_decide_eq_true hgroup
    · exact fun hgroup => ⟨p, List.mem_filter.mpr ⟨hp, decide_eq_true hgroup⟩, rfl⟩
  rw [InMemoryStore.getTransactionsById, List.filter_congr hids, InMemoryStore.members,
    Table.values, List.filter_map]
  rfl

theorem accountBook_eq (s : InMemoryStore) (account : String) :
    s.accountBook account = s.transactions.values.filter fun r => r.account = account :=
  s.toTxnRow_accountActivity account

namespace InMemoryStore.Orderly

/-- The rows of a group of the account are the account's rows in it. -/
theorem accountBook_filter (h : s.Orderly account) {tg : TradeGroupRow}
    (htg : s.getTradeGroupById pk = some tg) (haccount : tg.account = account) :
    (s.accountBook account).filter (fun r => r.tradeGroupId = some pk) = s.members pk := by
  rw [accountBook_eq, List.filter_filter]
  refine List.filter_congr fun r hr => ?_
  by_cases hgroup : r.tradeGroupId = some pk
  · obtain ⟨tg', htg', hown⟩ := h.owned r hr pk hgroup
    rw [htg] at htg'
    obtain rfl := Option.some.inj htg'
    simp [hgroup, ← hown, haccount]
  · simp [hgroup]

theorem account_of_member (h : s.Orderly account) {tg : TradeGroupRow}
    (htg : s.getTradeGroupById pk = some tg) (haccount : tg.account = account) {r : TxnRow}
    (hr : r ∈ s.members pk) :
    r.account = account := by
  rw [← h.accountBook_filter htg haccount, accountBook_eq] at hr
  exact of_decide_eq_true (List.mem_filter.mp (List.mem_filter.mp hr).1).2

/-- No two rows of the account meet in the walk. -/
theorem tiesCommute (h : s.Orderly account) {rows : List TxnRow}
    (hrows : ∀ r ∈ rows, r ∈ s.transactions.values ∧ r.account = account) : TiesCommute rows := by
  intro a ha b hb hpa hpb hsid htime net
  obtain ⟨hamem, haccount⟩ := hrows a ha
  obtain ⟨hbmem, hbaccount⟩ := hrows b hb
  rw [h.distinct a hamem b hbmem haccount hbaccount hpa hpb hsid htime]

end InMemoryStore.Orderly

/-! ## The merge -/

section Merge

/-- The rows of two groups, in table order. -/
def bothMembers (s : InMemoryStore) (source pk : ℕ) : List TxnRow :=
  s.transactions.values.filter fun r => r.tradeGroupId = some source ∨ r.tradeGroupId = some pk

theorem bothMembers_perm (s : InMemoryStore) (hne : source ≠ pk) :
    (bothMembers s source pk).Perm (s.members source ++ s.members pk) := by
  have hsource : (bothMembers s source pk).filter (fun r => r.tradeGroupId = some source) =
      s.members source := by
    rw [bothMembers, List.filter_filter]
    refine List.filter_congr fun r _ => ?_
    by_cases hgroup : r.tradeGroupId = some source <;> simp [hgroup]
  have hpk : (bothMembers s source pk).filter (fun r => !decide (r.tradeGroupId = some source)) =
      s.members pk := by
    rw [bothMembers, List.filter_filter]
    refine List.filter_congr fun r _ => ?_
    by_cases hgroup : r.tradeGroupId = some source
    · simp [hgroup, hne]
    · simp [hgroup]
  rw [← hsource, ← hpk]
  exact (List.filter_append_perm _ _).symm

variable {moved : List TxnRow}

theorem movedRow_members {target : ℕ} {r : TxnRow} (hr : r ∈ s.transactions.values) :
    movedRow (s.members source) target r =
      if r.tradeGroupId = some source then { r with tradeGroupId := some target } else r := by
  have hid : r.ttTransactionId ∈ (s.members source).map TxnRow.ttTransactionId ↔
      r.tradeGroupId = some source := by
    constructor
    · intro hid
      rw [← getTransactionsById_memberIds] at hid
      have hmem := mem_moved_of_id hr hid
      rw [getTransactionsById_memberIds] at hmem
      exact of_decide_eq_true (List.mem_filter.mp hmem).2
    · exact fun hgroup => List.mem_map_of_mem (List.mem_filter.mpr ⟨hr, decide_eq_true hgroup⟩)
  unfold movedRow
  simp only [hid]

/-- The rows of the target, after the move of a group's rows into it. -/
theorem members_target (hvalues : s'.transactions.values =
    s.transactions.values.map (movedRow (s.members source) pk)) :
    s'.members pk = (bothMembers s source pk).map (movedRow (s.members source) pk) := by
  rw [InMemoryStore.members, hvalues, List.filter_map, bothMembers]
  refine congrArg _ (List.filter_congr fun r hr => ?_)
  rw [Function.comp_apply, movedRow_members hr]
  by_cases hgroup : r.tradeGroupId = some source <;> simp [hgroup]

theorem members_source (hne : source ≠ pk) (hvalues : s'.transactions.values =
    s.transactions.values.map (movedRow (s.members source) pk)) : s'.members source = [] := by
  rw [InMemoryStore.members, hvalues, List.filter_map, List.map_eq_nil_iff,
    List.filter_eq_nil_iff]
  intro r hr
  rw [Function.comp_apply, movedRow_members hr]
  by_cases hgroup : r.tradeGroupId = some source
  · simpa [hgroup] using hne.symm
  · simp [hgroup]

/-- The target reads the books of both groups. -/
theorem sameBook_target (hvalues : s'.transactions.values =
    s.transactions.values.map (movedRow (s.members source) pk)) :
    SameBook (s'.members pk) (bothMembers s source pk) := by
  rw [SameBook, members_target hvalues, List.map_map]
  refine List.map_congr_left fun r _ => ?_
  rw [Function.comp_apply, movedRow]
  split <;> rfl

namespace InMemoryStore.Orderly

/-- The rows of two groups of the account are its rows. -/
theorem owned_members (h : s.Orderly account) {src tg : TradeGroupRow}
    (hsrc : s.getTradeGroupById source = some src) (hsrcAccount : src.account = account)
    (htg : s.getTradeGroupById pk = some tg) (haccount : tg.account = account) :
    ∀ r ∈ s.members source ++ s.members pk, r ∈ s.transactions.values ∧ r.account = account := by
  intro r hr
  rcases List.mem_append.mp hr with hr | hr
  · exact ⟨List.mem_of_mem_filter hr, h.account_of_member hsrc hsrcAccount hr⟩
  · exact ⟨List.mem_of_mem_filter hr, h.account_of_member htg haccount hr⟩

/-- The rows of the target are of the account. -/
theorem account_of_target (h : s.Orderly account) {src tg : TradeGroupRow}
    (hsrc : s.getTradeGroupById source = some src) (hsrcAccount : src.account = account)
    (htg : s.getTradeGroupById pk = some tg) (haccount : tg.account = account) (hne : source ≠ pk)
    (hvalues : s'.transactions.values =
      s.transactions.values.map (movedRow (s.members source) pk)) :
    ∀ r ∈ s'.members pk, r.account = account := by
  intro r hr
  rw [members_target hvalues] at hr
  obtain ⟨r₀, hr₀, rfl⟩ := List.mem_map.mp hr
  rw [account_movedRow]
  exact (h.owned_members hsrc hsrcAccount htg haccount r₀
    ((bothMembers_perm s hne).subset hr₀)).2

/-- The rows that were tested are the rows that are read. -/
theorem fullyClosed_target (h : s.Orderly account) {src tg : TradeGroupRow}
    (hsrc : s.getTradeGroupById source = some src) (hsrcAccount : src.account = account)
    (htg : s.getTradeGroupById pk = some tg) (haccount : tg.account = account) (hne : source ≠ pk)
    (hvalues : s'.transactions.values =
      s.transactions.values.map (movedRow (s.members source) pk)) :
    fullyClosed (s'.members pk) = fullyClosed (s.members source ++ s.members pk) := by
  rw [(sameBook_target hvalues).fullyClosed_eq]
  exact (fullyClosed_of_perm (bothMembers_perm s hne).symm
    (h.tiesCommute (h.owned_members hsrc hsrcAccount htg haccount))).symm

end InMemoryStore.Orderly

/-- **A merge closes both.** When the rows of two groups of the account together are fully closed,
the regroup that moves the rows of the one into the other leaves the other closed and the one
empty. -/
theorem resolved_of_merge (h : s.Orderly account) {src tg : TradeGroupRow}
    (hsrc : s.getTradeGroupById source = some src) (hsrcAccount : src.account = account)
    (htg : s.getTradeGroupById pk = some tg) (haccount : tg.account = account) (hne : source ≠ pk)
    (hrows : s.members source ≠ [])
    (hclosed : fullyClosed (s.members source ++ s.members pk) = true) (reviewedBy : String) :
    ∃ groups s', exec (regroupTransactions (s.memberIds source) (some tg.groupId) reviewedBy) s =
        (.ok groups, s') ∧ Resolved s s' source pk := by
  obtain ⟨first, hfirst⟩ : ∃ first, (s.members source).head? = some first :=
    Option.isSome_iff_exists.mp (by rw [List.isSome_head?]; simpa using hrows)
  have hids := getTransactionsById_memberIds s source
  obtain ⟨groups, s', hrun, -, hregrouped⟩ := exec_regroupTransactions (hids ▸ hfirst)
    (exec_regroupTarget_some first.account reviewedBy s.clock htg rfl)
  rw [hids] at hregrouped
  refine ⟨groups, s', hrun, ?_⟩
  have hvalues := hregrouped.values
  obtain ⟨first', s₁, -, htargets, hgroups⟩ := hregrouped.groups
  have hempty := members_source hne hvalues
  have hclosed' : fullyClosed (s'.members pk) = true :=
    (h.fullyClosed_target hsrc hsrcAccount htg haccount hne hvalues).trans hclosed
  -- the target's row is rewritten from the rows of both
  have hcluster : clusterOf s' pk (reviewed tg reviewedBy s.clock) = s'.members pk :=
    clusterOf_eq_members s' fun r hr =>
      (h.account_of_target hsrc hsrcAccount htg haccount hne hvalues r hr).trans haccount.symm
  have hpk := hgroups pk
  rw [if_pos (mem_affectedGroups.mpr (Or.inr rfl)), htargets.row_of_some htg, Option.map_some,
    recomputedRow_of_fullyClosed s' (by rw [hcluster]; exact hclosed'), hcluster] at hpk
  -- and the row of the group that is left empty from none
  have hsource := hgroups source
  obtain ⟨r, hr⟩ := List.exists_mem_of_ne_nil _ hrows
  have hgroup : r.tradeGroupId = some source := of_decide_eq_true (List.mem_filter.mp hr).2
  have hnil : clusterOf s' source src = [] :=
    (clusterOf_eq_members s' (by simp [hempty])).trans hempty
  rw [if_pos (mem_affectedGroups.mpr (Or.inl ⟨r, hr, hgroup⟩)), htargets.others source hne, hsrc,
    Option.map_some, recomputedRow_of_nil s' hnil] at hsource
  have hnone : s'.getGroupTransactions source = [] := by
    rw [InMemoryStore.getGroupTransactions, hempty]
    rfl
  have hsorted : fullyClosed (s'.getGroupTransactions pk) = true := by
    rw [InMemoryStore.getGroupTransactions, fullyClosed_sortOn]
    exact hclosed'
  exact
    { rows := by
        refine ((s'.getGroupTransactions_perm pk).map _).trans ?_
        rw [show (s'.members pk).map TxnRow.book = _ from sameBook_target hvalues]
        refine ((bothMembers_perm s hne).trans (List.Perm.append ?_ ?_)).map _
        · exact (s.getGroupTransactions_perm source).symm
        · exact (s.getGroupTransactions_perm pk).symm
      flat := netIn_of_fullyClosed hsorted
      merged := ⟨_, hpk, closedStatus_ne_open _, rfl⟩
      emptied := ⟨_, hsource, hnone, rfl, rfl⟩
      unreported := fun account => not_detects_of_empty account hnone }

end Merge

/-! ## The groups that cover a report -/

section Covered

/-- Only groups with rows are listed as closing more than they held. -/
theorem exists_row_of_overClosing {rows : List TxnRow} {sid : String}
    (h : pk ∈ ((overClosingGroups (rowsByGroup rows)).get? sid).getD []) :
    ∃ r ∈ rows, r.tradeGroupId = some pk := by
  have hlist : ∀ (l : List (String × ℕ)) (acc : List ℕ),
      l.foldl (fun pks p => pks ++ [p.2]) acc = acc ++ l.map Prod.snd := by
    intro l
    induction l with
    | nil => simp
    | cons p l ih =>
      intro acc
      rw [List.foldl_cons, ih, List.map_cons, List.append_assoc, List.singleton_append]
  rw [overClosingGroups, Dict.get?_accumulate] at h
  split at h
  · cases h
  · rw [Option.getD_some, hlist, List.nil_append] at h
    obtain ⟨p, hp, rfl⟩ := List.mem_map.mp h
    obtain ⟨e, he, hmem⟩ := List.mem_flatMap.mp (List.mem_filter.mp hp).1
    obtain ⟨sid', -, rfl⟩ := List.mem_map.mp hmem
    exact (mem_groupBy_iff.mp (show (e.1, e.2) ∈ (groupBy _ _).entries from he)).1

/-- A group that covers what the net detector found closes with it. -/
theorem covers_of_misattributed {nets : Dict String ℚ} {rows : List TxnRow} {g : OpenGroup}
    {found : List String × List ℕ} (h : misattributed nets (rowsByGroup rows) g = some found)
    (hpk : pk ∈ found.2) :
    g.rows ≠ [] ∧ pk ≠ g.pk ∧ (∃ r ∈ rows, r.tradeGroupId = some pk) ∧
      fullyClosed (g.rows ++ rows.filter fun r => r.tradeGroupId = some pk) = true := by
  have hrows : g.rows ≠ [] := by
    intro hnil
    obtain ⟨⟨sid, hne⟩, -⟩ :=
      isSome_misattributed_iff.mp (show (misattributed nets (rowsByGroup rows) g).isSome = true by
        rw [h]; rfl)
    rw [hnil] at hne
    exact hne rfl
  unfold misattributed at h
  simp only [] at h
  split at h
  · obtain rfl := Option.some.inj h
    simp only [mem_sortOn, List.mem_filter, List.mem_eraseDups, List.mem_flatMap,
      decide_eq_true_eq] at hpk
    obtain ⟨⟨⟨sid, -, hover⟩, hne⟩, hclosed⟩ := hpk
    rw [rowsByGroup, getD_get?_groupBy] at hclosed
    exact ⟨hrows, hne, exists_row_of_overClosing hover, hclosed⟩
  · cases h

/-- A group that covers an orphan closes with it. -/
theorem covers_of_orphanSettlement {rows : List TxnRow} {g : OpenGroup}
    {found : List String × List ℕ} (h : orphanSettlement (rowsByGroup rows) g = some found)
    (hpk : pk ∈ found.2) :
    g.rows ≠ [] ∧ pk ≠ g.pk ∧ (∃ r ∈ rows, r.tradeGroupId = some pk) ∧
      fullyClosed ((rows.filter fun r => r.tradeGroupId = some pk) ++ g.rows) = true := by
  have hrows : g.rows ≠ [] := by
    obtain ⟨⟨r, hr, -⟩, -⟩ :=
      isSome_orphanSettlement_iff.mp (show (orphanSettlement (rowsByGroup rows) g).isSome = true by
        rw [h]; rfl)
    exact List.ne_nil_of_mem hr
  unfold orphanSettlement at h
  simp only [] at h
  split at h
  · cases h
  · split at h
    · cases h
    · obtain rfl := Option.some.inj h
      simp only [mem_sortOn, List.mem_map, List.mem_filter, Bool.and_eq_true,
        decide_eq_true_eq] at hpk
      obtain ⟨e, ⟨he, ⟨hne, -⟩, hclosed⟩, rfl⟩ := hpk
      obtain ⟨hrow, heq⟩ := mem_groupBy_iff.mp (show (e.1, e.2) ∈ (groupBy _ _).entries from he)
      rw [heq] at hclosed
      exact ⟨hrows, hne, hrow, hclosed⟩

end Covered

/-- **A covering group is a statement.** In every state whose rows of the account have distinct
times in each security and are in groups of their account, for every entry of either report of the
account and every group that covers it, the regroup that moves all of the entry's transactions into
the covering group returns, and resolves both groups. -/
theorem coveredBy_resolves (s : InMemoryStore) (account reviewedBy : String)
    (h : s.Orderly account) (detector : LedgerProg (List StuckGroup))
    (hdetector : detector = findMisattributedOpenGroups account ∨
      detector = findOrphanSettlementGroups account)
    (found : List StuckGroup) (hfound : (exec detector s).1 = .ok found)
    (e : StuckGroup) (he : e ∈ found) (pk : ℕ) (hpk : pk ∈ e.coveredBy) :
    ∃ tg groups s', s.getTradeGroupById pk = some tg ∧
      exec (regroupTransactions (s.memberIds e.groupPk) (some tg.groupId) reviewedBy) s =
        (.ok groups, s') ∧
      Resolved s s' e.groupPk pk := by
  obtain ⟨g, hg, hgpk, hrows, hne, ⟨r, hr, hgroup⟩, hclosed⟩ :
      ∃ g ∈ openGroupsOf s account, e.groupPk = g.pk ∧ g.rows ≠ [] ∧ pk ≠ g.pk ∧
        (∃ r ∈ s.accountBook account, r.tradeGroupId = some pk) ∧
        (fullyClosed (g.rows ++ (s.accountBook account).filter
            fun r => r.tradeGroupId = some pk) = true ∨
          fullyClosed (((s.accountBook account).filter
            fun r => r.tradeGroupId = some pk) ++ g.rows) = true) := by
    rcases hdetector with rfl | rfl
    · rw [exec_findMisattributedOpenGroups] at hfound
      cases hfound
      obtain ⟨g, hg, report, hreport, rfl⟩ := mem_stuckGroups.mp he
      obtain ⟨hrows, hne, hrow, hclosed⟩ := covers_of_misattributed hreport hpk
      exact ⟨g, hg, rfl, hrows, hne, hrow, Or.inl hclosed⟩
    · rw [exec_findOrphanSettlementGroups] at hfound
      cases hfound
      obtain ⟨g, hg, report, hreport, rfl⟩ := mem_stuckGroups.mp he
      obtain ⟨hrows, hne, hrow, hclosed⟩ := covers_of_orphanSettlement hreport hpk
      exact ⟨g, hg, rfl, hrows, hne, hrow, Or.inr hclosed⟩
  obtain ⟨⟨src, hsrc, hsrcAccount, -⟩, hgrows⟩ := (mem_openGroupsOf s).mp hg
  -- the covering group has a row of the account, so it is one of the account
  rw [accountBook_eq, List.mem_filter, decide_eq_true_eq] at hr
  obtain ⟨tg, htg, hown⟩ := h.owned r hr.1 pk hgroup
  have haccount : tg.account = account := hown.trans hr.2
  rw [h.accountBook_filter htg haccount, hgrows] at hclosed
  rw [hgpk]
  have hmembers : s.members g.pk ≠ [] := by
    intro hnil
    rw [hgrows, InMemoryStore.getGroupTransactions, hnil] at hrows
    exact hrows rfl
  have hties : TiesCommute (s.members pk ++ s.getGroupTransactions g.pk) := by
    refine h.tiesCommute fun r hr => ?_
    rcases List.mem_append.mp hr with hr | hr
    · exact ⟨List.mem_of_mem_filter hr, h.account_of_member htg haccount hr⟩
    · rw [InMemoryStore.mem_getGroupTransactions] at hr
      exact ⟨List.mem_of_mem_filter hr, h.account_of_member hsrc hsrcAccount hr⟩
  have hboth : fullyClosed (s.members g.pk ++ s.members pk) = true := by
    rw [← fullyClosed_sortOn_append]
    rcases hclosed with hclosed | hclosed
    · exact hclosed
    · rw [← hclosed]
      exact (fullyClosed_of_perm List.perm_append_comm hties).symm
  obtain ⟨groups, s', hrun, hresolved⟩ := resolved_of_merge h hsrc hsrcAccount htg haccount
    hne.symm hmembers hboth reviewedBy
  exact ⟨tg, groups, s', htg, hrun, hresolved⟩

/-- Two groups that bought one contract each, and one of them sold both. -/
def sharedClose : InMemoryStore :=
  let s := InMemoryStore.seeded []
    [.placed "A" "o1", .placed "A" "o2", .placed "A" "o3"]
    [{ TxnRow.fill "A" "t1" "o1" "Buy to Open" "X" 1 0 with tradeGroupId := some 1 },
      { TxnRow.fill "A" "t2" "o2" "Buy to Open" "X" 1 second with tradeGroupId := some 2 },
      { TxnRow.fill "A" "t3" "o3" "Sell to Close" "X" 2 (2 * second) with
        tradeGroupId := some 2 }]
  ((s.upsertTradeGroup { groupId := "g", account := "A", origin := .broker }).2.upsertTradeGroup
    { groupId := "h", account := "A", origin := .broker, status := .closed }).2

theorem orderly_sharedClose : sharedClose.Orderly "A" where
  distinct := by
    have hids : ∀ r ∈ sharedClose.transactions.values, ∀ r' ∈ sharedClose.transactions.values,
        r.executedAt = r'.executedAt → r.ttTransactionId = r'.ttTransactionId := by decide +kernel
    intro r hr r' hr' _ _ _ _ _ htime
    have hget := Table.getByKey_of_mem_values hr rfl
    have hget' := Table.getByKey_of_mem_values hr' rfl
    rw [hids r hr r' hr' htime] at hget
    exact Option.some.inj (hget.symm.trans hget')
  owned := by
    have hall : ∀ r ∈ sharedClose.transactions.values, r.tradeGroupId.all (fun pk =>
        (sharedClose.getTradeGroupById pk).any fun tg => tg.account = r.account) = true := by
      decide +kernel
    intro r hr pk hpk
    have h := hall r hr
    rw [hpk, Option.all_some, Option.any_eq_true] at h
    obtain ⟨tg, htg, haccount⟩ := h
    exact ⟨tg, htg, of_decide_eq_true haccount⟩

/-- The other group is named as covering, and the regroup closes both. -/
theorem coveredBy_resolves_sharedClose :
    ∃ tg groups s', sharedClose.getTradeGroupById 2 = some tg ∧
      exec (regroupTransactions (sharedClose.memberIds 1) (some tg.groupId) "operator")
        sharedClose = (.ok groups, s') ∧
      Resolved sharedClose s' 1 2 := by
  have hfound : (exec (findMisattributedOpenGroups "A") sharedClose).1 =
      .ok [⟨1, some "g", ["X"], [2]⟩] := by decide +kernel
  exact coveredBy_resolves sharedClose "A" "operator" orderly_sharedClose _ (Or.inl rfl) _ hfound
    ⟨1, some "g", ["X"], [2]⟩ List.mem_cons_self 2 List.mem_cons_self

end TtLedger
