import TtLedger.Ingest.LapseLaws

/-!
# Laws of the heal

The heal stamps the open groups that are fully closed, and no stamp leaves a group open
(`closedStatus_ne_open`); so after it no open group is fully closed
(`closedOpenGroups_healed`). It changes no transaction and no other group's row
(`getTradeGroupById_healSteps`).
-/

namespace TtLedger

/-- A stamped group is not open. -/
theorem closedStatus_ne_open (rows : List TxnRow) : closedStatus rows ≠ .open := by
  unfold closedStatus
  split
  · rename_i cause hcauses
    have hmem : cause ∈ closeCauses rows := by rw [hcauses]; exact List.mem_singleton.mpr rfl
    rw [closeCauses, List.mem_eraseDups, List.mem_filterMap] at hmem
    obtain ⟨r, -, hr⟩ := hmem
    unfold closeCause at hr
    rintro rfl
    split at hr
    · obtain ⟨e, -, he⟩ := Option.bind_eq_some_iff.mp hr
      cases e <;> cases he
    · split at hr
      · cases hr
      · split at hr <;> cases hr
  · exact fun h => by cases h

variable (s : InMemoryStore)

@[simp] theorem transactions_healStep (g : OpenGroup) :
    (healStep s g).transactions = s.transactions := by
  unfold healStep
  split <;> simp

@[simp] theorem securities_healStep (g : OpenGroup) :
    (healStep s g).securities = s.securities := by
  unfold healStep
  split <;> simp

@[simp] theorem orders_healStep (g : OpenGroup) : (healStep s g).orders = s.orders := by
  unfold healStep
  split <;> simp

/-- Healing a group stamps its row. -/
theorem getTradeGroupById_healStep (g : OpenGroup) (pk : ℕ) :
    (healStep s g).getTradeGroupById pk =
      if pk = g.pk then
        (s.getTradeGroupById pk).map fun tg =>
          stamp tg g.rows (lastExecutedAt g.rows) (realizedOf s.getSecurity g.rows)
      else s.getTradeGroupById pk := by
  unfold healStep
  cases htg : s.getTradeGroupById g.pk with
  | none =>
    by_cases hpk : pk = g.pk
    · rw [if_pos hpk, hpk, htg, Option.map_none]
    · rw [if_neg hpk]
  | some tg => exact s.getTradeGroupById_stamped g (lastExecutedAt g.rows) pk

@[simp] theorem transactions_healSteps (groups : List OpenGroup) :
    (groups.foldl healStep s).transactions = s.transactions := by
  induction groups generalizing s with
  | nil => rfl
  | cons g groups ih => rw [List.foldl_cons, ih, transactions_healStep]

@[simp] theorem securities_healSteps (groups : List OpenGroup) :
    (groups.foldl healStep s).securities = s.securities := by
  induction groups generalizing s with
  | nil => rfl
  | cons g groups ih => rw [List.foldl_cons, ih, securities_healStep]

@[simp] theorem orders_healSteps (groups : List OpenGroup) :
    (groups.foldl healStep s).orders = s.orders := by
  induction groups generalizing s with
  | nil => rfl
  | cons g groups ih => rw [List.foldl_cons, ih, orders_healStep]

/-- The rows of the groups after the heal of some of them. -/
theorem getTradeGroupById_healSteps {groups : List OpenGroup}
    (hpks : (groups.map OpenGroup.pk).Nodup) (pk : ℕ) :
    (pk ∉ groups.map OpenGroup.pk ∧
        (groups.foldl healStep s).getTradeGroupById pk = s.getTradeGroupById pk) ∨
      ∃ g ∈ groups, g.pk = pk ∧
        (groups.foldl healStep s).getTradeGroupById pk =
          (s.getTradeGroupById pk).map fun tg =>
            stamp tg g.rows (lastExecutedAt g.rows) (realizedOf s.getSecurity g.rows) := by
  induction groups generalizing s with
  | nil => exact Or.inl ⟨List.not_mem_nil, rfl⟩
  | cons g groups ih =>
    rw [List.map_cons, List.nodup_cons] at hpks
    have hsec : (healStep s g).getSecurity = s.getSecurity := by
      funext sid
      rw [InMemoryStore.getSecurity, securities_healStep, InMemoryStore.getSecurity]
    have hone := getTradeGroupById_healStep s g pk
    rw [List.foldl_cons]
    by_cases hpk : pk = g.pk
    · rw [if_pos hpk] at hone
      right
      rcases ih (healStep s g) hpks.2 with ⟨-, heq⟩ | ⟨g', hg', heq, -⟩
      · exact ⟨g, by simp, hpk.symm, by rw [heq, hone]⟩
      · exact absurd (List.mem_map.mpr ⟨g', hg', heq.trans hpk⟩) hpks.1
    · rw [if_neg hpk] at hone
      rcases ih (healStep s g) hpks.2 with ⟨hnot, heq⟩ | ⟨g', hg', hg'pk, heq⟩
      · refine Or.inl ⟨?_, by rw [heq, hone]⟩
        rw [List.map_cons, List.mem_cons, not_or]
        exact ⟨hpk, hnot⟩
      · exact Or.inr ⟨g', .tail _ hg', hg'pk, by rw [heq, hone, hsec]⟩

variable (account : String)

theorem nodup_closedOpenGroups : ((closedOpenGroups s account).map OpenGroup.pk).Nodup :=
  (List.filter_sublist.map _).nodup (nodup_openGroupsOf s account)

@[simp] theorem transactions_healed (dryRun : Bool) :
    (healed s account dryRun).transactions = s.transactions := by
  unfold healed
  split
  · rfl
  · exact transactions_healSteps s _

@[simp] theorem orders_healed (dryRun : Bool) : (healed s account dryRun).orders = s.orders := by
  unfold healed
  split
  · rfl
  · exact orders_healSteps s _

@[simp] theorem securities_healed (dryRun : Bool) :
    (healed s account dryRun).securities = s.securities := by
  unfold healed
  split
  · rfl
  · exact securities_healSteps s _

theorem getGroupTransactions_congr {s s' : InMemoryStore} (h : s'.transactions = s.transactions)
    (pk : ℕ) : s'.getGroupTransactions pk = s.getGroupTransactions pk := by
  rw [InMemoryStore.getGroupTransactions, InMemoryStore.members, h,
    InMemoryStore.getGroupTransactions, InMemoryStore.members]

theorem mem_closedOpenGroups {g : OpenGroup} :
    g ∈ closedOpenGroups s account ↔ g ∈ openGroupsOf s account ∧ fullyClosed g.rows = true :=
  List.mem_filter

/-- **After the heal no open group is fully closed.** -/
theorem closedOpenGroups_healed : closedOpenGroups (healed s account false) account = [] := by
  rw [List.eq_nil_iff_forall_not_mem]
  intro g hg
  obtain ⟨hopen, hclosed⟩ := (mem_closedOpenGroups _ account).mp hg
  obtain ⟨⟨tg, htg, hacc, hstatus⟩, hrows⟩ := (mem_openGroupsOf _).mp hopen
  have hrun : healed s account false = (closedOpenGroups s account).foldl healStep s := rfl
  rw [getGroupTransactions_congr (transactions_healed s account false)] at hrows
  rcases getTradeGroupById_healSteps s (nodup_closedOpenGroups s account) g.pk with
    ⟨hnot, hsame⟩ | ⟨g', -, -, hstamp⟩
  · -- the group was open and closed before, so it has been healed
    rw [hrun, hsame] at htg
    refine hnot (List.mem_map.mpr ⟨g, (mem_closedOpenGroups s account).mpr ⟨?_, hclosed⟩, rfl⟩)
    exact (mem_openGroupsOf s).mpr ⟨⟨tg, htg, hacc, hstatus⟩, hrows⟩
  · rw [hrun, hstamp] at htg
    obtain ⟨tg', -, rfl⟩ := Option.map_eq_some_iff.mp htg
    exact closedStatus_ne_open g'.rows hstatus

end TtLedger
