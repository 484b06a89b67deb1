import TtLedger.Ingest.RegroupLaws
import TtLedger.Ingest.NetLaws
import Mathlib.Tactic.Ring

/-!
# A regroup conserves realized P&L

A regroup restates what each affected group books from the rows the group then has. When all of
them end fully closed or empty, the groups together book the gross value of their rows, each row
once (`regroup_conserves`); a move between groups that booked what their rows realize leaves the
total as it was.
-/

namespace TtLedger

/-! ## Rows by their groups -/

/-- A row of one of the groups. -/
def TxnRow.inGroups (pks : List ℕ) (r : TxnRow) : Bool := r.tradeGroupId.any (· ∈ pks)

theorem inGroups_eq_true {pks : List ℕ} {r : TxnRow} :
    r.inGroups pks = true ↔ ∃ pk ∈ pks, r.tradeGroupId = some pk := by
  cases h : r.tradeGroupId with
  | none => simp [TxnRow.inGroups, h]
  | some pk => simp [TxnRow.inGroups, h]

/-- The sum over the groups of the sums over their rows counts each row once. -/
theorem sum_over_groups (f : TxnRow → ℚ) (rows : List TxnRow) {pks : List ℕ} (hpks : pks.Nodup) :
    (pks.map fun pk => ((rows.filter fun r => r.tradeGroupId = some pk).map f).sum).sum =
      ((rows.filter (TxnRow.inGroups pks)).map f).sum := by
  induction pks with
  | nil =>
    have hnone : rows.filter (TxnRow.inGroups []) = [] :=
      List.filter_eq_nil_iff.mpr fun r _ h => by
        obtain ⟨pk, hpk, -⟩ := inGroups_eq_true.mp h
        cases hpk
    rw [hnone]
    rfl
  | cons pk pks ih =>
    obtain ⟨hnot, hpks⟩ := List.nodup_cons.mp hpks
    have hsplit : ∀ rows : List TxnRow,
        ((rows.filter (TxnRow.inGroups (pk :: pks))).map f).sum =
          ((rows.filter fun r => r.tradeGroupId = some pk).map f).sum +
            ((rows.filter (TxnRow.inGroups pks)).map f).sum := by
      intro rows
      induction rows with
      | nil => simp
      | cons r rows ihrows =>
        by_cases hpk : r.tradeGroupId = some pk
        · have hin : r.inGroups (pk :: pks) = true := by simp [TxnRow.inGroups, hpk]
          have hout : r.inGroups pks = false := by simpa [TxnRow.inGroups, hpk] using hnot
          simp only [List.filter_cons, hin, hout, hpk, decide_true, if_true, List.map_cons,
            List.sum_cons, Bool.false_eq_true, if_false, ihrows, add_assoc]
        · have hsame : r.inGroups (pk :: pks) = r.inGroups pks := by
            cases hg : r.tradeGroupId with
            | none => simp [TxnRow.inGroups, hg]
            | some q =>
              have hne : q ≠ pk := fun h => hpk (by rw [hg, h])
              simp [TxnRow.inGroups, hg, hne]
          simp only [List.filter_cons, hsame, hpk, decide_false, Bool.false_eq_true, if_false]
          cases r.inGroups pks with
          | false => exact ihrows
          | true =>
            simp only [if_true, List.map_cons, List.sum_cons, ihrows]
            ring
    rw [List.map_cons, List.sum_cons, ih hpks, hsplit]

/-! ## What groups book -/

section Books

variable (s : InMemoryStore)

/-- What the groups book as realized together; a group without a figure counts as zero. -/
def InMemoryStore.bookedBy (pks : List ℕ) : ℚ :=
  (pks.map fun pk => ((s.getTradeGroupById pk).bind TradeGroupRow.realizedPnl).getD 0).sum

/-- The gross value of the rows of the groups, each row once. -/
def InMemoryStore.grossOf (pks : List ℕ) : ℚ :=
  ((s.transactions.values.filter (TxnRow.inGroups pks)).map TxnRow.signedGross).sum

/-- The group books what its rows realize, nothing when it has none. -/
def InMemoryStore.Stamped (pk : ℕ) : Prop :=
  ((s.getTradeGroupById pk).bind TradeGroupRow.realizedPnl).getD 0 =
    realizedOf s.getSecurity (s.members pk)

/-- No row of the groups is a bare future. -/
def InMemoryStore.PremiumSettled (pks : List ℕ) : Prop :=
  ∀ r ∈ s.transactions.values, r.inGroups pks = true → isFutureRow s.getSecurity r = false

/-- The groups that a regroup affects. -/
def InMemoryStore.affectedBy (txnIds : List ℕ) (targetGroupId : Option String) : List ℕ :=
  if (s.getTransactionsById txnIds).isEmpty then []
  else affectedGroups (s.getTransactionsById txnIds) (s.regroupPk targetGroupId)

/-- The rows moved, the groups they leave and the group they go to, with their rows, are of one
account. -/
structure WithinOneAccount (txnIds : List ℕ) (targetGroupId : Option String)
    (account : String) : Prop where
  moved : ∀ r ∈ s.getTransactionsById txnIds, r.account = account
  sources : ∀ r ∈ s.getTransactionsById txnIds, ∀ pk, r.tradeGroupId = some pk →
    ∃ tg, s.getTradeGroupById pk = some tg ∧ tg.account = account
  target : ∀ tg, s.getTradeGroupById (s.regroupPk targetGroupId) = some tg → tg.account = account
  rows : ∀ r ∈ s.transactions.values, r.inGroups (s.affectedBy txnIds targetGroupId) = true →
    r.account = account

end Books

theorem realizedOf_premium {sec : String → Option SecurityRow} {rows : List TxnRow}
    (h : ∀ r ∈ rows, isFutureRow sec r = false) :
    realizedOf sec rows = (rows.map TxnRow.signedGross).sum := by
  have hall : rows.filter (fun r => !isFutureRow sec r) = rows :=
    List.filter_eq_self.mpr fun r hr => by rw [h r hr]; rfl
  have hnone : rows.filter (isFutureRow sec) = [] :=
    List.filter_eq_nil_iff.mpr fun r hr => by rw [h r hr]; exact Bool.false_ne_true
  rw [realizedOf, hall, hnone]
  simp

/-- Groups that book what their rows realize book the gross value of these rows. -/
theorem InMemoryStore.bookedBy_of_stamped {s : InMemoryStore} {pks : List ℕ} (hpks : pks.Nodup)
    (hstamped : ∀ pk ∈ pks, s.Stamped pk) (hpremium : s.PremiumSettled pks) :
    s.bookedBy pks = s.grossOf pks := by
  have hgross : ∀ pk ∈ pks, ((s.getTradeGroupById pk).bind TradeGroupRow.realizedPnl).getD 0 =
      ((s.members pk).map TxnRow.signedGross).sum := by
    intro pk hpk
    refine (hstamped pk hpk).trans (realizedOf_premium fun r hr => ?_)
    obtain ⟨hr, hgroup⟩ := List.mem_filter.mp hr
    exact hpremium r hr (inGroups_eq_true.mpr ⟨pk, hpk, of_decide_eq_true hgroup⟩)
  rw [bookedBy, List.map_congr_left hgross, grossOf, ← sum_over_groups _ _ hpks]
  rfl

/-! ## After a regroup -/

section After

variable {s s' : InMemoryStore} {moved : List TxnRow} {target : ℕ} {reviewedBy : String}

/-- A move between the affected groups takes no row out of them. -/
theorem inGroups_movedRow {r : TxnRow} (h : r.inGroups (affectedGroups moved target) = true) :
    (movedRow moved target r).inGroups (affectedGroups moved target) = true := by
  rw [inGroups_eq_true] at h ⊢
  rw [tradeGroupId_movedRow]
  split
  · exact ⟨target, mem_affectedGroups.mpr (Or.inr rfl), rfl⟩
  · exact h

/-- A group recomputed from rows that close it, or from none, books what they realize. -/
theorem realizedPnl_recomputedRow {pk : ℕ} {tg : TradeGroupRow}
    (h : fullyClosed (clusterOf s pk tg) = true ∨ clusterOf s pk tg = []) :
    (recomputedRow s pk tg).realizedPnl.getD 0 = realizedOf s.getSecurity (clusterOf s pk tg) := by
  rcases h with hclosed | hnil
  · rw [recomputedRow_of_fullyClosed s hclosed]
    rfl
  · rw [recomputedRow_of_nil s hnil, hnil]
    simp [realizedOf]

variable {txnIds : List ℕ} {targetGroupId : Option String} {account : String}

/-- Each affected group is of the account, before it is recomputed. -/
theorem WithinOneAccount.group (h : WithinOneAccount s txnIds targetGroupId account)
    {first : TxnRow} {s₁ : InMemoryStore}
    (hfirst : (s.getTransactionsById txnIds).head? = some first)
    (htargets : Targets s s₁ first.account reviewedBy s.clock (s.regroupPk targetGroupId))
    {pk : ℕ} (hpk : pk ∈ affectedGroups (s.getTransactionsById txnIds)
      (s.regroupPk targetGroupId)) :
    ∃ tg, s₁.getTradeGroupById pk = some tg ∧ tg.account = account := by
  by_cases htarget : pk = s.regroupPk targetGroupId
  · subst htarget
    rcases htargets.row with ⟨tg, htg, hrow⟩ | ⟨-, groupId, hrow⟩
    · exact ⟨_, hrow, h.target tg htg⟩
    · exact ⟨_, hrow, h.moved first (List.mem_of_head? hfirst)⟩
  · rcases mem_affectedGroups.mp hpk with ⟨r, hr, hgroup⟩ | hpk
    · obtain ⟨tg, htg, haccount⟩ := h.sources r hr pk hgroup
      exact ⟨tg, by rw [htargets.others pk htarget, htg], haccount⟩
    · exact absurd hpk htarget

/-- The rows of the affected groups are of the account, after the move. -/
theorem WithinOneAccount.account_of_mem (h : WithinOneAccount s txnIds targetGroupId account)
    (hne : s.getTransactionsById txnIds ≠ [])
    (hvalues : s'.transactions.values = s.transactions.values.map
      (movedRow (s.getTransactionsById txnIds) (s.regroupPk targetGroupId)))
    {r : TxnRow} (hmem : r ∈ s'.transactions.values)
    (hgroup : r.inGroups (affectedGroups (s.getTransactionsById txnIds)
      (s.regroupPk targetGroupId)) = true) : r.account = account := by
  have hempty : (s.getTransactionsById txnIds).isEmpty = false := by
    rw [List.isEmpty_eq_false_iff]
    exact hne
  rw [hvalues] at hmem
  obtain ⟨r, hr, rfl⟩ := List.mem_map.mp hmem
  rw [account_movedRow]
  by_cases hid : r.ttTransactionId ∈ (s.getTransactionsById txnIds).map TxnRow.ttTransactionId
  · exact h.moved r (mem_moved_of_id hr hid)
  · refine h.rows r hr ?_
    rw [TxnRow.inGroups, tradeGroupId_movedRow, if_neg hid] at hgroup
    rw [InMemoryStore.affectedBy, hempty]
    exact hgroup

/-- After a regroup that leaves each affected group fully closed or empty, each books what its
rows realize. -/
theorem stamped_of_regrouped (h : WithinOneAccount s txnIds targetGroupId account)
    (hne : s.getTransactionsById txnIds ≠ [])
    (hrun : Regrouped s s' (s.getTransactionsById txnIds) (s.regroupPk targetGroupId) reviewedBy)
    {pk : ℕ} (hpk : pk ∈ affectedGroups (s.getTransactionsById txnIds)
      (s.regroupPk targetGroupId))
    (hafter : fullyClosed (s'.getGroupTransactions pk) = true ∨ s'.getGroupTransactions pk = []) :
    s'.Stamped pk := by
  obtain ⟨first, s₁, hfirst, htargets, hgroups⟩ := hrun.groups
  obtain ⟨tg, htg, haccount⟩ := h.group hfirst htargets hpk
  have hcluster : clusterOf s' pk tg = s'.members pk := by
    refine clusterOf_eq_members s' fun r hr => ?_
    obtain ⟨hr, hgroup⟩ := List.mem_filter.mp hr
    rw [h.account_of_mem hne hrun.values hr
      (inGroups_eq_true.mpr ⟨pk, hpk, of_decide_eq_true hgroup⟩), haccount]
  have hrow := hgroups pk
  rw [if_pos hpk, htg, Option.map_some] at hrow
  rw [InMemoryStore.Stamped, hrow, Option.bind_some, ← hcluster]
  refine realizedPnl_recomputedRow ?_
  rw [hcluster]
  refine hafter.imp (fun hclosed => ?_) fun hnil => ?_
  · rw [← fullyClosed_sortOn]
    exact hclosed
  · exact List.perm_nil.mp ((perm_sortOn _ _).symm.trans (List.Perm.of_eq hnil))

/-- A move of grouped rows leaves the rows of the affected groups the same rows. -/
theorem grossOf_of_regrouped (hmoved : ∀ r ∈ s.getTransactionsById txnIds, r.tradeGroupId ≠ none)
    (hvalues : s'.transactions.values = s.transactions.values.map
      (movedRow (s.getTransactionsById txnIds) target)) :
    s'.grossOf (affectedGroups (s.getTransactionsById txnIds) target) =
      s.grossOf (affectedGroups (s.getTransactionsById txnIds) target) := by
  have hsame : ∀ r ∈ s.transactions.values,
      (movedRow (s.getTransactionsById txnIds) target r).inGroups
          (affectedGroups (s.getTransactionsById txnIds) target) =
        r.inGroups (affectedGroups (s.getTransactionsById txnIds) target) := by
    intro r hr
    by_cases hid : r.ttTransactionId ∈ (s.getTransactionsById txnIds).map TxnRow.ttTransactionId
    · -- a moved row comes from an affected group and goes to one
      have hmem := mem_moved_of_id hr hid
      obtain ⟨pk, hpk⟩ := Option.ne_none_iff_exists'.mp (hmoved r hmem)
      have hin : r.inGroups (affectedGroups (s.getTransactionsById txnIds) target) = true :=
        inGroups_eq_true.mpr ⟨pk, mem_affectedGroups.mpr (Or.inl ⟨r, hmem, hpk⟩), hpk⟩
      rw [hin, inGroups_movedRow hin]
    · rw [TxnRow.inGroups, tradeGroupId_movedRow, if_neg hid, TxnRow.inGroups]
  have hfilter : s.transactions.values.filter
        (TxnRow.inGroups (affectedGroups (s.getTransactionsById txnIds) target) ∘
          movedRow (s.getTransactionsById txnIds) target) =
      s.transactions.values.filter
        (TxnRow.inGroups (affectedGroups (s.getTransactionsById txnIds) target)) :=
    List.filter_congr fun r hr => hsame r hr
  rw [InMemoryStore.grossOf, hvalues, List.filter_map, List.map_map, InMemoryStore.grossOf,
    hfilter]
  exact congrArg List.sum (List.map_congr_left fun r _ => signedGross_movedRow r)

end After

/-- **A regroup conserves realized P&L.** Whenever a regroup of rows and groups of one account,
without bare futures, leaves every affected group fully closed or empty, the affected groups
together book the gross value of their rows, each row once. If they booked what their rows realize
before, as fully closed groups under their stamps do, and the rows moved were in groups, the total
is what it was. -/
theorem regroup_conserves (s s' : InMemoryStore) (txnIds : List ℕ) (targetGroupId : Option String)
    (reviewedBy account : String) (groups : List TradeGroupRow)
    (hrun : exec (regroupTransactions txnIds targetGroupId reviewedBy) s = (.ok groups, s'))
    (haccount : WithinOneAccount s txnIds targetGroupId account)
    (hpremium : s'.PremiumSettled (s.affectedBy txnIds targetGroupId))
    (hafter : ∀ pk ∈ s.affectedBy txnIds targetGroupId,
      fullyClosed (s'.getGroupTransactions pk) = true ∨ s'.getGroupTransactions pk = []) :
    s'.bookedBy (s.affectedBy txnIds targetGroupId) =
        s'.grossOf (s.affectedBy txnIds targetGroupId) ∧
      ((∀ pk ∈ s.affectedBy txnIds targetGroupId, s.Stamped pk) →
        (∀ r ∈ s.getTransactionsById txnIds, r.tradeGroupId ≠ none) →
        s'.bookedBy (s.affectedBy txnIds targetGroupId) =
          s.bookedBy (s.affectedBy txnIds targetGroupId)) := by
  rcases regrouped_of_exec hrun with ⟨hnil, rfl⟩ | ⟨hne, hregrouped⟩
  · have hnone : s'.affectedBy txnIds targetGroupId = [] := by
      rw [InMemoryStore.affectedBy, hnil]
      rfl
    rw [hnone]
    refine ⟨InMemoryStore.bookedBy_of_stamped List.nodup_nil ?_ ?_, fun _ _ => rfl⟩
    · simp
    · intro r _ h
      obtain ⟨pk, hpk, -⟩ := inGroups_eq_true.mp h
      cases hpk
  · have haffected : s.affectedBy txnIds targetGroupId =
        affectedGroups (s.getTransactionsById txnIds) (s.regroupPk targetGroupId) := by
      rw [InMemoryStore.affectedBy, List.isEmpty_eq_false_iff.mpr hne]
      rfl
    rw [haffected] at hpremium hafter ⊢
    have hnodup := nodup_affectedGroups (s.getTransactionsById txnIds) (s.regroupPk targetGroupId)
    have hbooked := InMemoryStore.bookedBy_of_stamped hnodup
      (fun pk hpk => stamped_of_regrouped haccount hne hregrouped hpk (hafter pk hpk)) hpremium
    refine ⟨hbooked, fun hstamped hmoved => ?_⟩
    have hgross := grossOf_of_regrouped hmoved hregrouped.values
    have hbefore : s.PremiumSettled
        (affectedGroups (s.getTransactionsById txnIds) (s.regroupPk targetGroupId)) := by
      intro r hr hgroup
      have hr' : movedRow (s.getTransactionsById txnIds) (s.regroupPk targetGroupId) r ∈
          s'.transactions.values := by
        rw [hregrouped.values]
        exact List.mem_map_of_mem hr
      have hfuture := hpremium _ hr' (inGroups_movedRow hgroup)
      have hsec : s'.getSecurity = s.getSecurity := by
        funext sid
        rw [InMemoryStore.getSecurity, hregrouped.securities, InMemoryStore.getSecurity]
      rw [isFutureRow, securityId_movedRow, hsec] at hfuture
      exact hfuture
    rw [hbooked, hgross, InMemoryStore.bookedBy_of_stamped hnodup hstamped hbefore]

/-- A contract bought and sold a day later, in the group the pass made for it. -/
def roundTrip : InMemoryStore :=
  (exec (reconcile (some "A") {}) (.seeded [] [.placed "A" "o1", .placed "A" "o2"]
    [{ TxnRow.fill "A" "t1" "o1" "Buy to Open" "X" 1 0 with netValue := some (-10) },
      { TxnRow.fill "A" "t2" "o2" "Sell to Close" "X" 1 day with netValue := some 12 }])).2

/-- The group that is left empty gives up its figure, and the new group books it. -/
theorem regroup_conserves_roundTrip :
    let s' := (exec (regroupTransactions [1, 2] none "operator") roundTrip).2
    s'.bookedBy [1, 2] = 2 ∧ s'.bookedBy [1, 2] = roundTrip.bookedBy [1, 2] := by
  intro s'
  have hok : (exec (regroupTransactions [1, 2] none "operator") roundTrip).1.isOk = true := by
    decide +kernel
  obtain ⟨groups, hgroups⟩ :
      ∃ groups, (exec (regroupTransactions [1, 2] none "operator") roundTrip).1 = .ok groups := by
    cases h : (exec (regroupTransactions [1, 2] none "operator") roundTrip).1 with
    | ok groups => exact ⟨groups, rfl⟩
    | error e =>
      rw [h] at hok
      cases hok
  have haffected : roundTrip.affectedBy [1, 2] none = [1, 2] := by decide +kernel
  have hgroup : ∀ r ∈ roundTrip.getTransactionsById [1, 2], r.tradeGroupId = some 1 := by
    decide +kernel
  have haccount : WithinOneAccount roundTrip [1, 2] none "A" := by
    refine ⟨by decide +kernel, fun r hr pk hpk => ?_, ?_, ?_⟩
    · have h := Option.some.inj ((hgroup r hr).symm.trans hpk)
      subst h
      have hlive : (roundTrip.getTradeGroupById 1).map TradeGroupRow.account = some "A" := by
        decide +kernel
      exact Option.map_eq_some_iff.mp hlive
    · decide +kernel
    · decide +kernel
  have h := regroup_conserves roundTrip s' [1, 2] none "operator" "A" groups
    (Prod.ext hgroups rfl) haccount
  rw [haffected] at h
  obtain ⟨hbooked, hsame⟩ := h
    (by unfold InMemoryStore.PremiumSettled; decide +kernel) (by decide +kernel)
  refine ⟨hbooked.trans (by decide +kernel), hsame ?_ fun r hr => ?_⟩
  · unfold InMemoryStore.Stamped
    decide +kernel
  · rw [hgroup r hr]
    exact Option.some_ne_none _

end TtLedger
