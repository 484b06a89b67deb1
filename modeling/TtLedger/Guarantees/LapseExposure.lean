import TtLedger.Foundations.Flows
import TtLedger.Ingest.PassLaws
import TtLedger.Ingest.WalkLaws
import Mathlib.Algebra.BigOperators.Ring.List
import Mathlib.Data.Sign.Basic
import Mathlib.Tactic.Linarith
import Mathlib.Tactic.Ring

/-!
# Lapses and the account's exposure

One call of the lapse synthesis settles each open group's own net. The account's own net of the
contract is a different walk: over the dated rows of the account instead of the members of the
open groups, and through zero where a group's walk stops at zero. Each net is the sum of what its
rows move it (`sum_netIn_eq`, `accountNet_eq`). So the settlements sum to the account's exposure
when both sides walk the same rows, every row is taken alike by its group's net and by the
account's lot (`TakenAlike`), and the groups that are not open are flat; and where the differences
all have one sign, only then (`settlesExposure_of_booksAgree`).
-/

namespace TtLedger

variable (s : InMemoryStore) (account : String) (args : ReconcileArgs) (sid : String)

/-! ## What is settled, and what should be -/

/-- The account's open quantity of a security. -/
def accountNet : ℚ :=
  ((netOpenQuantities ((s.accountActivity { account := some account }).map
    ActivityRow.toTxnRow)).get? sid).getD 0

/-- The quantity of a settlement row, with the sign of its group's net. -/
def signedQuantity (r : TxnRow) : ℚ :=
  (r.tradeGroupId.elim 0 fun pk =>
    (SignType.sign (netIn (s.getGroupTransactions pk) sid) : ℚ)) * r.quantity.getD 0

/-- The settlement rows of a security sum to the account's exposure in it, in contracts and in
cash. -/
structure SettlesExposure (sec : SecurityRow) (points : ℚ) (rows : List TxnRow) : Prop where
  quantity : ((rows.filter fun r => r.securityId = some sid).map (signedQuantity s sid)).sum =
    accountNet s account sid
  cash : ((rows.filter fun r => r.securityId = some sid).map fun r => r.netValue.getD 0).sum =
    points * accountNet s account sid * multiplierOf (some sec)

/-! ## How a row is taken -/

/-- What a close of a quantity finds of a position, as the move that takes it. -/
def closeOf (w quantity : ℚ) : ℚ := if 0 < w then -min quantity |w| else min quantity |w|

/-- What the account's walk counts of a trade: nothing for a close of a lot it never held. -/
def countedTrade (lot : ℚ × Bool) (r : TxnRow) : ℚ :=
  if lot.1 = 0 && !lot.2 && r.endsToClose then 0 else r.signedDelta

/-- A row does to the net of its group what it does to the lot of the account. A settlement finds
as much on one side as on the other; a close, or a bare trade against the net, finds in its group
the quantity the account counts; another trade is counted for its signed quantity. -/
def TakenAlike (net : ℚ) (lot : ℚ × Bool) (r : TxnRow) : Prop :=
  if r.isMoneyMovement then True
  else if r.isNontradeClose then closeOf net r.absQuantity = closeOf lot.1 r.absQuantity
  else if !truthy r.action then countedTrade lot r = 0
  else if isClosingAction r.action || (isBareAction r.action && net * r.actionDelta < 0) then
    closeOf net r.absQuantity = countedTrade lot r
  else r.actionDelta = countedTrade lot r

instance (net : ℚ) (lot : ℚ × Bool) (r : TxnRow) : Decidable (TakenAlike net lot r) := by
  unfold TakenAlike
  infer_instance

theorem takeFrom_eq_add_closeOf (w quantity : ℚ) :
    PositionMove.takeFrom w quantity = w + closeOf w quantity := by
  unfold PositionMove.takeFrom closeOf
  split
  · rw [sub_eq_add_neg]
  · rfl

theorem closeOf_zero {quantity : ℚ} (h : 0 ≤ quantity) : closeOf 0 quantity = 0 := by
  simp [closeOf, h]

/-- The account's walk takes a settlement for what it finds and a trade for what it counts. -/
theorem openWalk_fst (lot : ℚ × Bool) (r : TxnRow) :
    (openWalk lot r).1 = lot.1 +
      if r.isMoneyMovement then 0
      else if r.isNontradeClose then closeOf lot.1 r.absQuantity
      else countedTrade lot r := by
  unfold openWalk
  cases r.isMoneyMovement with
  | true => simp
  | false =>
    cases r.isNontradeClose with
    | true =>
      by_cases hflat : lot.1 = 0
      · simp [hflat, closeOf_zero (absQuantity_nonneg r)]
      · simp [hflat, closeOf]
    | false =>
      cases hskip : (decide (lot.1 = 0) && !lot.2 && r.endsToClose) <;>
        simp [countedTrade, hskip]

/-- **A row is taken alike** exactly when it moves its group's net and the account's lot alike. -/
theorem takenAlike_iff (net : ℚ) (lot : ℚ × Bool) (r : TxnRow) :
    TakenAlike net lot r ↔ r.move.apply net - net = (openWalk lot r).1 - lot.1 := by
  rw [openWalk_fst, add_sub_cancel_left]
  unfold TakenAlike TxnRow.move
  cases hmoney : r.isMoneyMovement with
  | true => simp [BookMove.apply]
  | false =>
    cases hsettles : r.isNontradeClose with
    | true => simp [BookMove.apply, takeFrom_eq_add_closeOf]
    | false =>
      cases haction : truthy r.action with
      | false => simp [BookMove.apply, eq_comm]
      | true =>
        cases hclose : isClosingAction r.action with
        | true => simp [BookMove.apply, takeFrom_eq_add_closeOf]
        | false =>
          cases hbare : isBareAction r.action with
          | false => simp [BookMove.apply]
          | true =>
            by_cases hopp : net * r.actionDelta < 0 <;>
              simp [BookMove.apply, hopp, takeFrom_eq_add_closeOf, abs_actionDelta]

/-! ## The two walks -/

/-- Whether the account's walk of the security has the row. -/
def inAccountWalk (r : TxnRow) : Bool :=
  r.account = account && r.isReplayed && r.securityId = some sid

/-- The rows of the account's walk of a security. -/
def accountWalk : List TxnRow :=
  sortOn replayKey (s.transactions.values.filter (inAccountWalk account sid))

/-- The lot of the account before one of its rows. -/
def lotBefore (r : TxnRow) : ℚ × Bool :=
  (before (accountWalk s account sid) r).foldl openWalk (0, false)

/-- The groups of an account. -/
def groupIds : List ℕ :=
  (s.tradeGroups.rows.filter fun p => p.2.account = account).map Prod.fst

/-- The groups of an account that are open. -/
def openIds : List ℕ := (openGroupsOf s account).map OpenGroup.pk

/-- Whether the walk of some group of the account in the security has the row. -/
def inGroupWalk (r : TxnRow) : Bool :=
  r.isPosition && r.sid = sid && r.tradeGroupId.any ((groupIds s account).contains ·)

/-- The net of the row's group before it. -/
def groupNetBefore (r : TxnRow) : ℚ :=
  r.tradeGroupId.elim 0 fun pk => walkNet 0 (before (rowsIn (s.getGroupTransactions pk) sid) r)

/-- The groups and the account keep the same books of a contract: both sides walk the same rows,
each is taken alike where it stands, and the groups that are not open are flat. -/
structure BooksAgree : Prop where
  rows : ∀ r ∈ s.transactions.values, inGroupWalk s account sid r = inAccountWalk account sid r
  alike : ∀ r ∈ s.transactions.values, inAccountWalk account sid r →
    TakenAlike (groupNetBefore s sid r) (lotBefore s account sid r) r
  flat : ∀ pk ∈ groupIds s account, pk ∉ openIds s account →
    netIn (s.getGroupTransactions pk) sid = 0

/-- What a row moves its group's net, where it stands. -/
def groupMove (r : TxnRow) : ℚ := r.move.apply (groupNetBefore s sid r) - groupNetBefore s sid r

/-- What a row moves the account's lot, where it stands. -/
def accountMove (r : TxnRow) : ℚ :=
  (openWalk (lotBefore s account sid r) r).1 - (lotBefore s account sid r).1

theorem nodup_transactions : s.transactions.values.Nodup := List.Nodup.of_map _ s.nodup_ids

/-- The account's net is the end of its walk. -/
theorem accountNet_eq_foldl :
    accountNet s account sid = ((accountWalk s account sid).foldl openWalk (0, false)).1 := by
  have hrows : (s.accountActivity { account := some account }).map ActivityRow.toTxnRow =
      s.transactions.values.filter fun r => r.account = account :=
    s.toTxnRow_accountActivity account
  have hfilter : ((s.transactions.values.filter fun r => r.account = account).filter
      TxnRow.isReplayed).filter (fun r => r.securityId == some sid) =
      s.transactions.values.filter (inAccountWalk account sid) := by
    rw [List.filter_filter, List.filter_filter]
    refine List.filter_congr fun r _ => ?_
    rw [inAccountWalk, Bool.eq_iff_iff]
    simp only [Bool.and_eq_true, beq_iff_eq, decide_eq_true_eq]
    tauto
  -- the walk of a security nobody traded is the empty one
  rw [accountNet, accountWalk, hrows, ← hfilter]
  cases hg : (netOpenQuantities (s.transactions.values.filter fun r =>
      r.account = account)).get? sid with
  | some q =>
    obtain ⟨e, he, heq⟩ := List.mem_map.mp (Dict.get?_eq_some.mp hg)
    obtain ⟨rfl, rfl⟩ := Prod.mk.inj heq
    obtain ⟨-, hvs⟩ := mem_groupBy.mp (show (e.1, e.2) ∈ _ from he)
    rw [Option.getD_some, ← hvs]
  | none =>
    have hnone : ((s.transactions.values.filter fun r => r.account = account).filter
        TxnRow.isReplayed).filter (fun r => r.securityId == some sid) = [] := by
      rw [List.filter_eq_nil_iff]
      intro r hr hsid
      refine Dict.get?_eq_none.mp hg ?_
      have hmem := mem_groupBy.mpr ⟨⟨r, hr, by simpa using hsid⟩, rfl⟩
      exact List.mem_map.mpr ⟨_, List.mem_map.mpr ⟨_, hmem, rfl⟩, rfl⟩
    rw [hnone]
    rfl

/-- **The account's net** is what its rows move it. -/
theorem accountNet_eq :
    accountNet s account sid =
      ((s.transactions.values.filter (inAccountWalk account sid)).map
        (accountMove s account sid)).sum := by
  have hperm : (accountWalk s account sid).Perm
      (s.transactions.values.filter (inAccountWalk account sid)) := perm_sortOn _ _
  have hnodup : (accountWalk s account sid).Nodup :=
    hperm.nodup_iff.mpr ((nodup_transactions s).filter _)
  rw [accountNet_eq_foldl, measure_foldl openWalk Prod.fst hnodup, zero_add, (hperm.map _).sum_eq]
  rfl

/-- The net of a group is what its rows move it. -/
theorem netIn_members_eq (pk : ℕ) :
    netIn (s.getGroupTransactions pk) sid =
      (((s.transactions.values.filter fun r => r.isPosition && r.sid = sid).filter
        fun r => r.tradeGroupId = some pk).map (groupMove s sid)).sum := by
  have hperm : (rowsIn (s.getGroupTransactions pk) sid).Perm ((s.transactions.values.filter fun r =>
      r.isPosition && r.sid = sid).filter fun r => r.tradeGroupId = some pk) := by
    rw [rowsIn_eq]
    refine (perm_sortOn _ _).trans (((s.getGroupTransactions_perm pk).filter _).trans ?_)
    rw [InMemoryStore.members, List.filter_filter, List.filter_filter]
    simp only [Bool.and_comm]
    exact List.Perm.refl _
  have hnodup : (rowsIn (s.getGroupTransactions pk) sid).Nodup :=
    hperm.nodup_iff.mpr (((nodup_transactions s).filter _).filter _)
  have hmoves := measure_foldl (fun w (r : TxnRow) => r.move.apply w) id hnodup 0
  simp only [id_eq, zero_add] at hmoves
  rw [netIn_eq_walkNet, walkNet, hmoves, ← (hperm.map (groupMove s sid)).sum_eq]
  refine congrArg List.sum (List.map_congr_left fun r hr => ?_)
  have hgroup : r.tradeGroupId = some pk :=
    of_decide_eq_true (List.mem_filter.mp (hperm.mem_iff.mp hr)).2
  simp [groupMove, groupNetBefore, hgroup, moveAt, walkNet]

theorem nodup_groupIds : (groupIds s account).Nodup :=
  (List.filter_sublist.map _).nodup s.tradeGroups.ids_nodup

/-- **The nets of the account's groups** are what their rows move them. -/
theorem sum_netIn_eq :
    ((groupIds s account).map fun pk => netIn (s.getGroupTransactions pk) sid).sum =
      ((s.transactions.values.filter (inGroupWalk s account sid)).map (groupMove s sid)).sum := by
  have hkeys := sum_filter_keys (groupMove s sid) TxnRow.tradeGroupId (nodup_groupIds s account)
    (s.transactions.values.filter fun r => r.isPosition && r.sid = sid)
  simp only [netIn_members_eq]
  refine hkeys.trans ?_
  rw [List.filter_filter]
  refine congrArg (fun l => (l.map (groupMove s sid)).sum) (List.filter_congr fun r _ => ?_)
  rw [inGroupWalk, Bool.and_comm]

/-- The open groups are groups of the account. -/
theorem openIds_perm :
    ((groupIds s account).filter fun pk => pk ∈ openIds s account).Perm (openIds s account) := by
  refine (List.perm_ext_iff_of_nodup ((nodup_groupIds s account).filter _)
    (nodup_openGroupsOf s account)).mpr fun pk => ?_
  rw [List.mem_filter]
  refine ⟨fun h => of_decide_eq_true h.2, fun h => ⟨?_, decide_eq_true h⟩⟩
  obtain ⟨tg, htg, hacc, -⟩ := (mem_pks_openGroupsOf s).mp h
  exact List.mem_map.mpr ⟨(pk, tg), List.mem_filter.mpr ⟨Table.get_eq_some.mp htg, by simp [hacc]⟩,
    rfl⟩

/-- What sets the books of the groups apart from the account's: of each row, how much more it moves
its group's net, and of each group that is not open, the net it keeps. -/
def differences : List ℚ :=
  ((s.transactions.values.filter (inAccountWalk account sid)).map fun r =>
      groupMove s sid r - accountMove s account sid r) ++
    ((groupIds s account).filter fun pk => pk ∉ openIds s account).map fun pk =>
      -netIn (s.getGroupTransactions pk) sid

/-- Where both sides walk the same rows, the nets of the open groups exceed the account's by the
differences. -/
theorem sum_open_sub_accountNet
    (hrows : ∀ r ∈ s.transactions.values,
      inGroupWalk s account sid r = inAccountWalk account sid r) :
    ((openGroupsOf s account).map fun g => netIn g.rows sid).sum - accountNet s account sid =
      (differences s account sid).sum := by
  have hopen : ((openGroupsOf s account).map fun g => netIn g.rows sid) =
      (openIds s account).map fun pk => netIn (s.getGroupTransactions pk) sid := by
    rw [openIds, List.map_map]
    refine List.map_congr_left fun g hg => ?_
    rw [((mem_openGroupsOf s).mp hg).2]
    rfl
  have hsplit := sum_filter_add_sum_filter_not (fun pk => netIn (s.getGroupTransactions pk) sid)
    (fun pk => decide (pk ∈ openIds s account)) (groupIds s account)
  have hneg := List.sum_neg (((groupIds s account).filter fun pk => pk ∉ openIds s account).map
    fun pk => netIn (s.getGroupTransactions pk) sid)
  have hmoves : ((s.transactions.values.filter (inAccountWalk account sid)).map fun r =>
      groupMove s sid r - accountMove s account sid r).sum +
      ((s.transactions.values.filter (inAccountWalk account sid)).map
        (accountMove s account sid)).sum =
      ((s.transactions.values.filter (inAccountWalk account sid)).map (groupMove s sid)).sum := by
    rw [← List.sum_map_add]
    simp only [sub_add_cancel]
  rw [List.map_map] at hneg
  have hsame : s.transactions.values.filter (inGroupWalk s account sid) =
      s.transactions.values.filter (inAccountWalk account sid) := List.filter_congr hrows
  rw [sum_netIn_eq, hsame, ((openIds_perm s account).map _).sum_eq] at hsplit
  rw [hopen, accountNet_eq, differences, List.sum_append]
  simp only [decide_not, Function.comp_def] at hneg hsplit ⊢
  linarith

/-- The books agree exactly when nothing sets them apart. -/
theorem booksAgree_iff :
    BooksAgree s account sid ↔
      (∀ r ∈ s.transactions.values, inGroupWalk s account sid r = inAccountWalk account sid r) ∧
        ∀ x ∈ differences s account sid, x = 0 := by
  have hzero : (∀ x ∈ differences s account sid, x = 0) ↔
      (∀ r ∈ s.transactions.values, inAccountWalk account sid r →
        TakenAlike (groupNetBefore s sid r) (lotBefore s account sid r) r) ∧
      ∀ pk ∈ groupIds s account, pk ∉ openIds s account →
        netIn (s.getGroupTransactions pk) sid = 0 := by
    simp only [differences, List.forall_mem_append, List.forall_mem_map, List.mem_filter,
      takenAlike_iff, sub_eq_zero, neg_eq_zero, decide_eq_true_eq, and_imp, groupMove, accountMove]
  rw [hzero]
  exact ⟨fun h => ⟨h.rows, h.alike, h.flat⟩, fun h => ⟨h.1, h.2.1, h.2.2⟩⟩

/-! ## The rows of one security -/

section Rows

variable {s account args sid} {rows : List TxnRow} {sec : SecurityRow} {expiry : Date} {points : ℚ}

theorem filter_security_perm (h : lapseSettlements s account args = .ok rows)
    (hl : Lapses s account args sid sec expiry points) :
    (rows.filter fun r => r.securityId = some sid).Perm
      (lapseRows account sid sec expiry points (openGroupsOf s account)) := by
  have hrows : rows.Nodup := List.Nodup.of_map _ (nodup_lapseSettlements s h)
  have hlapse : (lapseRows account sid sec expiry points (openGroupsOf s account)).Nodup :=
    List.Nodup.of_map _ (nodup_lapseRows (nodup_openGroupsOf s account))
  refine (List.perm_ext_iff_of_nodup (hrows.filter _) hlapse).mpr fun r => ?_
  rw [List.mem_filter, mem_lapseSettlements s h, mem_lapseRows]
  constructor
  · rintro ⟨⟨g, sid', hg, hne, sec', expiry', points', hl', rfl⟩, hsid⟩
    obtain rfl : sid' = sid := Option.some.inj (of_decide_eq_true hsid)
    obtain ⟨rfl, rfl, rfl⟩ := hl.unique s hl'
    exact ⟨g, hg, hne, rfl⟩
  · rintro ⟨g, hg, hne, rfl⟩
    exact ⟨⟨g, sid, hg, hne, sec, expiry, points, hl, rfl⟩, by simp [lapseRow]⟩

/-- A sum over the settlement rows is a sum over the open groups. -/
theorem sum_lapseRows {openGroups : List OpenGroup} {amount : TxnRow → ℚ} {value : OpenGroup → ℚ}
    (hflat : ∀ g ∈ openGroups, netIn g.rows sid = 0 → value g = 0)
    (hheld : ∀ g ∈ openGroups, netIn g.rows sid ≠ 0 →
      amount (lapseRow account sid sec expiry points g.pk (netIn g.rows sid)) = value g) :
    ((lapseRows account sid sec expiry points openGroups).map amount).sum =
      (openGroups.map value).sum := by
  have hall : ∀ l : List OpenGroup, (∀ g ∈ l, g ∈ openGroups) →
      ((l.filterMap fun g => if netIn g.rows sid = 0 then none
        else some (lapseRow account sid sec expiry points g.pk (netIn g.rows sid))).map
        amount).sum =
        (l.map value).sum := by
    intro l hl
    induction l with
    | nil => rfl
    | cons g l ih =>
      have hg := hl g (by simp)
      have ih := ih fun g' hg' => hl g' (.tail _ hg')
      rw [List.filterMap_cons, List.map_cons, List.sum_cons]
      by_cases hnet : netIn g.rows sid = 0
      · simp only [if_pos hnet]
        rw [ih, hflat g hg hnet, zero_add]
      · simp only [if_neg hnet]
        rw [List.map_cons, List.sum_cons, ih, hheld g hg hnet]
  rw [lapseRows, hall _ fun g hg => (mem_sortOn _).mp hg]
  exact ((perm_sortOn _ _).map value).sum_eq

/-- The settlement rows sum to the nets of the open groups. -/
theorem sum_signedQuantity (h : lapseSettlements s account args = .ok rows)
    (hl : Lapses s account args sid sec expiry points) :
    ((rows.filter fun r => r.securityId = some sid).map (signedQuantity s sid)).sum =
      ((openGroupsOf s account).map fun g => netIn g.rows sid).sum := by
  rw [((filter_security_perm h hl).map _).sum_eq]
  refine sum_lapseRows (fun g _ hnet => hnet) fun g hg _ => ?_
  rw [((mem_openGroupsOf s).mp hg).2]
  exact sign_mul_abs _

theorem sum_netValue (h : lapseSettlements s account args = .ok rows)
    (hl : Lapses s account args sid sec expiry points) :
    ((rows.filter fun r => r.securityId = some sid).map fun r => r.netValue.getD 0).sum =
      points * ((openGroupsOf s account).map fun g => netIn g.rows sid).sum *
        multiplierOf (some sec) := by
  rw [((filter_security_perm h hl).map _).sum_eq, ← List.sum_map_mul_left, ← List.sum_map_mul_right]
  refine sum_lapseRows (fun g _ hnet => by simp [hnet]) fun g _ _ => ?_
  simp only [lapseRow, Option.getD_some]
  split
  · rename_i hpos
    rw [abs_of_pos hpos]
  · rename_i hneg
    rw [abs_of_nonpos (not_lt.mp hneg)]
    ring

/-! ## When they are the account's exposure -/

/-- The settlements of a lapsed security sum to the account's exposure exactly when the nets of
the open groups do. -/
theorem settlesExposure_iff_nets
    (hcall : (exec (synthesizeLapsedSettlements account args) s).1 = .ok rows)
    (hl : Lapses s account args sid sec expiry points) :
    SettlesExposure s account sid sec points rows ↔
      ((openGroupsOf s account).map fun g => netIn g.rows sid).sum = accountNet s account sid := by
  have h : lapseSettlements s account args = .ok rows := by
    rw [exec_synthesizeLapsedSettlements] at hcall
    cases hrows : lapseSettlements s account args with
    | error e =>
      rw [hrows] at hcall
      cases hcall
    | ok rows' =>
      rw [hrows] at hcall
      obtain rfl := Except.ok.inj hcall
      rfl
  have hquantity := sum_signedQuantity h hl
  have hcash := sum_netValue h hl
  constructor
  · intro hset
    rw [← hquantity, hset.quantity]
  · intro heq
    exact ⟨by rw [hquantity, heq], by rw [hcash, heq]⟩

end Rows

/-! ## Sibling groups -/

/-- The resolver of a settlement at 550. -/
def settleAt550 : ReconcileArgs := { settlementPrice := some fun _ _ => .ok (some 550) }

/-- The 580 put, expired on day 0. -/
def put580 : SecurityRow where
  securityId := "X"
  productType := "OPT"
  expiry := some 0
  strike := some 580
  optionType := some "P"
  multiplier := some 100

/-- The ledger after the pass that groups the given fills of the put; a later trade in another
contract moves the account's clock past the expiry. -/
def siblings (fills : List TxnRow) : InMemoryStore :=
  let s := InMemoryStore.seeded [put580, { securityId := "Y", productType := "E" }]
    [.placed "A" "o1", .placed "A" "o2", .placed "A" "o3", .placed "A" "o9"]
    (fills ++ [.fill "A" "t9" "o9" "Buy to Open" "Y" 1 (10 * day)])
  (exec (reconcile (some "A") {}) s).2

/-- Two groups hold the put in opposite directions. -/
def offsettingSiblings : InMemoryStore :=
  siblings [.fill "A" "t1" "o1" "Sell to Open" "X" 1 0,
    .fill "A" "t2" "o2" "Buy to Open" "X" 1 (100 * second)]

theorem lapses_put580 {s : InMemoryStore} (hsec : s.getSecurity "X" = some put580)
    (hlast : lastActivity s "A" = some (10 * day)) :
    Lapses s "A" settleAt550 "X" put580 0 30 where
  security := hsec
  gate := ⟨_, hlast, by decide +kernel⟩
  resolves := by decide +kernel

/-- The rows of a call on the in-memory store. -/
def settledRows (s : InMemoryStore) : List TxnRow :=
  ((lapseSettlements s "A" settleAt550).toOption).getD []

/-- Two groups hold one put each, and one order has sold both: its row is in the first group. -/
def overClosed : InMemoryStore :=
  siblings [.fill "A" "t1" "o1" "Buy to Open" "X" 1 0,
    .fill "A" "t2" "o2" "Buy to Open" "X" 1 (100 * second),
    .fill "A" "t3" "o3" "Sell to Close" "X" 2 (200 * second)]

end TtLedger
