import TtLedger.Ingest.PassLaws
import TtLedger.Ingest.RegroupLaws
import TtLedger.Ingest.WalkLaws

/-!
# The three stamps

A group that its rows have closed is stamped by the exit that attaches the last of them, by the
heal, or by an operator's recompute. The exit walks the rows held and then the new ones, and
takes the latest of the *new* rows as the instant of the close; the heal walks the stored members
in time order, the recompute the members of the group's account in table order, and both take the
latest of all.

So the exit's stamp can agree with the others only when the latest member is among the new rows,
and that is all it takes (`stampsAgree_iff`) when the three lists hold the same rows and order
them alike where it matters (`ListedAlike`): the walks sort rows by time, so only simultaneous rows
of one security can be taken in different orders, and these must come in one order or commute.
-/

namespace TtLedger

/-- The lifecycle columns of a group. -/
structure Lifecycle where
  status : TradeGroupStatus
  closedAt : Option Datetime
  realizedPnl : Option ℚ
  totalFees : Option ℚ
  deriving DecidableEq

def TradeGroupRow.lifecycle (tg : TradeGroupRow) : Lifecycle :=
  ⟨tg.status, tg.closedAt, tg.realizedPnl, tg.totalFees⟩

variable (s : InMemoryStore) (pk : ℕ) (tg : TradeGroupRow) (new : List TxnRow)

/-- The rows a group holds before an attach. -/
abbrev held : List TxnRow := s.getGroupTransactions pk

/-- The state in which the new rows are attached. -/
abbrev withNew : InMemoryStore := s.attached (new.map TxnRow.ttTransactionId) pk

/-- The members after the attach, in time order. -/
abbrev allRows : List TxnRow := (withNew s pk new).getGroupTransactions pk

/-- The members of the group's own account, in table order. -/
def ownAccountRows : List TxnRow :=
  (withNew s pk new).transactions.values.filter fun r =>
    r.account = tg.account && r.tradeGroupId = some pk

/-- What the exit that attaches the new rows writes. -/
def byExit (rolledToPk deliveryPk : Option ℕ) : Option Lifecycle :=
  ((exec (applyExit ⟨pk, held s pk⟩ new rolledToPk deliveryPk) s).2.getTradeGroupById pk).map
    TradeGroupRow.lifecycle

/-- What the heal writes once the rows are attached. -/
def byHeal : Option Lifecycle :=
  ((exec (healFullyClosedGroups tg.account false) (withNew s pk new)).2.getTradeGroupById pk).map
    TradeGroupRow.lifecycle

/-- What the recompute writes once the rows are attached. -/
def byRecompute : Option Lifecycle :=
  ((exec (recomputeGroup pk tg) (withNew s pk new)).2.getTradeGroupById pk).map
    TradeGroupRow.lifecycle

/-- The three paths write the same lifecycle, closed at the latest member. -/
structure StampsAgree : Prop where
  exit_heal : ∀ rolledToPk deliveryPk, byExit s pk new rolledToPk deliveryPk = byHeal s pk tg new
  heal_recompute : byHeal s pk tg new = byRecompute s pk tg new
  latest : ∀ rolledToPk deliveryPk,
    (byExit s pk new rolledToPk deliveryPk).bind Lifecycle.closedAt =
      lastExecutedAt (allRows s pk new)

/-- The lifecycle a list of rows and an instant stamp. -/
def stampOf (sec : String → Option SecurityRow) (rows : List TxnRow) (closedAt : Option Datetime) :
    Lifecycle :=
  ⟨closedStatus rows, closedAt, some (realizedOf sec rows), some (totalFees rows)⟩

/-! ## Lists that order simultaneous rows alike -/

/-- Whether a row is of a security and an instant; undated rows stand at the start of time. -/
def standsAt (sid : String) (t : Datetime) (r : TxnRow) : Bool :=
  r.securityId = some sid && r.executedAt.getD datetimeMin = t

/-- Two lists have the simultaneous rows of a security in one order. -/
def SameOrder (sid : String) (rows rows' : List TxnRow) : Prop :=
  ∀ t, rows.filter (standsAt sid t) = rows'.filter (standsAt sid t)

/-- In each security two lists have the simultaneous rows in one order, or these commute and the
security is no bare future, whose walk is priced. -/
def InOrder (sec : String → Option SecurityRow) (rows rows' : List TxnRow) : Prop :=
  ∀ sid, SameOrder sid rows rows' ∨
    isFuture (sec sid) = false ∧ TiesCommute (rows.filter fun r => r.securityId = some sid)

/-- The three paths walk the same rows in one order: all members are of the group's account, and
the rows held with the new ones, and the rows of the account, have simultaneous ones as the members
in time order have them. -/
structure ListedAlike : Prop where
  own : ∀ r ∈ allRows s pk new, r.account = tg.account
  exit : InOrder s.getSecurity ((held s pk ++ new).map TxnRow.book)
    ((allRows s pk new).map TxnRow.book)
  recompute : InOrder s.getSecurity ((ownAccountRows s pk tg new).map TxnRow.book)
    ((allRows s pk new).map TxnRow.book)

section Order

variable {sec : String → Option SecurityRow} {sid : String} {rows rows' : List TxnRow}

theorem securityId_of_isPosition {r : TxnRow} (hpos : r.isPosition = true) (hsid : r.sid = sid) :
    r.securityId = some sid := by
  unfold TxnRow.isPosition at hpos
  unfold TxnRow.sid at hsid
  cases hr : r.securityId with
  | none => simp [hr, truthy] at hpos
  | some sid' => simpa [hr] using hsid

/-- The rows of a security's walk depend on the rows of the security. -/
theorem rowsIn_filter (rows : List TxnRow) (sid : String) :
    rowsIn (rows.filter fun r => r.securityId = some sid) sid = rowsIn rows sid := by
  rw [rowsIn_eq, rowsIn_eq, List.filter_filter]
  congr 1
  refine List.filter_congr fun r _ => ?_
  by_cases hr : r.isPosition = true ∧ r.sid = sid
  · simp [hr.1, hr.2, securityId_of_isPosition hr.1 hr.2]
  · rcases not_and_or.mp hr with hpos | hother
    · simp [Bool.eq_false_iff.mpr hpos]
    · simp [hother]

/-- Lists with the simultaneous rows of a security in one order walk it alike. -/
theorem SameOrder.rowsIn_eq (h : SameOrder sid rows rows') :
    rowsIn rows sid = rowsIn rows' sid := by
  rw [TtLedger.rowsIn_eq, TtLedger.rowsIn_eq, sortOn_eq_iff]
  intro c
  -- rows of one time stand at one instant
  have hclass : ∀ l : List TxnRow, (l.filter fun r => r.isPosition && r.sid = sid).filter
      (fun r => timeKey r.executedAt = c) =
      (l.filter (standsAt sid (Option.getD (show Option Datetime from c) datetimeMin))).filter
        fun r => r.isPosition && r.sid = sid && timeKey r.executedAt = c := by
    intro l
    rw [List.filter_filter, List.filter_filter]
    refine List.filter_congr fun r _ => ?_
    by_cases hr : (r.isPosition = true ∧ r.sid = sid) ∧ timeKey r.executedAt = c
    · obtain ⟨⟨hpos, hsid⟩, rfl⟩ := hr
      simp [hpos, hsid, standsAt, securityId_of_isPosition hpos hsid, timeKey]
    · by_cases hpos : r.isPosition = true ∧ r.sid = sid
      · simp [hpos.1, hpos.2, show timeKey r.executedAt ≠ c from fun hc => hr ⟨hpos, hc⟩]
      · rcases not_and_or.mp hpos with hpos | hsid
        · simp [Bool.eq_false_iff.mpr hpos]
        · simp [hsid]
  rw [hclass, hclass, h _]

/-- Lists of the same rows in order net a security alike. -/
theorem InOrder.netIn_eq (h : InOrder sec rows rows') (hp : rows.Perm rows') (sid : String) :
    netIn rows sid = netIn rows' sid := by
  rcases h sid with hsame | ⟨-, hties⟩
  · rw [netIn_eq_walkNet, netIn_eq_walkNet, hsame.rowsIn_eq]
  · have hnet := netIn_of_perm (hp.filter fun r => r.securityId = some sid) hties sid
    simpa only [netIn_eq_walkNet, rowsIn_filter] using hnet

theorem InOrder.fullyClosed_eq (h : InOrder sec rows rows') (hp : rows.Perm rows') :
    fullyClosed rows = fullyClosed rows' := by
  rw [Bool.eq_iff_iff, fullyClosed_iff, fullyClosed_iff, openedSomething_of_perm hp]
  simp only [get?_netQuantities_ne_none_iff, hp.mem_iff, h.netIn_eq hp]

/-- A future priced over rows in one order realizes the same. -/
theorem SameOrder.priceRealizedGross_eq (h : SameOrder sid rows rows') (multiplier : Int)
    (clampCloses : Bool) :
    priceRealizedGross (rows.filter fun r => r.securityId = some sid) multiplier clampCloses =
      priceRealizedGross (rows'.filter fun r => r.securityId = some sid) multiplier
        clampCloses := by
  have hsort : sortOn replayKey (rows.filter fun r => r.securityId = some sid) =
      sortOn replayKey (rows'.filter fun r => r.securityId = some sid) := by
    rw [sortOn_eq_iff]
    intro c
    have hclass : ∀ l : List TxnRow, (l.filter fun r => r.securityId = some sid).filter
        (fun r => replayKey r = c) =
        (l.filter (standsAt sid (ofLex c).1)).filter fun r => replayKey r = c := by
      intro l
      rw [List.filter_filter, List.filter_filter]
      refine List.filter_congr fun r _ => ?_
      by_cases hr : replayKey r = c
      · subst hr
        simp [standsAt, replayKey]
      · simp [hr]
    rw [hclass, hclass, h _]
  rw [priceRealizedGross, hsort, priceRealizedGross]

/-- Lists of the same rows in order realize the same. -/
theorem InOrder.realizedOf_eq (h : InOrder sec rows rows') (hp : rows.Perm rows') :
    realizedOf sec rows = realizedOf sec rows' := by
  have hfutures : ∀ (l : List TxnRow) (k : String), isFuture (sec k) = true →
      ((l.filter (isFutureRow sec)).filter fun r => r.securityId = some k) =
        l.filter fun r => r.securityId = some k := by
    intro l k hk
    rw [List.filter_filter]
    refine List.filter_congr fun r _ => ?_
    by_cases hr : r.securityId = some k
    · simp [hr, isFutureRow, hk]
    · simp [hr]
  have hwalks : ((groupBy TxnRow.securityId (rows.filter (isFutureRow sec))).entries.map fun e =>
      priceRealizedGross e.2 (multiplierOf (sec e.1)) true).Perm
      ((groupBy TxnRow.securityId (rows'.filter (isFutureRow sec))).entries.map fun e =>
        priceRealizedGross e.2 (multiplierOf (sec e.1)) true) := by
    refine groupBy_entries_map_perm (hp.filter _) fun k hk => ?_
    obtain ⟨r, hr, hrk⟩ := hk
    have hfuture : isFuture (sec k) = true := by
      simpa [isFutureRow, hrk] using (List.mem_filter.mp hr).2
    have hsame : SameOrder k rows rows' := (h k).resolve_right fun hnot => by
      rw [hfuture] at hnot
      exact absurd hnot.1 (by decide)
    simp only [hfutures _ k hfuture]
    exact hsame.priceRealizedGross_eq _ _
  rw [realizedOf, realizedOf, ((hp.filter _).map TxnRow.signedGross).sum_eq, hwalks.sum_eq]

theorem realizedOf_book (sec : String → Option SecurityRow) (rows : List TxnRow) :
    realizedOf sec (rows.map TxnRow.book) = realizedOf sec rows := by
  have hgroups : ∀ l : List TxnRow, (groupBy TxnRow.securityId (l.map TxnRow.book)).entries =
      (groupBy TxnRow.securityId l).entries.map fun e => (e.1, e.2.map TxnRow.book) := by
    intro l
    simp only [groupBy, List.filterMap_map, List.map_map, List.filter_map]
    rfl
  have hwalk : ∀ (l : List TxnRow) (multiplier : Int),
      priceRealizedGross (l.map TxnRow.book) multiplier true =
        priceRealizedGross l multiplier true := by
    intro l multiplier
    rw [priceRealizedGross, sortOn_map, List.foldl_map]
    rfl
  have hfutures : (rows.map TxnRow.book).filter (isFutureRow sec) =
      (rows.filter (isFutureRow sec)).map TxnRow.book := List.filter_map
  have hcash : (rows.map TxnRow.book).filter (fun r => !isFutureRow sec r) =
      (rows.filter fun r => !isFutureRow sec r).map TxnRow.book := List.filter_map
  rw [realizedOf, hfutures, hcash, hgroups, List.map_map, List.map_map]
  simp only [Function.comp_def, hwalk]
  rfl

/-- Lists of the same rows in order are stamped alike. -/
theorem stampOf_eq_of_inOrder (t : Option Datetime)
    (h : InOrder sec (rows.map TxnRow.book) (rows'.map TxnRow.book))
    (hp : (rows.map TxnRow.book).Perm (rows'.map TxnRow.book))
    (hclosed : fullyClosed rows' = true) :
    fullyClosed rows = true ∧ stampOf sec rows t = stampOf sec rows' t := by
  have hclosed' : fullyClosed rows = true := by
    rw [← fullyClosed_book, h.fullyClosed_eq hp, fullyClosed_book, hclosed]
  have hrealized := h.realizedOf_eq hp
  rw [realizedOf_book, realizedOf_book] at hrealized
  exact ⟨hclosed', by rw [stampOf, closedStatus_of_perm_book hp hclosed' hclosed, hrealized,
    totalFees_of_perm_book hp, stampOf]⟩

end Order

/-! ## What each path writes -/

section Paths

variable {s pk tg new}

theorem newRows_of_ungrouped (hnew : Ungrouped s new) :
    (⟨pk, held s pk⟩ : OpenGroup).newRows new = new := by
  unfold OpenGroup.newRows
  rw [List.filter_eq_self]
  intro r hr
  simp only [decide_eq_true_eq]
  intro hmem
  obtain ⟨m, hm, hid⟩ := List.mem_map.mp hmem
  exact hnew.notMem_members m (s.mem_getGroupTransactions.mp hm)
    (hid ▸ List.mem_map_of_mem hr)

/-- The members after the attach are the rows held and the new ones. -/
theorem allRows_perm (hnew : Ungrouped s new) :
    ((held s pk ++ new).map TxnRow.book).Perm ((allRows s pk new).map TxnRow.book) := by
  have hall := ((withNew s pk new).getGroupTransactions_perm pk).map TxnRow.book
  refine ((hall.trans hnew.members_attached_perm).trans ?_).symm
  rw [List.map_append]
  exact ((s.getGroupTransactions_perm pk).symm.map _).append_right _

theorem byExit_eq (htg : s.getTradeGroupById pk = some tg) (hnew : Ungrouped s new)
    (hne : new ≠ []) (rolledToPk deliveryPk : Option ℕ) :
    byExit s pk new rolledToPk deliveryPk =
      some (if fullyClosed (held s pk ++ new) = true then
        stampOf s.getSecurity (held s pk ++ new) (lastExecutedAt new) else tg.lifecycle) := by
  have hrows : ((⟨pk, held s pk⟩ : OpenGroup).extendUnique new).rows = held s pk ++ new := by
    rw [OpenGroup.extendUnique, newRows_of_ungrouped hnew]
  rw [byExit, exec_applyExit, getTradeGroupById_exitState, hrows, newRows_of_ungrouped hnew, htg]
  by_cases hclosed : fullyClosed (held s pk ++ new) = true
  · rw [if_pos ⟨rfl, hne, hclosed⟩, if_pos hclosed]
    rfl
  · rw [if_neg (fun h => hclosed h.2.2), if_neg hclosed]
    rfl

theorem byHeal_eq (htg : s.getTradeGroupById pk = some tg) (hopen : tg.status = .open)
    (hclosed : fullyClosed (allRows s pk new) = true) :
    byHeal s pk tg new =
      some (stampOf s.getSecurity (allRows s pk new) (lastExecutedAt (allRows s pk new))) := by
  have htg' : (withNew s pk new).getTradeGroupById pk = some tg := htg
  have hmem : (⟨pk, allRows s pk new⟩ : OpenGroup) ∈
      closedOpenGroups (withNew s pk new) tg.account :=
    (mem_closedOpenGroups _ _).mpr
      ⟨(mem_openGroupsOf _).mpr ⟨⟨tg, htg', rfl, hopen⟩, rfl⟩, hclosed⟩
  rw [byHeal, exec_healFullyClosedGroups]
  show (((closedOpenGroups (withNew s pk new) tg.account).foldl healStep
    (withNew s pk new)).getTradeGroupById pk).map _ = _
  rcases getTradeGroupById_healSteps (withNew s pk new)
      (nodup_closedOpenGroups (withNew s pk new) tg.account) pk with
    ⟨hnot, -⟩ | ⟨g, hg, hpk, heq⟩
  · exact absurd (List.mem_map.mpr ⟨_, hmem, rfl⟩) hnot
  · obtain ⟨-, hrows⟩ := (mem_openGroupsOf _).mp ((mem_closedOpenGroups _ _).mp hg).1
    rw [heq, htg', hrows, hpk]
    rfl

theorem byRecompute_eq (htg : s.getTradeGroupById pk = some tg) :
    byRecompute s pk tg new =
      some (recomputedRow (withNew s pk new) pk tg).lifecycle := by
  have htg' : (withNew s pk new).getTradeGroupById pk = some tg := htg
  rw [byRecompute, exec_recomputeGroup_row]
  simp only []
  rw [InMemoryStore.getTradeGroupById_putGroup _ htg' (groupId_recomputedRow _ _ _), if_pos rfl,
    Option.map_some]

/-- The recompute of a group that its own account closes stamps it. -/
theorem byRecompute_of_closed (htg : s.getTradeGroupById pk = some tg)
    (hclosed : fullyClosed (ownAccountRows s pk tg new) = true) :
    byRecompute s pk tg new = some (stampOf s.getSecurity (ownAccountRows s pk tg new)
      (lastExecutedAt (ownAccountRows s pk tg new))) := by
  rw [byRecompute_eq htg, recomputedRow_of_fullyClosed _ hclosed]
  rfl

end Paths

/-! ## When they agree -/

section Agree

variable {s pk tg new}

/-- Where the three paths agree, the latest member is among the new rows. -/
theorem StampsAgree.latest_new (h : StampsAgree s pk tg new)
    (htg : s.getTradeGroupById pk = some tg) (hopen : tg.status = .open)
    (hnew : Ungrouped s new) (hne : new ≠ []) (hclosed : fullyClosed (allRows s pk new) = true) :
    lastExecutedAt new = lastExecutedAt (allRows s pk new) := by
  have heq := h.exit_heal none none
  rw [byExit_eq htg hnew hne, byHeal_eq htg hopen hclosed, Option.some_inj] at heq
  split at heq
  · exact congrArg Lifecycle.closedAt heq
  · -- an open group is not stamped open
    have hstatus := congrArg Lifecycle.status heq
    exact absurd (hstatus.symm.trans hopen) (closedStatus_ne_open _)

/-- The rows of the group's own account are the members, where all are of the account. -/
theorem ownAccountRows_perm (hown : ∀ r ∈ allRows s pk new, r.account = tg.account) :
    (ownAccountRows s pk tg new).Perm (allRows s pk new) := by
  have hmembers : ownAccountRows s pk tg new = (withNew s pk new).members pk := by
    refine List.filter_congr fun r hr => ?_
    by_cases hg : r.tradeGroupId = some pk
    · have hmem : r ∈ allRows s pk new :=
        (InMemoryStore.mem_getGroupTransactions _).mpr
          (List.mem_filter.mpr ⟨hr, by simpa using hg⟩)
      simp [hg, hown r hmem]
    · simp [hg]
  rw [hmembers]
  exact (InMemoryStore.getGroupTransactions_perm _ pk).symm

end Agree

/-! ## A close that arrives late -/

/-- A position half closed at 100 s; the other half was closed at 50 s and is imported after. -/
def lateClose : InMemoryStore :=
  let s := InMemoryStore.seeded [{ securityId := "X", productType := "E" }]
    [.placed "A" "o1", .placed "A" "o2", .placed "A" "o3"]
    [.fill "A" "t1" "o1" "Buy to Open" "X" 2 0,
      .fill "A" "t2" "o2" "Sell to Close" "X" 1 (100 * second)]
  ((exec (reconcile (some "A") {}) s).2).upsertTransactions
    [.fill "A" "t3" "o3" "Sell to Close" "X" 1 (50 * second)]

/-- The late rows. -/
def lateRows : List TxnRow := [.fill "A" "t3" "o3" "Sell to Close" "X" 1 (50 * second)]

/-- The group they close. -/
def lateGroup : TradeGroupRow :=
  newGroupRow "x" "A" (fieldsOf lateClose.getSecurity
    [.fill "A" "t1" "o1" "Buy to Open" "X" 2 0])

/-- The position half closed at 50 s, when the other half was closed at 100 s and is imported
after. -/
def orderlyClose : InMemoryStore :=
  let s := InMemoryStore.seeded [{ securityId := "X", productType := "E" }]
    [.placed "A" "o1", .placed "A" "o2", .placed "A" "o3"]
    [.fill "A" "t1" "o1" "Buy to Open" "X" 2 0,
      .fill "A" "t2" "o2" "Sell to Close" "X" 1 (50 * second)]
  ((exec (reconcile (some "A") {}) s).2).upsertTransactions
    [.fill "A" "t3" "o3" "Sell to Close" "X" 1 (100 * second)]

/-- The rows that close it. -/
def restRows : List TxnRow := [.fill "A" "t3" "o3" "Sell to Close" "X" 1 (100 * second)]

theorem ungrouped_restRows : Ungrouped orderlyClose restRows := by
  refine ⟨by decide +kernel, fun r hr => ⟨r, ?_, rfl, ?_⟩⟩
  · obtain rfl := List.mem_singleton.mp hr
    decide +kernel
  · obtain rfl := List.mem_singleton.mp hr
    rfl

/-- No two rows of the group are simultaneous. -/
theorem listedAlike_orderlyClose : ListedAlike orderlyClose 1 lateGroup restRows where
  own := by decide +kernel
  exit := by
    have hsame : (held orderlyClose 1 ++ restRows).map TxnRow.book =
        (allRows orderlyClose 1 restRows).map TxnRow.book := by decide +kernel
    exact fun sid => Or.inl fun t => by rw [hsame]
  recompute := by
    have hsame : (ownAccountRows orderlyClose 1 lateGroup restRows).map TxnRow.book =
        (allRows orderlyClose 1 restRows).map TxnRow.book := by decide +kernel
    exact fun sid => Or.inl fun t => by rw [hsame]

end TtLedger
