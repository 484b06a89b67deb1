import TtLedger.Ingest.Runs
import Mathlib.Data.List.Forall2
import Mathlib.Data.List.ReduceOption

/-!
# Runs of a pass

The closed forms of the pass itself on the in-memory store: `clusterStep` is one iteration of the
cluster loop, `routed` the loop with the rolls after it, `lapseSettlements` the settlement rows
due (an `Except`, since the resolver may raise), `lapsed` the state after they are written and
applied, `healed` the state after the heal, and `exec_reconcileAccount` the whole pass.
-/

namespace TtLedger

open LedgerStore Prog

variable (s : InMemoryStore)

/-! ## Programs that only read -/

/-- A program that returns and leaves the state as it was. -/
def Reads {α : Type} (p : LedgerProg α) : Prop := ∀ s, ∃ a, exec p s = (.ok a, s)

namespace Reads

variable {α β : Type}

theorem pure (a : α) : Reads (Pure.pure a : LedgerProg α) := fun _ => ⟨a, rfl⟩

theorem bind {p : LedgerProg α} {f : α → LedgerProg β} (hp : Reads p) (hf : ∀ a, Reads (f a)) :
    Reads (p >>= f) := by
  intro s
  obtain ⟨a, ha⟩ := hp s
  obtain ⟨b, hb⟩ := hf a s
  exact ⟨b, by rw [exec_bind ha, hb]⟩

theorem foldlM {f : β → α → LedgerProg β} (hf : ∀ b a, Reads (f b a)) :
    ∀ (l : List α) (b : β), Reads (l.foldlM f b)
  | [], b => pure b
  | a :: l, b => by
    rw [List.foldlM_cons]
    exact (hf b a).bind fun b' => foldlM hf l b'

theorem mapM {f : α → LedgerProg β} (hf : ∀ a, Reads (f a)) : ∀ l : List α, Reads (l.mapM f)
  | [] => by
    rw [List.mapM_nil]
    exact pure []
  | a :: l => by
    rw [List.mapM_cons]
    exact (hf a).bind fun b => (mapM hf l).bind fun bs => pure (b :: bs)

end Reads

theorem reads_getSecurity (sid : String) : Reads (getSecurity sid) := fun _ => ⟨_, rfl⟩

theorem reads_securityOf (r : TxnRow) : Reads (securityOf r) := by
  unfold securityOf
  split
  · exact reads_getSecurity _
  · exact Reads.pure _

theorem reads_deliversUnderlying (closeRows restRows : List TxnRow) :
    Reads (deliversUnderlying closeRows restRows) := by
  unfold deliversUnderlying
  simp only []
  split
  · exact Reads.pure _
  · refine (Reads.mapM (fun r => ?_) _).bind fun secUnders => Reads.foldlM (fun found r => ?_) _ _
    · exact (reads_securityOf r).bind fun sec => Reads.pure _
    · split
      · exact Reads.pure _
      · exact (reads_securityOf r).bind fun sec => Reads.pure _

theorem reads_deliveryPk (newPk : Option ℕ) (rows rest : List TxnRow) :
    Reads (deliveryPk newPk rows rest) := by
  unfold deliveryPk
  split
  · exact Reads.pure _
  · exact (reads_deliversUnderlying rows rest).bind fun _ => Reads.pure _

theorem reads_rowOptionType (r : TxnRow) : Reads (rowOptionType r) := by
  unfold rowOptionType
  split
  · exact Reads.pure _
  · exact (reads_getSecurity _).bind fun _ => Reads.pure _

theorem reads_rollsInto (closedAt : Datetime) (rows : List TxnRow) (cg : CreatedGroup) :
    Reads (rollsInto closedAt rows cg) := by
  unfold rollsInto
  split
  · exact Reads.pure _
  · split
    · refine Reads.bind ?_ fun types => Reads.pure _
      exact (Reads.mapM reads_rowOptionType _).bind fun _ =>
        (Reads.mapM reads_rowOptionType _).bind fun _ => Reads.pure _
    · exact Reads.pure _

/-! ## The cluster loop -/

/-- The delivery link of a bucket. -/
def deliveryOf (newPk : Option ℕ) (rows rest : List TxnRow) : Option ℕ :=
  (exec (deliveryPk newPk rows rest) s).1.toOption.join

theorem exec_deliveryPk (newPk : Option ℕ) (rows rest : List TxnRow) :
    exec (deliveryPk newPk rows rest) s = (.ok (deliveryOf s newPk rows rest), s) := by
  obtain ⟨a, ha⟩ := reads_deliveryPk newPk rows rest s
  rw [deliveryOf, ha]
  rfl

/-- Open a group for the rest of a cluster. -/
def restStep (account : String) (dryRun : Bool) (pass : Pass) (rest : List TxnRow) :
    (Option ℕ × Pass) × InMemoryStore :=
  if rest.isEmpty then ((none, pass), s)
  else if dryRun then ((none, { pass with tradeGroups := pass.tradeGroups + 1 }), s)
  else
    ((some (newPk s account rest),
      { pass with
        openGroups := pass.openGroups ++ [⟨newPk s account rest, rest⟩]
        created := pass.created ++ [⟨newPk s account rest, rest⟩]
        tradeGroups := pass.tradeGroups + 1 }),
      createState s account rest)

theorem exec_openRest (account : String) (dryRun : Bool) (pass : Pass) (rest : List TxnRow) :
    exec (openRest account dryRun pass rest) s =
      (.ok (restStep s account dryRun pass rest).1, (restStep s account dryRun pass rest).2) := by
  unfold openRest restStep
  by_cases hrest : rest.isEmpty = true
  · simp [hrest]
  · cases dryRun with
    | true => simp [hrest]
    | false =>
      simp only [hrest, Bool.false_eq_true, if_false]
      rw [exec_bind (exec_createTradeGroup s _ _)]
      rfl

/-- Apply one bucket. -/
def bucketStep (newPk : Option ℕ) (rest : List TxnRow) (w : Pass × InMemoryStore)
    (bucket : OpenGroup × List ActivityRow) : Pass × InMemoryStore :=
  let rows := bucket.2.map ActivityRow.toTxnRow
  let rolledTo := if sameUnderlying rows rest then newPk else none
  let applied := exitResult w.2 bucket.1 rows rolledTo
  ({ w.1 with
      openGroups :=
        if applied.fullyClosed then removeGroup w.1.openGroups bucket.1.pk
        else replaceGroup w.1.openGroups applied.group
      exits := w.1.exits ++ [applied] },
    exitState w.2 bucket.1 rows rolledTo (deliveryOf w.2 newPk rows rest))

theorem exec_applyBucket (newPk : Option ℕ) (rest : List TxnRow) (pass : Pass)
    (bucket : OpenGroup × List ActivityRow) :
    exec (applyBucket newPk rest pass bucket) s =
      (.ok (bucketStep newPk rest (pass, s) bucket).1,
        (bucketStep newPk rest (pass, s) bucket).2) := by
  unfold applyBucket bucketStep
  simp only []
  rw [exec_bind (exec_deliveryPk s _ _ _), exec_bind (exec_applyExit s _ _ _ _)]
  rfl

/-- One iteration of the cluster loop. -/
def clusterStep (account : String) (dryRun : Bool) (w : Pass × InMemoryStore)
    (cluster : List ActivityRow) : Pass × InMemoryStore :=
  let intent := intentRows w.2 w.1.openGroups cluster dryRun
  let pass := { w.1 with openGroups := intent.1.1 }
  if intent.1.2.isEmpty then (pass, intent.2)
  else
    let routing := routeCluster pass.openGroups intent.1.2
    let rest := routing.rest.map ActivityRow.toTxnRow
    let opened := restStep intent.2 account dryRun pass rest
    if dryRun then (opened.1.2, opened.2)
    else routing.buckets.foldl (bucketStep opened.1.1 rest) (opened.1.2, opened.2)

theorem exec_reconcileCluster (account : String) (dryRun : Bool) (pass : Pass)
    (cluster : List ActivityRow) :
    exec (reconcileCluster account dryRun pass cluster) s =
      (.ok (clusterStep account dryRun (pass, s) cluster).1,
        (clusterStep account dryRun (pass, s) cluster).2) := by
  unfold reconcileCluster clusterStep
  rw [exec_bind (exec_applyIntentRows s _ _ _)]
  simp only []
  by_cases hempty : (intentRows s pass.openGroups cluster dryRun).1.2.isEmpty = true
  · simp [hempty]
  · simp only [hempty, Bool.false_eq_true, if_false]
    rw [exec_bind (exec_openRest _ _ _ _ _)]
    cases dryRun with
    | true => rfl
    | false =>
      simp only [Bool.false_eq_true, if_false]
      exact run_foldlM_eq memory (bucketStep _ _) _ (_, _) fun b _ w =>
        exec_applyBucket w.2 _ _ w.1 b

/-! ## Rolls across clusters -/

/-- The roll of an exit into a group that opened after it closed. -/
def rollEvent (pk : ℕ) (openedAt : Datetime) (rolledTo : ℕ) : EventRow where
  tradeGroupId := pk
  eventType := .roll
  eventAt := some openedAt
  rolledToGroupId := some rolledTo

/-- What is recorded when an exit is linked to a group of its pass. -/
structure LinksRoll (created : List CreatedGroup) (ex : AppliedExit) (ev : EventRow) : Prop where
  unrolled : ex.rolled = false
  into : ∃ cg ∈ created, ∃ closedAt openedAt, ex.closedAt = some closedAt ∧
    firstExecutedAt cg.rows = some openedAt ∧ 0 ≤ openedAt - closedAt ∧
    openedAt - closedAt ≤ rollTolerance ∧ sameUnderlying ex.rows cg.rows = true ∧
    ev = rollEvent ex.group.pk openedAt cg.pk

theorem rollsInto_eq_some {closedAt openedAt : Datetime} {rows : List TxnRow} {cg : CreatedGroup}
    {s' : InMemoryStore} (h : exec (rollsInto closedAt rows cg) s = (.ok (some openedAt), s')) :
    firstExecutedAt cg.rows = some openedAt ∧ 0 ≤ openedAt - closedAt ∧
      openedAt - closedAt ≤ rollTolerance ∧ sameUnderlying rows cg.rows = true := by
  unfold rollsInto at h
  split at h
  · cases congrArg Prod.fst h
  · rename_i opened hopened
    split at h
    · rename_i hnear
      obtain ⟨types, s₁, -, hret⟩ := (run_bind_eq_ok memory).mp h
      have hsome := Except.ok.inj (congrArg Prod.fst hret)
      cases types with
      | true =>
        obtain rfl := Option.some.inj hsome
        exact ⟨hopened, hnear.1, hnear.2.1, hnear.2.2.1⟩
      | false => cases hsome
    · cases congrArg Prod.fst h

theorem exec_linkRoll {ex : AppliedExit} {closedAt : Datetime} (hrolled : ex.rolled = false)
    (hclosed : ex.closedAt = some closedAt) (created : List CreatedGroup) :
    ∃ link : Option EventRow, (∀ ev ∈ link, LinksRoll created ex ev) ∧
      exec (linkRoll ex closedAt created) s = (.ok (), s.addEvents link.toList) := by
  induction created with
  | nil => exact ⟨none, fun _ hev => (by cases hev), rfl⟩
  | cons cg created ih =>
    obtain ⟨o, ho⟩ := reads_rollsInto closedAt ex.rows cg s
    unfold linkRoll
    rw [exec_bind ho]
    cases o with
    | some openedAt =>
      obtain ⟨hopened, hafter, hnear, hunder⟩ := rollsInto_eq_some s ho
      refine ⟨some (rollEvent ex.group.pk openedAt cg.pk), fun ev hev => ⟨hrolled, ?_⟩, rfl⟩
      exact ⟨cg, by simp, closedAt, openedAt, hclosed, hopened, hafter, hnear, hunder,
        (Option.some.inj hev).symm⟩
    | none =>
      obtain ⟨link, hlink, hexec⟩ := ih
      refine ⟨link, fun ev hev => ⟨hrolled, ?_⟩, hexec⟩
      obtain ⟨cg', hcg', hrest⟩ := (hlink ev hev).into
      exact ⟨cg', .tail _ hcg', hrest⟩

theorem addEvents_addEvents (events events' : List EventRow) :
    (s.addEvents events).addEvents events' = s.addEvents (events ++ events') := by
  simp [InMemoryStore.addEvents, List.foldl_append]

/-- What the exits of a pass are linked to: one roll at most for each. -/
abbrev RollLinks (created : List CreatedGroup) :
    List AppliedExit → List (Option EventRow) → Prop :=
  List.Forall₂ fun ex link => ∀ ev ∈ link, LinksRoll created ex ev

theorem exec_linkCrossClusterRolls (exits : List AppliedExit) (created : List CreatedGroup) :
    ∃ links, RollLinks created exits links ∧
      exec (linkCrossClusterRolls exits created) s =
        (.ok (), s.addEvents links.reduceOption) := by
  have hone : ∀ (ex : AppliedExit) (s : InMemoryStore), ∃ link : Option EventRow,
      (∀ ev ∈ link, LinksRoll created ex ev) ∧
      exec (linkCrossClusterRolls [ex] created) s = (.ok (), s.addEvents link.toList) := by
    intro ex s
    cases hclosed : ex.closedAt with
    | none =>
      refine ⟨none, fun _ hev => (by cases hev), ?_⟩
      simp [linkCrossClusterRolls, InMemoryStore.addEvents, hclosed]
    | some closedAt =>
      cases hrolled : ex.rolled with
      | true =>
        refine ⟨none, fun _ hev => (by cases hev), ?_⟩
        simp [linkCrossClusterRolls, InMemoryStore.addEvents, hclosed, hrolled]
      | false =>
        obtain ⟨link, hlink, hroll⟩ := exec_linkRoll s hrolled hclosed created
        exact ⟨link, hlink, by simpa [linkCrossClusterRolls, hclosed, hrolled] using hroll⟩
  induction exits generalizing s with
  | nil => exact ⟨[], .nil, rfl⟩
  | cons ex exits ih =>
    obtain ⟨link, hlink, h₁⟩ := hone ex s
    obtain ⟨links, hlinks, h₂⟩ := ih (s.addEvents link.toList)
    refine ⟨link :: links, .cons hlink hlinks, ?_⟩
    have hcons : linkCrossClusterRolls (ex :: exits) created =
        linkCrossClusterRolls [ex] created >>= fun _ => linkCrossClusterRolls exits created := by
      simp [linkCrossClusterRolls]
    have hreduce : (link :: links).reduceOption = link.toList ++ links.reduceOption := by
      cases link <;> rfl
    rw [hcons, exec_bind h₁, h₂, addEvents_addEvents, hreduce]

/-! ## Open groups and candidates -/

/-- The open groups of an account, with their members. -/
def openGroupsOf (account : String) : List OpenGroup :=
  (s.unifiedTrades { account := some account, status := some .open }).filterMap fun tg =>
    (s.getTradeGroupId tg.groupId).map fun pk => ⟨pk, s.getGroupTransactions pk⟩

@[simp] theorem exec_loadOpenGroups (account : String) :
    exec (loadOpenGroups account) s = (.ok (openGroupsOf s account), s) := by
  have hstep : ∀ (trades : List TradeGroupRow) (groups : List OpenGroup),
      exec (trades.foldlM loadOpenGroup groups) s =
        (.ok (groups ++ trades.filterMap fun tg => (s.getTradeGroupId tg.groupId).map fun pk =>
          (⟨pk, s.getGroupTransactions pk⟩ : OpenGroup)), s) := by
    intro trades
    induction trades with
    | nil => intro groups; simp
    | cons tg trades ih =>
      intro groups
      have hone : exec (loadOpenGroup groups tg) s =
          (.ok (groups ++ ((s.getTradeGroupId tg.groupId).map fun pk =>
            (⟨pk, s.getGroupTransactions pk⟩ : OpenGroup)).toList), s) := by
        unfold loadOpenGroup
        rw [exec_bind (exec_getTradeGroupId s _)]
        cases s.getTradeGroupId tg.groupId with
        | none => simp
        | some pk =>
          simp only []
          rw [exec_bind (exec_getGroupTransactions s pk)]
          rfl
      rw [List.foldlM_cons, exec_bind hone, ih]
      cases hpk : s.getTradeGroupId tg.groupId <;> simp [hpk]
  unfold loadOpenGroups
  rw [exec_bind (exec_unifiedTrades s _), hstep]
  rfl

/-- The candidates of an account. -/
def candidatesOf (account : String) (args : ReconcileArgs) : List ActivityRow :=
  (s.accountActivity { account := some account, start := args.since }).filter isCandidate

/-- The cluster loop over the candidates. -/
def routeLoop (account : String) (args : ReconcileArgs) : Pass × InMemoryStore :=
  (clusterByTime (candidatesOf s account args)).foldl (clusterStep account args.dryRun)
    ({ openGroups := openGroupsOf s account }, s)

/-- A dry run writes nothing in the loop. -/
theorem routeLoop_dryRun {account : String} {args : ReconcileArgs} (hdry : args.dryRun = true) :
    (routeLoop s account args).2 = s := by
  have hstep : ∀ (w : Pass × InMemoryStore) (cluster : List ActivityRow),
      (clusterStep account true w cluster).2 = w.2 := by
    intro w cluster
    have hrest : ∀ pass rest, (restStep w.2 account true pass rest).2 = w.2 := by
      intro pass rest
      unfold restStep
      split <;> rfl
    unfold clusterStep
    simp only [intentRows, if_true]
    split
    · rfl
    · exact hrest _ _
  have hloop : ∀ (clusters : List (List ActivityRow)) (w : Pass × InMemoryStore),
      (clusters.foldl (clusterStep account true) w).2 = w.2 := by
    intro clusters
    induction clusters with
    | nil => exact fun w => rfl
    | cons cluster clusters ih => exact fun w => (ih _).trans (hstep w cluster)
  unfold routeLoop
  rw [hdry]
  exact hloop _ _

/-- A dry run applies no exit. -/
theorem exits_routeLoop_dryRun {account : String} {args : ReconcileArgs}
    (hdry : args.dryRun = true) : (routeLoop s account args).1.exits = [] := by
  have hstep : ∀ (w : Pass × InMemoryStore) (cluster : List ActivityRow),
      (clusterStep account true w cluster).1.exits = w.1.exits := by
    intro w cluster
    have hrest : ∀ s pass rest, (restStep s account true pass rest).1.2.exits = pass.exits := by
      intro s pass rest
      unfold restStep
      split <;> rfl
    unfold clusterStep
    simp only [if_true]
    split
    · rfl
    · exact hrest _ _ _
  have hloop : ∀ (clusters : List (List ActivityRow)) (w : Pass × InMemoryStore),
      (clusters.foldl (clusterStep account true) w).1.exits = w.1.exits := by
    intro clusters
    induction clusters with
    | nil => exact fun w => rfl
    | cons cluster clusters ih => exact fun w => (ih _).trans (hstep w cluster)
  unfold routeLoop
  rw [hdry]
  exact hloop _ _

theorem exec_routeCandidates (account : String) (args : ReconcileArgs) :
    ∃ links, RollLinks (routeLoop s account args).1.created (routeLoop s account args).1.exits
        links ∧
      exec (routeCandidates account args) s =
        (.ok (routeLoop s account args).1.tradeGroups,
          (routeLoop s account args).2.addEvents links.reduceOption) := by
  have hloop : exec ((clusterByTime (candidatesOf s account args)).foldlM
      (reconcileCluster account args.dryRun) { openGroups := openGroupsOf s account }) s =
      (.ok (routeLoop s account args).1, (routeLoop s account args).2) :=
    run_foldlM_eq memory (clusterStep account args.dryRun) _ (_, s) fun c _ w =>
      exec_reconcileCluster w.2 account args.dryRun w.1 c
  obtain ⟨links, hlinks, hroll⟩ := exec_linkCrossClusterRolls (routeLoop s account args).2
    (routeLoop s account args).1.exits (routeLoop s account args).1.created
  unfold routeCandidates
  rw [candidatesOf] at hloop
  rw [exec_bind (exec_accountActivity s _), exec_bind (exec_loadOpenGroups s _), exec_bind hloop]
  cases hdry : args.dryRun with
  | true =>
    refine ⟨[], ?_, rfl⟩
    rw [exits_routeLoop_dryRun s hdry]
    exact .nil
  | false =>
    refine ⟨links, hlinks, ?_⟩
    simp only [Bool.not_false, if_true]
    rw [exec_bind hroll]
    rfl

/-! ## Lapse settlements -/

/-- The account's latest activity. -/
def lastActivity (account : String) : Option Datetime :=
  lastExecutedAt ((s.accountActivity { account := some account }).map ActivityRow.toTxnRow)

/-- The settlement value of one contract. -/
def settlePointsOf (args : ReconcileArgs) (sec : SecurityRow) (securityId : String)
    (expiry : Date) : Except String (Option ℚ) :=
  match sec.strike with
  | none => .ok (some 0)
  | some strike =>
    if sec.optionType = some "C" ∨ sec.optionType = some "P" then
      match args.settlementPrice with
      | none => .ok none
      | some settlementPrice =>
        (settlementPrice securityId expiry).map fun settle => settle.map fun settle =>
          if sec.optionType = some "C" then max 0 (settle - strike) else max 0 (strike - settle)
    else .ok (some 0)

theorem exec_settlePoints (args : ReconcileArgs) (sec : SecurityRow) (securityId : String)
    (expiry : Date) :
    exec (settlePoints args sec securityId expiry) s =
      (settlePointsOf args sec securityId expiry, s) := by
  unfold settlePoints settlePointsOf
  cases sec.strike with
  | none => rfl
  | some strike =>
    simp only []
    split
    · cases args.settlementPrice with
      | none => rfl
      | some settlementPrice =>
        simp only []
        cases settlementPrice securityId expiry <;> rfl
    · rfl

/-- The settlement rows due in one held security. -/
def securityLapse (args : ReconcileArgs) (account : String) (lastActivity : Datetime)
    (openGroups : List OpenGroup) (securityId : String) : Except String (List TxnRow) :=
  match s.getSecurity securityId with
  | none => .ok []
  | some sec =>
    match lapsedExpiry args lastActivity sec with
    | none => .ok []
    | some expiry =>
      (settlePointsOf args sec securityId expiry).map fun points =>
        match points with
        | none => []
        | some points => lapseRows account securityId sec expiry points openGroups

/-- The settlement rows due in a list of held securities. -/
def securitiesLapse (args : ReconcileArgs) (account : String) (lastActivity : Datetime)
    (openGroups : List OpenGroup) : List String → Except String (List TxnRow)
  | [] => .ok []
  | securityId :: securityIds =>
    match securityLapse s args account lastActivity openGroups securityId with
    | .error e => .error e
    | .ok rows =>
      (securitiesLapse args account lastActivity openGroups securityIds).map (rows ++ ·)

/-- The settlement rows due for the open groups of an account. -/
def lapseSettlements (account : String) (args : ReconcileArgs) : Except String (List TxnRow) :=
  match lastActivity s account with
  | none => .ok []
  | some lastActivity =>
    securitiesLapse s args account lastActivity (openGroupsOf s account)
      (heldSecurities (openGroupsOf s account))

/-- Apply one group's settlement rows. -/
def lapseStep (synthesized : List TxnRow) (s : InMemoryStore) (group : OpenGroup) :
    InMemoryStore :=
  let rows := synthesized.filter fun r => r.tradeGroupId = some group.pk
  if rows.isEmpty then s else exitState s group rows none none

/-- The state after settlement rows are written and applied. -/
def lapsed (account : String) (dryRun : Bool) (synthesized : List TxnRow) : InMemoryStore :=
  if synthesized.isEmpty ∨ dryRun = true then s
  else (openGroupsOf s account).foldl (lapseStep synthesized) (s.upsertTransactions synthesized)

theorem exec_synthesizeSecurity (args : ReconcileArgs) (account : String)
    (lastActivity : Datetime) (openGroups : List OpenGroup) (synthesized : List TxnRow)
    (securityId : String) :
    exec (synthesizeSecurity args account lastActivity openGroups synthesized securityId) s =
      ((securityLapse s args account lastActivity openGroups securityId).map (synthesized ++ ·),
        s) := by
  unfold synthesizeSecurity securityLapse
  rw [exec_bind (exec_getSecurity s _)]
  cases s.getSecurity securityId with
  | none => simp [Except.map]
  | some sec =>
    simp only []
    cases lapsedExpiry args lastActivity sec with
    | none => simp [Except.map]
    | some expiry =>
      simp only []
      cases hpoints : settlePointsOf args sec securityId expiry with
      | error e =>
        refine exec_bind_error ((exec_settlePoints s args sec securityId expiry).trans ?_)
        rw [hpoints]
      | ok points =>
        rw [exec_bind ((exec_settlePoints s args sec securityId expiry).trans (by rw [hpoints]))]
        cases points <;> simp [Except.map]

theorem exec_synthesizeSecurities (args : ReconcileArgs) (account : String)
    (lastActivity : Datetime) (openGroups : List OpenGroup) (securityIds : List String)
    (synthesized : List TxnRow) :
    exec (securityIds.foldlM (synthesizeSecurity args account lastActivity openGroups)
      synthesized) s =
      ((securitiesLapse s args account lastActivity openGroups securityIds).map (synthesized ++ ·),
        s) := by
  induction securityIds generalizing synthesized with
  | nil => simp [securitiesLapse, Except.map]
  | cons securityId securityIds ih =>
    have hone := exec_synthesizeSecurity s args account lastActivity openGroups synthesized
      securityId
    rw [List.foldlM_cons, securitiesLapse]
    cases hsec : securityLapse s args account lastActivity openGroups securityId with
    | error e =>
      rw [hsec] at hone
      exact exec_bind_error hone
    | ok rows =>
      rw [hsec] at hone
      rw [exec_bind hone, ih]
      cases securitiesLapse s args account lastActivity openGroups securityIds <;>
        simp [Except.map]

theorem exec_applyLapse (synthesized : List TxnRow) (group : OpenGroup) :
    exec (applyLapse synthesized group) s = (.ok (), lapseStep synthesized s group) := by
  unfold applyLapse lapseStep
  simp only []
  split
  · rfl
  · rw [exec_bind (exec_applyExit s _ _ _ _)]
    rfl

theorem exec_synthesizeLapsedSettlements (account : String) (args : ReconcileArgs) :
    exec (synthesizeLapsedSettlements account args) s =
      match lapseSettlements s account args with
      | .error e => (.error e, s)
      | .ok synthesized => (.ok synthesized, lapsed s account args.dryRun synthesized) := by
  unfold synthesizeLapsedSettlements lapseSettlements lastActivity
  rw [exec_bind (exec_accountActivity s _)]
  cases lastExecutedAt
      ((s.accountActivity { account := some account }).map ActivityRow.toTxnRow) with
  | none => simp [lapsed]
  | some last =>
    simp only []
    rw [exec_bind (exec_loadOpenGroups s _)]
    have hfold := exec_synthesizeSecurities s args account last (openGroupsOf s account)
      (heldSecurities (openGroupsOf s account)) []
    cases hrows : securitiesLapse s args account last (openGroupsOf s account)
        (heldSecurities (openGroupsOf s account)) with
    | error e =>
      rw [hrows] at hfold
      exact exec_bind_error hfold
    | ok rows =>
      rw [hrows] at hfold
      rw [exec_bind hfold]
      simp only [List.nil_append, lapsed]
      by_cases hskip : rows.isEmpty ∨ args.dryRun = true
      · have : (!rows.isEmpty && !args.dryRun) = false := by
          rcases hskip with h | h <;> simp [h]
        rw [if_pos hskip]
        simp [this]
      · have : (!rows.isEmpty && !args.dryRun) = true := by
          rw [not_or] at hskip
          simp only [Bool.not_eq_true] at hskip
          simp [hskip.1, hskip.2]
        rw [if_neg hskip, this]
        simp only [if_true]
        have happly := run_forM_eq memory (lapseStep rows) (openGroupsOf s account)
          (s.upsertTransactions rows) fun g _ s => exec_applyLapse s rows g
        rw [exec_bind (exec_upsertTransactions s rows)]
        exact exec_bind happly

/-! ## Healing -/

/-- The event that records a repair. -/
def healEvent (pk : ℕ) (closedAt : Option Datetime) : EventRow where
  tradeGroupId := pk
  eventType := .adjustment
  eventAt := closedAt
  notes := some "self-heal: content fully closed but status was open"

/-- Heal one group. -/
def healStep (s : InMemoryStore) (group : OpenGroup) : InMemoryStore :=
  match s.getTradeGroupById group.pk with
  | none => s
  | some _ =>
    (s.stamped group (lastExecutedAt group.rows)).addTradeGroupEvent
      (healEvent group.pk (lastExecutedAt group.rows))

/-- The open groups of an account whose content is fully closed. -/
def closedOpenGroups (account : String) : List OpenGroup :=
  (openGroupsOf s account).filter fun g => fullyClosed g.rows

/-- The state after the heal. -/
def healed (account : String) (dryRun : Bool) : InMemoryStore :=
  if dryRun then s else (closedOpenGroups s account).foldl healStep s

theorem exec_healGroup (group : OpenGroup) :
    exec (healGroup group) s = (.ok (), healStep s group) := by
  unfold healGroup healStep
  rw [exec_bind (exec_getTradeGroupById s _)]
  cases htg : s.getTradeGroupById group.pk with
  | none => rfl
  | some tg =>
    simp only []
    rw [exec_bind (exec_groupRealized s _), exec_bind (exec_upsertTradeGroup s _),
      InMemoryStore.stamped, htg]
    rfl

theorem exec_healFullyClosedGroups (account : String) (dryRun : Bool) :
    exec (healFullyClosedGroups account dryRun) s =
      (.ok (closedOpenGroups s account).length, healed s account dryRun) := by
  unfold healFullyClosedGroups healed
  rw [exec_bind (exec_loadOpenGroups s _)]
  cases dryRun with
  | true => rfl
  | false =>
    have hall := run_forM_eq memory healStep (closedOpenGroups s account) s
      fun g _ s => exec_healGroup s g
    simp only [Bool.false_eq_true, if_false]
    exact exec_bind hall

/-! ## The pass -/

/-- The state after the link steps. -/
def linked (account : String) : InMemoryStore :=
  (((s.linkTransactionsToOrders account).2.linkOrdersToGroups account).2
    |>.linkClosedPositionsToGroups account).2

theorem exec_linkAccount (account : String) :
    exec (linkAccount account) s = (.ok (), linked s account) := rfl

/-- A pass whose lapse step raises stops after the links. -/
theorem exec_reconcileAccount_error {account : String} {args : ReconcileArgs} {e : String}
    (h : lapseSettlements (linked s account) account args = .error e) :
    exec (reconcileAccount args account) s = (.error e, linked s account) := by
  have hlapse := exec_synthesizeLapsedSettlements (linked s account) account args
  rw [h] at hlapse
  unfold reconcileAccount
  rw [exec_bind (exec_linkAccount s account)]
  exact exec_bind_error hlapse

/-- The state in which a pass routes its candidates. -/
def lapsedState (account : String) (args : ReconcileArgs) (synthesized : List TxnRow) :
    InMemoryStore :=
  lapsed (linked s account) account args.dryRun synthesized

/-- **The pass over one account**: what it counts and the state it leaves, once the settlement
rows due are known. -/
theorem exec_reconcileAccount {account : String} {args : ReconcileArgs}
    {synthesized : List TxnRow}
    (h : lapseSettlements (linked s account) account args = .ok synthesized) :
    ∃ events s₂,
      s₂ = (routeLoop (lapsedState s account args synthesized) account args).2.addEvents events ∧
      (args.dryRun = true ∨
        (routeLoop (lapsedState s account args synthesized) account args).1.exits = [] →
          events = []) ∧
      exec (reconcileAccount args account) s =
        (.ok
          { transactions := synthesized.length
            tradeGroups :=
              (routeLoop (lapsedState s account args synthesized) account args).1.tradeGroups
            healedGroups := (closedOpenGroups s₂ account).length },
          healed s₂ account args.dryRun) := by
  have hlapse : exec (synthesizeLapsedSettlements account args) (linked s account) =
      (.ok synthesized, lapsedState s account args synthesized) := by
    rw [exec_synthesizeLapsedSettlements, h]
    rfl
  obtain ⟨links, hlinks, hroute⟩ :=
    exec_routeCandidates (lapsedState s account args synthesized) account args
  refine ⟨links.reduceOption, _, rfl, fun hnone => ?_, ?_⟩
  · have hexits : (routeLoop (lapsedState s account args synthesized) account args).1.exits = [] :=
      hnone.elim (exits_routeLoop_dryRun _) id
    rw [hexits] at hlinks
    rw [List.forall₂_nil_left_iff.mp hlinks]
    rfl
  unfold reconcileAccount
  rw [exec_bind (exec_linkAccount s account), exec_bind hlapse, exec_bind hroute,
    exec_bind (exec_healFullyClosedGroups _ _ _)]
  rfl

/-- A pass that raises is recorded in the result. -/
theorem exec_reconcileInto_error {account : String} {args : ReconcileArgs} {e : String}
    {s' : InMemoryStore} (result : SyncResult)
    (h : exec (reconcileAccount args account) s = (.error e, s')) :
    exec (reconcileInto args result account) s =
      (.ok { result with errors := result.errors ++ [account ++ ": " ++ e] }, s') := by
  unfold reconcileInto
  have hbind := exec_bind_error (f := fun pass : SyncResult => pure { result with
    transactions := result.transactions + pass.transactions
    tradeGroups := result.tradeGroups + pass.tradeGroups
    healedGroups := result.healedGroups + pass.healedGroups }) h
  rw [exec, run_tryCatch]
  rw [exec] at hbind
  rw [hbind]
  rfl

/-- A pass that returns is added to the result. -/
theorem exec_reconcileInto_ok {account : String} {args : ReconcileArgs} {r : SyncResult}
    {s' : InMemoryStore} (result : SyncResult)
    (h : exec (reconcileAccount args account) s = (.ok r, s')) :
    exec (reconcileInto args result account) s =
      (.ok { result with
        transactions := result.transactions + r.transactions
        tradeGroups := result.tradeGroups + r.tradeGroups
        healedGroups := result.healedGroups + r.healedGroups }, s') := by
  unfold reconcileInto
  have hbind : exec (do
      let pass ← reconcileAccount args account
      pure { result with
        transactions := result.transactions + pass.transactions
        tradeGroups := result.tradeGroups + pass.tradeGroups
        healedGroups := result.healedGroups + pass.healedGroups }) s = (.ok { result with
        transactions := result.transactions + r.transactions
        tradeGroups := result.tradeGroups + r.tradeGroups
        healedGroups := result.healedGroups + r.healedGroups }, s') := by
    rw [exec_bind h, exec_pure]
  rw [exec, run_tryCatch]
  rw [exec] at hbind
  rw [hbind]

/-- A pass over one account that raises is recorded in the result. -/
theorem exec_reconcile_error {account : String} {args : ReconcileArgs} {e : String}
    (h : lapseSettlements (linked s account) account args = .error e) :
    exec (reconcile (some account) args) s =
      (.ok { errors := [account ++ ": " ++ e] }, linked s account) := by
  have hinto := exec_reconcileInto_error s {} (exec_reconcileAccount_error s h)
  unfold reconcile accountsOf
  rw [exec_bind (exec_pure s [account])]
  simp only [List.foldlM_cons, List.foldlM_nil]
  rw [exec_bind hinto]
  rfl

/-- A pass over one account that returns is the result. -/
theorem exec_reconcile_ok {account : String} {args : ReconcileArgs} {s' : InMemoryStore}
    {r : SyncResult} (hr : r.errors = []) (hp : r.positions = 0)
    (h : exec (reconcileAccount args account) s = (.ok r, s')) :
    exec (reconcile (some account) args) s = (.ok r, s') := by
  have hinto := exec_reconcileInto_ok s {} h
  unfold reconcile accountsOf
  rw [exec_bind (exec_pure s [account])]
  simp only [List.foldlM_cons, List.foldlM_nil]
  rw [exec_bind hinto, exec_pure]
  cases r
  simp_all

end TtLedger
