import TtLedger.Ingest.Lapse

/-!
# The reconcile pass

`reconcile` links transactions to orders and orders to groups, synthesizes lapse settlements,
routes every candidate transaction of the account (`reconcileCluster`, one cluster after the
other), links rolls across clusters and heals groups whose content is already closed. A failure
of one account is recorded and does not stop the others; the counts its pass had reached are not
part of the model.
-/

namespace TtLedger

open LedgerStore

/-! ## Rolls and deliveries -/

/-- A product root: slashes stripped, trimmed, in upper case. -/
def normUnderlying (value : Option String) : Option (List Char) :=
  let root := Text.upper (Text.strip (Text.lstrip (· = '/') (value.getD "").toList))
  if root.isEmpty then none else some root

def rootsRelate (a b : Option (List Char)) : Bool :=
  match a, b with
  | some a, some b => Text.startsWith a b || Text.startsWith b a
  | _, _ => false

/-- The security of a row, when it names one. -/
def securityOf (r : TxnRow) : LedgerProg (Option SecurityRow) :=
  if truthy r.securityId then getSecurity r.sid else pure none

/-- The underlying the securities dimension gives a row. -/
def secUnderlying (r : TxnRow) : LedgerProg (Option String) := do
  let sec ← securityOf r
  pure (sec.bind SecurityRow.underlying)

/-- Whether one delivered row holds the underlying of an assigned contract. -/
def isDelivered (secUnders : List String) (txnUnders : List (List Char)) (r : TxnRow) :
    LedgerProg Bool := do
  let delivered ← securityOf r
  let bySecurity := !secUnders.isEmpty && delivered.any fun sec =>
    sec.underlying.any (secUnders.contains ·) || secUnders.contains sec.securityId
  let root := normUnderlying r.underlying <|> normUnderlying (delivered.bind SecurityRow.underlying)
  pure (bySecurity || txnUnders.any fun a => rootsRelate root (some a))

/-- An assignment or exercise in `closeRows` delivered a position now in `restRows`. -/
def deliversUnderlying (closeRows restRows : List TxnRow) : LedgerProg Bool := do
  let assigned := closeRows.filter fun r => r.isNontradeClose &&
    (rdEventBySubtype r.transactionSubType = some .assignment ||
      rdEventBySubtype r.transactionSubType = some .exercise)
  let deliveries := restRows.filter TxnRow.isDelivery
  if assigned.isEmpty || deliveries.isEmpty then pure false
  else
    let secUnders ← assigned.mapM secUnderlying
    let secUnders := (secUnders.filter truthy).reduceOption
    let txnUnders := assigned.filterMap fun r => normUnderlying r.underlying
    deliveries.foldlM (fun (found : Bool) r =>
      if found then pure true else isDelivered secUnders txnUnders r) false

/-- The two lists of rows name a common underlying. -/
def sameUnderlying (closeRows openRows : List TxnRow) : Bool :=
  (closeRows.filter fun r => truthy r.underlying).any fun a =>
    openRows.any fun b => b.underlying = a.underlying

def maxQuantity (rows : List TxnRow) : ℚ := (maxQuantity? rows).getD 0

/-- The option type of a row's security. -/
def rowOptionType (r : TxnRow) : LedgerProg (Option String) :=
  match r.securityId with
  | none => pure none
  | some sid => do
    let sec ← getSecurity sid
    pure (sec.bind SecurityRow.optionType)

/-- The rows are of the same option types; rows that are no options match anything. -/
def sameOptionTypes (aRows bRows : List TxnRow) : LedgerProg Bool := do
  let aTypes ← aRows.mapM rowOptionType
  let bTypes ← bRows.mapM rowOptionType
  let a := aTypes.reduceOption
  let b := bTypes.reduceOption
  pure (a.isEmpty || b.isEmpty || a.all (b.contains ·) && b.all (a.contains ·))

/-- A group created in this pass. -/
structure CreatedGroup where
  pk : ℕ
  rows : List TxnRow

/-- Whether an exit and a created group are a roll legged in as two orders: the instant the group
opened. -/
def rollsInto (closedAt : Datetime) (rows : List TxnRow) (cg : CreatedGroup) :
    LedgerProg (Option Datetime) :=
  match firstExecutedAt cg.rows with
  | none => pure none
  | some openedAt =>
    if 0 ≤ openedAt - closedAt ∧ openedAt - closedAt ≤ rollTolerance ∧
        sameUnderlying rows cg.rows ∧ maxQuantity rows = maxQuantity cg.rows then do
      let types ← sameOptionTypes rows cg.rows
      pure (if types then some openedAt else none)
    else pure none

/-- Record one roll for an exit: into the first created group that matches. -/
def linkRoll (ex : AppliedExit) (closedAt : Datetime) : List CreatedGroup → LedgerProg Unit
  | [] => pure ()
  | cg :: created => do
    match ← rollsInto closedAt ex.rows cg with
    | some openedAt =>
      addTradeGroupEvent
        { tradeGroupId := ex.group.pk, eventType := .roll, eventAt := some openedAt,
          rolledToGroupId := some cg.pk }
    | none => linkRoll ex closedAt created

/-- Link exits and created groups of different clusters that are rolls. -/
def linkCrossClusterRolls (exits : List AppliedExit) (created : List CreatedGroup) :
    LedgerProg Unit :=
  exits.forM fun ex =>
    match ex.closedAt with
    | some closedAt => if ex.rolled then pure () else linkRoll ex closedAt created
    | none => pure ()

/-! ## Healing -/

/-- Stamp a fully closed open group and record the repair. -/
def healGroup (group : OpenGroup) : LedgerProg Unit := do
  match ← getTradeGroupById group.pk with
  | none => pure ()
  | some tg =>
    let closedAt := lastExecutedAt group.rows
    let realized ← groupRealized group.rows
    let _ ← upsertTradeGroup (stamp tg group.rows closedAt realized)
    addTradeGroupEvent
      { tradeGroupId := group.pk, eventType := .adjustment, eventAt := closedAt,
        notes := some "self-heal: content fully closed but status was open" }

/-- Flip the status of open groups whose content is fully closed; the number of them. -/
def healFullyClosedGroups (account : String) (dryRun : Bool) : LedgerProg ℕ := do
  let groups ← loadOpenGroups account
  let closed := groups.filter fun g => fullyClosed g.rows
  if dryRun then pure closed.length
  else
    closed.forM healGroup
    pure closed.length

/-! ## The pass over one account -/

/-- A transaction to be routed: without a group, and linked to an order, a settlement or a
delivery. -/
def isCandidate (a : ActivityRow) : Bool :=
  a.tradeGroupId.isNone && (a.orderId.isSome || a.isNontradeClose || a.isDelivery)

/-- What a pass carries from cluster to cluster. -/
structure Pass where
  openGroups : List OpenGroup
  exits : List AppliedExit := []
  created : List CreatedGroup := []
  /-- The groups counted as created. -/
  tradeGroups : ℕ := 0

/-- Open a group for the rows left over: its key, and the pass with it. -/
def openRest (account : String) (dryRun : Bool) (pass : Pass) (rest : List TxnRow) :
    LedgerProg (Option ℕ × Pass) := do
  if rest.isEmpty then pure (none, pass)
  else if dryRun then pure (none, { pass with tradeGroups := pass.tradeGroups + 1 })
  else
    let newPk ← createTradeGroup account rest
    pure (some newPk,
      { pass with
        openGroups := pass.openGroups ++ [⟨newPk, rest⟩]
        created := pass.created ++ [⟨newPk, rest⟩]
        tradeGroups := pass.tradeGroups + 1 })

/-- The new group as the continuation of an assignment or exercise it was delivered by. -/
def deliveryPk (newPk : Option ℕ) (rows rest : List TxnRow) : LedgerProg (Option ℕ) :=
  match newPk with
  | none => pure none
  | some newPk => do
    let delivers ← deliversUnderlying rows rest
    pure (if delivers then some newPk else none)

/-- Apply one bucket of closing rows; `newPk` is the group opened for the rest of the cluster. -/
def applyBucket (newPk : Option ℕ) (rest : List TxnRow) (pass : Pass)
    (bucket : OpenGroup × List ActivityRow) : LedgerProg Pass := do
  let rows := bucket.2.map ActivityRow.toTxnRow
  let rolledTo := if sameUnderlying rows rest then newPk else none
  let delivery ← deliveryPk newPk rows rest
  let applied ← applyExit bucket.1 rows rolledTo delivery
  pure { pass with
    openGroups :=
      if applied.fullyClosed then removeGroup pass.openGroups bucket.1.pk
      else replaceGroup pass.openGroups applied.group
    exits := pass.exits ++ [applied] }

/-- Route one cluster: pre-attributed rows first, then closes to the groups they offset and the
rest into a new group. -/
def reconcileCluster (account : String) (dryRun : Bool) (pass : Pass)
    (cluster : List ActivityRow) : LedgerProg Pass := do
  let (openGroups, cluster) ← applyIntentRows pass.openGroups cluster dryRun
  let pass := { pass with openGroups }
  if cluster.isEmpty then pure pass
  else
    let routing := routeCluster openGroups cluster
    let rest := routing.rest.map ActivityRow.toTxnRow
    let (newPk, pass) ← openRest account dryRun pass rest
    if dryRun then pure pass
    else routing.buckets.foldlM (applyBucket newPk rest) pass

/-- The link steps at the start of a pass. -/
def linkAccount (account : String) : LedgerProg Unit := do
  let _ ← linkTransactionsToOrders account
  let _ ← linkOrdersToGroups account
  let _ ← linkClosedPositionsToGroups account

/-- Route the candidates of an account: the number of groups created. -/
def routeCandidates (account : String) (args : ReconcileArgs) : LedgerProg ℕ := do
  let activity ← accountActivity { account := some account, start := args.since }
  let candidates := activity.filter isCandidate
  let openGroups ← loadOpenGroups account
  let pass ← (clusterByTime candidates).foldlM (reconcileCluster account args.dryRun) { openGroups }
  if !args.dryRun then linkCrossClusterRolls pass.exits pass.created
  pure pass.tradeGroups

/-- The pass over one account; it raises when one of its steps does. -/
def reconcileAccount (args : ReconcileArgs) (account : String) : LedgerProg SyncResult := do
  linkAccount account
  let synthesized ← synthesizeLapsedSettlements account args
  let tradeGroups ← routeCandidates account args
  let healed ← healFullyClosedGroups account args.dryRun
  pure { transactions := synthesized.length, tradeGroups, healedGroups := healed }

/-- Add the pass over one account to the result; a failure is recorded. -/
def reconcileInto (args : ReconcileArgs) (result : SyncResult) (account : String) :
    LedgerProg SyncResult :=
  Prog.tryCatch
    (do
      let pass ← reconcileAccount args account
      pure { result with
        transactions := result.transactions + pass.transactions
        tradeGroups := result.tradeGroups + pass.tradeGroups
        healedGroups := result.healedGroups + pass.healedGroups })
    fun e => pure { result with errors := result.errors ++ [account ++ ": " ++ e] }

/-- The accounts with activity, sorted. -/
def accountsWithActivity (since : Option Date) : LedgerProg (List String) := do
  let activity ← accountActivity { start := since }
  pure (sortOn id (activity.map fun a => a.account).eraseDups)

/-- The accounts a pass runs over: the one given, or every account with activity. -/
def accountsOf (account : Option String) (since : Option Date) : LedgerProg (List String) :=
  match account with
  | some account => pure [account]
  | none => accountsWithActivity since

/-- Reconcile one account, or every account with activity. -/
def reconcile (account : Option String) (args : ReconcileArgs) : LedgerProg SyncResult := do
  let accounts ← accountsOf account args.since
  accounts.foldlM (reconcileInto args) {}

end TtLedger
