import TtLedger.Ingest.HealLaws

/-!
# Stuck groups

The two detectors of `ingest/reconcile.py`. `findMisattributedOpenGroups` reports the open groups
with a net that the account does not hold, `findOrphanSettlementGroups` those whose members are
unmatched closes; both name the groups a merge with which closes the two (`coveredBy`).
-/

namespace TtLedger

open LedgerStore

/-- A group that a detector reports. -/
structure StuckGroup where
  groupPk : ℕ
  groupId : Option String
  securities : List String
  coveredBy : List ℕ
  deriving DecidableEq

/-- The rows of an account by the group they are in. -/
def rowsByGroup (rows : List TxnRow) : Dict ℕ (List TxnRow) := groupBy TxnRow.tradeGroupId rows

/-! ## Groups that close more than they held -/

/-- The quantity that the rows of a group close, or may close, in each security. -/
def closedQuantities (rows : List TxnRow) : Dict String ℚ :=
  Dict.accumulate (fun r : TxnRow => some r.sid) (fun quantity r => quantity + r.absQuantity) 0
    ((orderedPositionRows rows).filter fun r => r.isClosing || isBareAction r.action)

/-- The securities in which the rows close more than the group ever held. -/
def overClosedSecurities (rows : List TxnRow) : List String :=
  ((closedQuantities rows).entries.filter fun e =>
    ((peakExposures rows).get? e.1).getD 0 < e.2).map Prod.fst

/-- The groups that close more than they held, by security. -/
def overClosingGroups (byGroup : Dict ℕ (List TxnRow)) : Dict String (List ℕ) :=
  Dict.accumulate (fun p : String × ℕ => some p.1) (fun pks p => pks ++ [p.2]) []
    (byGroup.entries.flatMap fun e => (overClosedSecurities e.2).map fun sid => (sid, e.1))

/-! ## What a detector finds in a group -/

/-- The securities in which a group has a net. -/
def openSecurities (rows : List TxnRow) : List String :=
  ((netQuantities rows).entries.filter fun e => e.2 ≠ 0).map Prod.fst

/-- The securities and the covering groups of a group whose every net the account does not hold. -/
def misattributed (accountNets : Dict String ℚ) (byGroup : Dict ℕ (List TxnRow))
    (group : OpenGroup) : Option (List String × List ℕ) :=
  let overClosers := overClosingGroups byGroup
  let groupNets := openSecurities group.rows
  if !groupNets.isEmpty && groupNets.all fun sid => (accountNets.get? sid).getD 0 = 0 then
    let candidates := ((groupNets.flatMap fun sid => (overClosers.get? sid).getD []).filter
      fun pk => pk ≠ group.pk).eraseDups
    some (sortOn id groupNets,
      sortOn id (candidates.filter fun pk =>
        fullyClosed (group.rows ++ (byGroup.get? pk).getD [])))
  else none

/-- The securities and the covering groups of a group of unmatched closes. -/
def orphanSettlement (byGroup : Dict ℕ (List TxnRow)) (group : OpenGroup) :
    Option (List String × List ℕ) :=
  let positionRows := orderedPositionRows group.rows
  if positionRows.isEmpty || !positionRows.all TxnRow.isClosing then none
  else if !(netQuantities group.rows).entries.isEmpty then none
  else
    let securities := sortOn id (positionRows.map TxnRow.sid).eraseDups
    let covers := fun e : ℕ × List TxnRow =>
      e.1 ≠ group.pk &&
        (securities.any fun sid => ((netQuantities e.2).get? sid).getD 0 ≠ 0) &&
        fullyClosed (e.2 ++ group.rows)
    some (securities, sortOn id ((byGroup.entries.filter covers).map Prod.fst))

/-! ## The detectors -/

/-- Add a group to the report when the detector finds it stuck. -/
def reportGroup (detect : OpenGroup → Option (List String × List ℕ)) (found : List StuckGroup)
    (group : OpenGroup) : LedgerProg (List StuckGroup) :=
  match detect group with
  | none => pure found
  | some (securities, coveredBy) => do
    let tg ← getTradeGroupById group.pk
    pure (found ++ [⟨group.pk, tg.map TradeGroupRow.groupId, securities, coveredBy⟩])

/-- Open groups whose every open net is zero account-wide: the close is in another group. -/
def findMisattributedOpenGroups (account : String) : LedgerProg (List StuckGroup) := do
  let activity ← accountActivity { account := some account }
  let rows := activity.map ActivityRow.toTxnRow
  let groups ← loadOpenGroups account
  let found ← groups.foldlM
    (reportGroup (misattributed (netOpenQuantities rows) (rowsByGroup rows))) []
  pure (sortOn StuckGroup.groupPk found)

/-- Open groups whose entire membership is unmatched closes. -/
def findOrphanSettlementGroups (account : String) : LedgerProg (List StuckGroup) := do
  let activity ← accountActivity { account := some account }
  let groups ← loadOpenGroups account
  let found ← groups.foldlM
    (reportGroup (orphanSettlement (rowsByGroup (activity.map ActivityRow.toTxnRow)))) []
  pure (sortOn StuckGroup.groupPk found)

/-! ## What the detectors report -/

section Runs

variable (s : InMemoryStore) (account : String)

/-- The rows of an account, as the detectors read them. -/
def InMemoryStore.accountBook : List TxnRow :=
  (s.accountActivity { account := some account }).map ActivityRow.toTxnRow

/-- The report on the open groups of an account. -/
def stuckGroups (detect : OpenGroup → Option (List String × List ℕ)) : List StuckGroup :=
  sortOn StuckGroup.groupPk ((openGroupsOf s account).filterMap fun g =>
    (detect g).map fun e => ⟨g.pk, (s.getTradeGroupById g.pk).map TradeGroupRow.groupId, e.1, e.2⟩)

theorem exec_reportGroups (detect : OpenGroup → Option (List String × List ℕ))
    (groups : List OpenGroup) (found : List StuckGroup) :
    exec (groups.foldlM (reportGroup detect) found) s =
      (.ok (found ++ groups.filterMap fun g => (detect g).map fun e =>
        ⟨g.pk, (s.getTradeGroupById g.pk).map TradeGroupRow.groupId, e.1, e.2⟩), s) := by
  induction groups generalizing found with
  | nil => simp
  | cons g groups ih =>
    have hone : exec (reportGroup detect found g) s =
        (.ok (found ++ ((detect g).map fun e =>
          (⟨g.pk, (s.getTradeGroupById g.pk).map TradeGroupRow.groupId, e.1, e.2⟩ :
            StuckGroup)).toList), s) := by
      unfold reportGroup
      cases detect g with
      | none => simp
      | some e =>
        simp only []
        rw [exec_bind (exec_getTradeGroupById s _)]
        rfl
    rw [List.foldlM_cons, exec_bind hone, ih]
    cases hd : detect g <;> simp [hd]

theorem exec_findMisattributedOpenGroups :
    exec (findMisattributedOpenGroups account) s =
      (.ok (stuckGroups s account (misattributed (netOpenQuantities (s.accountBook account))
        (rowsByGroup (s.accountBook account)))), s) := by
  unfold findMisattributedOpenGroups
  rw [exec_bind (exec_accountActivity s _), exec_bind (exec_loadOpenGroups s account),
    exec_bind (exec_reportGroups s _ _ _)]
  rfl

theorem exec_findOrphanSettlementGroups :
    exec (findOrphanSettlementGroups account) s =
      (.ok (stuckGroups s account (orphanSettlement (rowsByGroup (s.accountBook account)))),
        s) := by
  unfold findOrphanSettlementGroups
  rw [exec_bind (exec_accountActivity s _), exec_bind (exec_loadOpenGroups s account),
    exec_bind (exec_reportGroups s _ _ _)]
  rfl

variable {s account}

theorem mem_stuckGroups {detect : OpenGroup → Option (List String × List ℕ)} {e : StuckGroup} :
    e ∈ stuckGroups s account detect ↔
      ∃ g ∈ openGroupsOf s account, ∃ found, detect g = some found ∧
        e = ⟨g.pk, (s.getTradeGroupById g.pk).map TradeGroupRow.groupId, found.1, found.2⟩ := by
  rw [stuckGroups, mem_sortOn, List.mem_filterMap]
  refine exists_congr fun g => and_congr_right fun _ => ?_
  rw [Option.map_eq_some_iff]
  exact exists_congr fun found => and_congr_right fun _ => eq_comm

end Runs

end TtLedger
