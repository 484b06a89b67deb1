import TtLedger.Ingest.Runs
import TtLedger.Ingest.StrategyLaws
import TtLedger.Foundations.Extremes
import TtLedger.Foundations.Relational

/-!
# The columns of a group do not depend on the order of its rows

Position rows with distinct times are walked in the same order from every listing of the rows, so
the peaks are the same; the distinct securities, the quantities, the sums and the first time are
those of the rows as a set; and a label does not depend on the order of the legs. So the columns
derived from a group's rows are the same for every order of the rows, except the underlying, which
is read off the first row that names one (`computeGroupFields_of_perm`).
-/

namespace TtLedger

/-- The position rows have distinct times. -/
def DistinctTimes (rows : List TxnRow) : Prop :=
  (rows.filter TxnRow.isPosition).Pairwise fun a b => a.executedAt ≠ b.executedAt

/-- The derived columns agree, up to the underlying. -/
structure SameFields (fields fields' : GroupFields) : Prop where
  securityId : fields.securityId = fields'.securityId
  strategyType : fields.strategyType = fields'.strategyType
  legCount : fields.legCount = fields'.legCount
  totalPremium : fields.totalPremium = fields'.totalPremium
  totalFees : fields.totalFees = fields'.totalFees
  quantity : fields.quantity = fields'.quantity
  executedAt : fields.executedAt = fields'.executedAt

section Order

variable {rows rows' : List TxnRow}

theorem orderedPositionRows_of_perm (hp : rows.Perm rows') (hd : DistinctTimes rows) :
    orderedPositionRows rows = orderedPositionRows rows' := by
  have hkeys : ((rows'.filter TxnRow.isPosition).map fun r => timeKey r.executedAt).Nodup :=
    (((hp.filter _).map _).nodup_iff).mp (List.pairwise_map.mpr hd)
  exact sortOn_eq_of_perm _ ((hp.filter _).trans (perm_sortOn _ _).symm)
    (pairwise_lt_sortOn _ hkeys)

theorem peakExposures_of_perm (hp : rows.Perm rows') (hd : DistinctTimes rows) :
    peakExposures rows = peakExposures rows' := by
  rw [peakExposures, orderedPositionRows_of_perm hp hd, peakExposures]

theorem maxQuantity?_of_perm (hp : rows.Perm rows') : maxQuantity? rows = maxQuantity? rows' :=
  max?_of_perm ((hp.filter _).map _)

theorem distinctSecurityIds_of_perm (hp : rows.Perm rows') :
    (distinctSecurityIds rows).Perm (distinctSecurityIds rows') :=
  eraseDups_perm fun _ => ((hp.filter _).map _).mem_iff

theorem legInfo_of_perm (hp : rows.Perm rows') (hd : DistinctTimes rows) :
    legInfo rows = legInfo rows' := by
  funext sid sec
  unfold legInfo
  rw [peakExposures_of_perm hp hd, maxQuantity?_of_perm (hp.filter _)]

theorem legsOf_of_perm (hp : rows.Perm rows') (hd : DistinctTimes rows)
    (sec : String → Option SecurityRow) : (legsOf sec rows).Perm (legsOf sec rows') := by
  unfold legsOf
  rw [legInfo_of_perm hp hd]
  exact (distinctSecurityIds_of_perm hp).filterMap _

/-- The one security of a list that has just one. -/
theorem single_of_perm {sids sids' : List String} (hp : sids.Perm sids') (sid : String) :
    sids = [sid] ↔ sids' = [sid] :=
  ⟨fun h => List.perm_singleton.mp (h ▸ hp.symm), fun h => List.perm_singleton.mp (h ▸ hp)⟩

theorem securityId_groupFieldsOf (legs : List LegInfo) (sid : String) :
    (groupFieldsOf rows legs).securityId = some sid ↔ distinctSecurityIds rows = [sid] := by
  unfold groupFieldsOf
  simp only []
  split
  · rename_i h
    simp [h]
  · rename_i h
    simp only [reduceCtorEq, false_iff]
    exact fun hs => h sid hs

theorem sameFields_groupFieldsOf (hp : rows.Perm rows') (hd : DistinctTimes rows)
    {legs legs' : List LegInfo} (hlegs : legs.Perm legs') :
    SameFields (groupFieldsOf rows legs) (groupFieldsOf rows' legs') where
  securityId := by
    refine Option.ext fun sid => ?_
    rw [securityId_groupFieldsOf, securityId_groupFieldsOf,
      single_of_perm (distinctSecurityIds_of_perm hp)]
  strategyType := by
    simp only [groupFieldsOf, detectStrategyType_of_perm hlegs]
  legCount := by
    simp only [groupFieldsOf, (distinctSecurityIds_of_perm hp).length_eq]
  totalPremium := ((hp.filter _).map _).sum_eq
  totalFees := (hp.map _).sum_eq
  quantity := by
    simp only [groupFieldsOf, peakExposures_of_perm hp hd, maxQuantity?_of_perm hp]
  executedAt := min?_of_perm (hp.filterMap _)

/-- **Group fields do not depend on row order.** For every list of member rows whose position rows
have pairwise distinct times, and every permutation of it, the derived columns are the same, up to
the underlying; and a label does not depend on the order of the legs. -/
theorem computeGroupFields_of_perm (s : InMemoryStore) (hp : rows.Perm rows')
    (hd : DistinctTimes rows) :
    (∀ legs legs' : List LegInfo, legs.Perm legs' →
      detectStrategyType legs = detectStrategyType legs') ∧
    ∃ fields fields', exec (computeGroupFields rows) s = (.ok fields, s) ∧
      exec (computeGroupFields rows') s = (.ok fields', s) ∧ SameFields fields fields' :=
  ⟨fun _ _ => detectStrategyType_of_perm, _, _, exec_computeGroupFields s rows,
    exec_computeGroupFields s rows',
    sameFields_groupFieldsOf hp hd (legsOf_of_perm hp hd s.getSecurity)⟩

end Order

/-! ## A condor, leg by leg -/

namespace Condor

/-- An option of the condor. -/
def option (securityId optionType : String) (strike : ℚ) : SecurityRow where
  securityId
  productType := "OS"
  underlying := some "X"
  expiry := some 0
  strike := some strike
  optionType := some optionType

def ledger : InMemoryStore :=
  .seeded [option "P90" "P" 90, option "P95" "P" 95, option "C105" "C" 105, option "C110" "C" 110]
    [] []

/-- Its legs, opened one after the other, and half of one closed again. -/
def rows : List TxnRow :=
  [.fill "A" "1" "O1" "Buy to Open" "P90" 2 0, .fill "A" "2" "O1" "Sell to Open" "P95" 2 1,
    .fill "A" "3" "O1" "Sell to Open" "C105" 2 2, .fill "A" "4" "O1" "Buy to Open" "C110" 2 3,
    .fill "A" "5" "O2" "Buy to Close" "C105" 1 4]

/-- The columns are the same from the rows newest first, and the label is that of a condor. -/
theorem computeGroupFields_newestFirst :
    (∀ legs legs' : List LegInfo, legs.Perm legs' →
      detectStrategyType legs = detectStrategyType legs') ∧
    ∃ fields fields', exec (computeGroupFields rows) ledger = (.ok fields, ledger) ∧
      exec (computeGroupFields rows.reverse) ledger = (.ok fields', ledger) ∧
      SameFields fields fields' ∧ fields.strategyType = "iron_condor" := by
  have hdistinct : DistinctTimes rows := by
    unfold DistinctTimes
    decide +kernel
  obtain ⟨hlegs, fields, fields', h, h', hsame⟩ :=
    computeGroupFields_of_perm ledger (List.reverse_perm rows).symm hdistinct
  have hlabel : (exec (computeGroupFields rows) ledger).1.toOption.map GroupFields.strategyType =
      some "iron_condor" := by decide +kernel
  rw [h] at hlabel
  exact ⟨hlegs, fields, fields', h, h', hsame, Option.some.inj hlabel⟩

end Condor

end TtLedger
