import TtLedger.Ingest.Strategy
import TtLedger.Ingest.NetLaws

/-!
# Laws of the strategy classifier

Two or more legs are classified by their option legs and their other legs
(`detectStrategyType_of_two_le`), the option legs by their number (`classifyOptionLegs`). Each of
the classifiers asks only whether values agree, how many distinct ones there are and how often one
occurs, so a label does not depend on the order of the legs (`detectStrategyType_of_perm`).
-/

namespace TtLedger

/-- The label of option legs, when there are no others. -/
def classifyOptionLegs : List LegInfo → StrategyType
  | [a, b] => classifyTwoLeg a b
  | [a, b, c] => classifyThreeLeg [a, b, c]
  | [a, b, c, d] => classifyFourLeg [a, b, c, d]
  | _ => .custom

/-- The label of option legs beside other legs. -/
def classifyMixedLegs (optionLegs otherLegs : List LegInfo) : StrategyType :=
  let types := optionLegs.map LegInfo.optionType
  if otherLegs.length = 1 ∧ optionLegs.length = 2 ∧ same (optionLegs.map LegInfo.expiry) ∧
      types.contains (some "P") ∧ types.contains (some "C") then .collar
  else if otherLegs.length = 1 ∧ optionLegs.length = 1 then .covered
  else .custom

/-- The legs that are options. -/
def optionLegsOf (legs : List LegInfo) : List LegInfo :=
  legs.filter fun leg => isOptionProduct leg.productType

/-- The legs that are not. -/
def otherLegsOf (legs : List LegInfo) : List LegInfo :=
  legs.filter fun leg => !isOptionProduct leg.productType

section Legs

variable {legs legs' : List LegInfo}

/-- How two or more legs are classified. -/
theorem detectStrategyType_of_two_le (h : 2 ≤ legs.length) :
    detectStrategyType legs =
      if !(otherLegsOf legs).isEmpty && !(optionLegsOf legs).isEmpty then
        classifyMixedLegs (optionLegsOf legs) (otherLegsOf legs)
      else if (optionLegsOf legs).isEmpty then
        if legs.all (fun leg => leg.productType = "F") then .futureSpread else .custom
      else classifyOptionLegs (optionLegsOf legs) := by
  match legs, h with
  | a :: b :: legs, _ =>
    unfold detectStrategyType classifyMixedLegs optionLegsOf otherLegsOf
    simp only [List.contains_iff_mem]
    split_ifs
    all_goals try rfl
    -- without other legs the label goes by the number of option legs
    generalize (a :: b :: legs).filter (fun leg => isOptionProduct leg.productType) = options
    match options with
    | [] | [_] | [_, _] | [_, _, _] | [_, _, _, _] | _ :: _ :: _ :: _ :: _ :: _ => rfl

/-- Legs that are all options are classified by their number. -/
theorem detectStrategyType_of_options (h : 2 ≤ legs.length)
    (hoptions : ∀ leg ∈ legs, isOptionProduct leg.productType = true) :
    detectStrategyType legs = classifyOptionLegs legs := by
  have hoption : optionLegsOf legs = legs := List.filter_eq_self.mpr hoptions
  have hother : otherLegsOf legs = [] := List.filter_eq_nil_iff.mpr fun leg hleg => by
    simp [hoptions leg hleg]
  have hne : legs.isEmpty = false := by
    cases legs with
    | nil => simp at h
    | cons a legs => rfl
  rw [detectStrategyType_of_two_le h, hoption, hother, hne]
  rfl

/-! ## The order of the legs -/

theorem same_of_perm {α : Type} [DecidableEq α] {l l' : List α} (h : l.Perm l') :
    same l = same l' := by
  rw [same, same, (eraseDups_perm fun a => h.mem_iff).length_eq]

theorem classifyTwoLeg_comm (a b : LegInfo) : classifyTwoLeg a b = classifyTwoLeg b a := by
  unfold classifyTwoLeg
  simp only [eq_comm (a := b.expiry), eq_comm (a := b.strike), eq_comm (a := b.optionType),
    ne_comm (a := b.quantity)]

theorem classifyThreeLeg_of_perm (h : legs.Perm legs') :
    classifyThreeLeg legs = classifyThreeLeg legs' := by
  rw [classifyThreeLeg, classifyThreeLeg, same_of_perm (h.map _), same_of_perm (h.map _)]

theorem classifyFourLeg_of_perm (h : legs.Perm legs') :
    classifyFourLeg legs = classifyFourLeg legs' := by
  have hstrikes := (eraseDups_perm fun a => (h.map LegInfo.strike).mem_iff (a := a)).length_eq
  rw [lawful_beq_subsingleton instBEqOfDecidableEq Option.instBEq] at hstrikes
  unfold classifyFourLeg
  simp only [same_of_perm (h.map LegInfo.expiry), same_of_perm (h.map LegInfo.optionType),
    (h.map LegInfo.optionType).count_eq, hstrikes]

theorem classifyMixedLegs_of_perm {others others' : List LegInfo} (h : legs.Perm legs')
    (hothers : others.Perm others') :
    classifyMixedLegs legs others = classifyMixedLegs legs' others' := by
  unfold classifyMixedLegs
  simp only [List.contains_iff_mem, h.length_eq, hothers.length_eq,
    same_of_perm (h.map LegInfo.expiry), (h.map LegInfo.optionType).mem_iff]

theorem classifyOptionLegs_of_perm (h : legs.Perm legs') :
    classifyOptionLegs legs = classifyOptionLegs legs' := by
  have hlength := h.length_eq
  match legs, legs' with
  | [], [] => rfl
  | [_], [_] => rfl
  | [a, b], [c, d] =>
    rcases List.mem_pair.mp (h.subset List.mem_cons_self) with rfl | rfl
    · obtain rfl := List.singleton_perm_singleton.mp ((List.perm_cons a).mp h)
      rfl
    · obtain rfl :=
        List.singleton_perm_singleton.mp ((List.perm_cons a).mp (h.trans (.swap a c [])))
      exact classifyTwoLeg_comm _ _
  | [_, _, _], [_, _, _] => exact classifyThreeLeg_of_perm h
  | [_, _, _, _], [_, _, _, _] => exact classifyFourLeg_of_perm h
  | _ :: _ :: _ :: _ :: _ :: _, _ :: _ :: _ :: _ :: _ :: _ => rfl

theorem isEmpty_of_perm {α : Type} {l l' : List α} (h : l.Perm l') : l.isEmpty = l'.isEmpty := by
  rw [Bool.eq_iff_iff, List.isEmpty_iff, List.isEmpty_iff]
  exact ⟨fun hl => List.nil_perm.mp (hl ▸ h), fun hl => List.perm_nil.mp (hl ▸ h)⟩

/-- **A label does not depend on the order of the legs.** -/
theorem detectStrategyType_of_perm (h : legs.Perm legs') :
    detectStrategyType legs = detectStrategyType legs' := by
  rcases Nat.lt_or_ge legs.length 2 with hshort | hlong
  · match legs, hshort with
    | [], _ => rw [List.nil_perm.mp h]
    | [leg], _ => rw [List.singleton_perm.mp h]
  · have hoption : (optionLegsOf legs).Perm (optionLegsOf legs') := h.filter _
    have hother : (otherLegsOf legs).Perm (otherLegsOf legs') := h.filter _
    have hall : legs.all (fun leg => leg.productType = "F") =
        legs'.all (fun leg => leg.productType = "F") := by
      rw [Bool.eq_iff_iff]
      simp only [List.all_eq_true, h.mem_iff]
    rw [detectStrategyType_of_two_le hlong, detectStrategyType_of_two_le (h.length_eq ▸ hlong),
      isEmpty_of_perm hoption, isEmpty_of_perm hother, hall,
      classifyMixedLegs_of_perm hoption hother, classifyOptionLegs_of_perm hoption]

end Legs

end TtLedger
