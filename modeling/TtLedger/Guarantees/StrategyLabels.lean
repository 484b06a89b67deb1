import TtLedger.Ingest.StrategyLaws
import Mathlib.Tactic.Linarith

/-!
# What a strategy label says of the legs

Each label of option legs has a canonical shape (`CanonicalShape`), and legs of no shape are
`custom`. The classifiers check a part of each shape only: the quantities of two legs of which
just one of type and expiry agrees, the widths and the quantities of a butterfly, the quantities
of an iron condor or iron butterfly and whether the latter has a third strike, and the strikes of
a condor are not looked at. A label is sound exactly when these hold anyway
(`canonicalShape_detectStrategyType_iff`).
-/

namespace TtLedger

/-! ## Shapes -/

section Shapes

variable (legs : List LegInfo)

def EqualQuantities : Prop := ∀ a ∈ legs, ∀ b ∈ legs, a.quantity = b.quantity

def OneExpiry : Prop := ∀ a ∈ legs, ∀ b ∈ legs, a.expiry = b.expiry

def OneType : Prop := ∀ a ∈ legs, ∀ b ∈ legs, a.optionType = b.optionType

/-- The number of distinct strikes. -/
def strikeCount : ℕ := (legs.filterMap LegInfo.strike).eraseDups.length

def TwoPutsTwoCalls : Prop :=
  legs.length = 4 ∧ (legs.map LegInfo.optionType).count (some "P") = 2 ∧
    (legs.map LegInfo.optionType).count (some "C") = 2

/-- Two wings at one distance from a body of twice their quantity. -/
def EqualWings : Prop :=
  ∃ lower body upper, legs.Perm [lower, body, upper] ∧
    (∃ k width, 0 < width ∧ lower.strike = some (k - width) ∧ body.strike = some k ∧
      upper.strike = some (k + width)) ∧
    lower.quantity = upper.quantity ∧ body.quantity = 2 * lower.quantity

/-- The canonical shape of a label; option legs have no other label. -/
def CanonicalShape : StrategyType → Prop
  | .straddle | .strangle | .vertical | .calendar | .diagonal =>
    legs.length = 2 ∧ EqualQuantities legs
  | .ratio =>
    legs.length = 2 ∧ OneType legs ∧ OneExpiry legs ∧ ¬EqualQuantities legs ∧
      strikeCount legs = 2
  | .butterfly => OneType legs ∧ OneExpiry legs ∧ EqualWings legs
  | .condor => legs.length = 4 ∧ OneType legs ∧ strikeCount legs = 4
  | .ironCondor =>
    TwoPutsTwoCalls legs ∧ OneExpiry legs ∧ EqualQuantities legs ∧ strikeCount legs = 4
  | .ironButterfly =>
    TwoPutsTwoCalls legs ∧ OneExpiry legs ∧ EqualQuantities legs ∧ strikeCount legs = 3
  | .custom => True
  | .single | .covered | .collar | .future | .futureSpread => False

/-- What the classifiers leave to the legs. -/
structure LeftToTheLegs : Prop where
  two : legs.length = 2 →
    EqualQuantities legs ∨ (OneExpiry legs ∧ OneType legs ∧ strikeCount legs = 2) ∨
      (¬OneExpiry legs ∧ ¬OneType legs)
  three : legs.length = 3 → OneExpiry legs → OneType legs → EqualWings legs
  ironLegs : OneExpiry legs → TwoPutsTwoCalls legs →
    EqualQuantities legs ∧ (∀ leg ∈ legs, leg.strike ≠ none) ∧ 3 ≤ strikeCount legs
  four : legs.length = 4 → OneExpiry legs → OneType legs → strikeCount legs = 4

end Shapes

/-! ## Distinct values -/

section Values

variable {α : Type} [DecidableEq α]

theorem same_iff {l : List α} : same l = true ↔ l ≠ [] ∧ ∀ a ∈ l, ∀ b ∈ l, a = b := by
  rw [same, decide_eq_true_iff, List.length_eq_one_iff]
  constructor
  · rintro ⟨c, hc⟩
    have hmem : ∀ a ∈ l, a = c := fun a ha =>
      List.mem_singleton.mp (hc ▸ List.mem_eraseDups.mpr ha)
    refine ⟨?_, fun a ha b hb => (hmem a ha).trans (hmem b hb).symm⟩
    rintro rfl
    cases hc
  · rintro ⟨hne, hall⟩
    obtain ⟨c, hc⟩ := List.exists_mem_of_ne_nil l hne
    have hperm : l.eraseDups.Perm [c] := by
      refine (List.perm_ext_iff_of_nodup (nodup_eraseDups l) (List.nodup_singleton c)).mpr ?_
      intro a
      rw [List.mem_eraseDups, List.mem_singleton]
      exact ⟨fun ha => hall a ha c hc, fun h => h ▸ hc⟩
    exact ⟨c, List.perm_singleton.mp hperm⟩

/-- The distinct values of a column are those that are there, and none. -/
theorem length_eraseDups_option (l : List (Option α)) :
    l.eraseDups.length = (l.filterMap id).eraseDups.length + if none ∈ l then 1 else 0 := by
  have hsome : ((l.filterMap id).eraseDups.map some).Nodup :=
    (nodup_eraseDups _).map (Option.some_injective α)
  have hnodup : l.eraseDups.Nodup := by
    rw [lawful_beq_subsingleton (@Option.instBEq α _) instBEqOfDecidableEq]
    exact nodup_eraseDups l
  split_ifs with hnone
  · have hperm : l.eraseDups.Perm (none :: (l.filterMap id).eraseDups.map some) := by
      refine (List.perm_ext_iff_of_nodup hnodup
        (List.nodup_cons.mpr ⟨by simp, hsome⟩)).mpr fun x => ?_
      cases x <;> simp [List.mem_eraseDups, hnone]
    rw [hperm.length_eq, List.length_cons, List.length_map]
  · have hperm : l.eraseDups.Perm ((l.filterMap id).eraseDups.map some) := by
      refine (List.perm_ext_iff_of_nodup hnodup hsome).mpr fun x => ?_
      cases x <;> simp [List.mem_eraseDups, hnone]
    rw [hperm.length_eq, List.length_map, add_zero]

end Values

section Legs

variable {legs : List LegInfo}

theorem same_map_iff {β : Type} [DecidableEq β] (f : LegInfo → β) (hne : legs ≠ []) :
    same (legs.map f) = true ↔ ∀ a ∈ legs, ∀ b ∈ legs, f a = f b := by
  rw [same_iff]
  simp [hne]

theorem ne_nil_of_length {n : ℕ} (h : legs.length = n + 1) : legs ≠ [] := by
  rintro rfl
  cases h

/-- The distinct strikes, counting a missing one. -/
theorem length_eraseDups_strikes (legs : List LegInfo) :
    (legs.map LegInfo.strike).eraseDups.length =
      strikeCount legs + if none ∈ legs.map LegInfo.strike then 1 else 0 := by
  rw [length_eraseDups_option, List.filterMap_map, strikeCount]
  rfl

theorem strikeCount_le (legs : List LegInfo) : strikeCount legs ≤ legs.length := by
  have hsub : (legs.filterMap LegInfo.strike).eraseDups ⊆ legs.filterMap LegInfo.strike :=
    fun k hk => List.mem_eraseDups.mp hk
  exact (List.subperm_of_subset (nodup_eraseDups _) hsub).length_le.trans
    (List.length_filterMap_le _ _)

/-! ## Each number of legs -/

theorem forall_mem_pair {a b : LegInfo} {β : Type} {f : LegInfo → β} :
    (∀ x ∈ [a, b], ∀ y ∈ [a, b], f x = f y) ↔ f a = f b := by
  simp only [List.mem_cons, List.not_mem_nil, or_false, forall_eq_or_imp, forall_eq, true_and,
    and_true]
  exact ⟨And.left, fun h => ⟨h, h.symm⟩⟩

theorem shape_two_iff (a b : LegInfo) :
    CanonicalShape [a, b] (classifyTwoLeg a b) ↔ LeftToTheLegs [a, b] := by
  have hq : EqualQuantities [a, b] ↔ a.quantity = b.quantity := forall_mem_pair
  have he : OneExpiry [a, b] ↔ a.expiry = b.expiry := forall_mem_pair
  have ht : OneType [a, b] ↔ a.optionType = b.optionType := forall_mem_pair
  have hleft : LeftToTheLegs [a, b] ↔ a.quantity = b.quantity ∨
      (a.expiry = b.expiry ∧ a.optionType = b.optionType ∧ strikeCount [a, b] = 2) ∨
        (¬a.expiry = b.expiry ∧ ¬a.optionType = b.optionType) := by
    rw [← hq, ← he, ← ht]
    exact ⟨fun h => h.two rfl, fun h => ⟨fun _ => h, fun h => by simp at h,
      fun _ h => by simp [TwoPutsTwoCalls] at h, fun h => by simp at h⟩⟩
  rw [hleft]
  unfold classifyTwoLeg
  by_cases hexp : a.expiry = b.expiry <;> by_cases htype : a.optionType = b.optionType <;>
    by_cases hqty : a.quantity = b.quantity <;> by_cases hstrike : a.strike = b.strike <;>
    simp [CanonicalShape, hq, he, ht, hexp, htype, hqty, hstrike]

theorem shape_three_iff (h : legs.length = 3) :
    CanonicalShape legs (classifyThreeLeg legs) ↔ LeftToTheLegs legs := by
  have hne := ne_nil_of_length h
  have hleft : LeftToTheLegs legs ↔ (OneExpiry legs → OneType legs → EqualWings legs) :=
    ⟨fun hl => hl.three h, fun hl => ⟨by simp [h], fun _ => hl, by simp [TwoPutsTwoCalls, h],
      by simp [h]⟩⟩
  rw [hleft, classifyThreeLeg]
  by_cases hexp : OneExpiry legs <;> by_cases htype : OneType legs <;>
    simp [(same_map_iff LegInfo.expiry hne).trans (Iff.rfl (a := OneExpiry legs)),
      (same_map_iff LegInfo.optionType hne).trans (Iff.rfl (a := OneType legs)), hexp, htype,
      CanonicalShape]

/-- Puts and calls are not of one type. -/
theorem TwoPutsTwoCalls.not_oneType (h : TwoPutsTwoCalls legs) : ¬OneType legs := by
  intro htype
  have hput : some "P" ∈ legs.map LegInfo.optionType :=
    List.count_pos_iff.mp (by rw [h.2.1]; exact Nat.two_pos)
  have hcall : some "C" ∈ legs.map LegInfo.optionType :=
    List.count_pos_iff.mp (by rw [h.2.2]; exact Nat.two_pos)
  obtain ⟨put, hp, hput⟩ := List.mem_map.mp hput
  obtain ⟨call, hc, hcall⟩ := List.mem_map.mp hcall
  have hsame := htype put hp call hc
  rw [hput, hcall] at hsame
  exact absurd hsame (by decide)

/-- What is left to the legs of an iron condor or iron butterfly. -/
theorem shape_iron_iff (hiron : TwoPutsTwoCalls legs) (hexp : OneExpiry legs) :
    CanonicalShape legs
        (if (legs.map LegInfo.strike).eraseDups.length = 4 then .ironCondor else .ironButterfly) ↔
      EqualQuantities legs ∧ (∀ leg ∈ legs, leg.strike ≠ none) ∧ 3 ≤ strikeCount legs := by
  have hle := strikeCount_le legs
  have hcount := length_eraseDups_strikes legs
  have hmissing : none ∈ legs.map LegInfo.strike ↔ ¬∀ leg ∈ legs, leg.strike ≠ none := by
    simp
  rw [hiron.1] at hle
  by_cases hall : ∀ leg ∈ legs, leg.strike ≠ none
  · rw [if_neg (fun hnone => hmissing.mp hnone hall), add_zero] at hcount
    rw [hcount]
    split_ifs with hfour
    · simp only [CanonicalShape, hiron, hexp, true_and, hfour]
      exact and_congr_right fun _ => by simpa using hall
    · simp only [CanonicalShape, hiron, hexp, true_and]
      refine and_congr_right fun _ => ⟨fun h => ⟨hall, h.ge⟩, fun h => ?_⟩
      omega
  · rw [if_pos (hmissing.mpr hall)] at hcount
    rw [hcount]
    have hfalse : ¬(EqualQuantities legs ∧ (∀ leg ∈ legs, leg.strike ≠ none) ∧
        3 ≤ strikeCount legs) := fun h => hall h.2.1
    rw [iff_false_right hfalse]
    split_ifs with hfour
    · rintro ⟨-, -, -, h⟩
      omega
    · rintro ⟨-, -, -, h⟩
      omega

theorem shape_four_iff (h : legs.length = 4) :
    CanonicalShape legs (classifyFourLeg legs) ↔ LeftToTheLegs legs := by
  have hne := ne_nil_of_length h
  have hexp : same (legs.map LegInfo.expiry) = true ↔ OneExpiry legs := same_map_iff _ hne
  have htype : same (legs.map LegInfo.optionType) = true ↔ OneType legs := same_map_iff _ hne
  have hiron : (legs.map LegInfo.optionType).count (some "P") = 2 ∧
      (legs.map LegInfo.optionType).count (some "C") = 2 ↔ TwoPutsTwoCalls legs :=
    ⟨fun hc => ⟨h, hc⟩, fun hc => hc.2⟩
  have hleft : LeftToTheLegs legs ↔ (OneExpiry legs →
      (TwoPutsTwoCalls legs → EqualQuantities legs ∧ (∀ leg ∈ legs, leg.strike ≠ none) ∧
        3 ≤ strikeCount legs) ∧ (OneType legs → strikeCount legs = 4)) :=
    ⟨fun hl he => ⟨hl.ironLegs he, hl.four h he⟩, fun hl => ⟨by simp [h], by simp [h],
      fun he => (hl he).1, fun _ he => (hl he).2⟩⟩
  rw [hleft]
  unfold classifyFourLeg
  simp only []
  by_cases he : OneExpiry legs
  · rw [if_neg (by simpa using hexp.mpr he)]
    by_cases hi : TwoPutsTwoCalls legs
    · rw [if_pos (hiron.mpr hi), shape_iron_iff hi he]
      simp [he, hi, hi.not_oneType]
    · rw [if_neg (fun hc => hi (hiron.mp hc))]
      by_cases ht : OneType legs
      · rw [if_pos (htype.mpr ht)]
        simp [CanonicalShape, he, hi, ht, h]
      · rw [if_neg (by simpa using fun hs => ht (htype.mp hs))]
        simp [CanonicalShape, hi, ht]
  · rw [if_pos (by simpa using fun hs => he (hexp.mp hs))]
    simp [CanonicalShape, he]

/-- **When strategy labels are sound.** Two or more option legs have the canonical shape of their
label if and only if: two legs that agree in just one of type and expiry have equal quantities, two
that agree in both have equal quantities or different strikes; three legs of one type and expiry
have equal wings; two puts and two calls of one expiry have equal quantities and at least three
strikes; and four legs of one type and expiry have four strikes. -/
theorem canonicalShape_detectStrategyType_iff (h : 2 ≤ legs.length)
    (hoptions : ∀ leg ∈ legs, isOptionProduct leg.productType = true) :
    CanonicalShape legs (detectStrategyType legs) ↔ LeftToTheLegs legs := by
  rw [detectStrategyType_of_options h hoptions]
  match legs, h with
  | [a, b], _ => exact shape_two_iff a b
  | [a, b, c], _ => exact shape_three_iff rfl
  | [a, b, c, d], _ => exact shape_four_iff rfl
  | a :: b :: c :: d :: e :: legs, _ =>
    exact iff_of_true trivial ⟨by simp, by simp, by simp [TwoPutsTwoCalls], by simp⟩

end Legs

/-! ## A broken wing -/

/-- A call of one expiry. -/
private def callLeg (strike quantity : ℚ) : LegInfo :=
  ⟨"OS", some "C", some 20470, some strike, quantity⟩

/-- Wings of 5 and of 15 about a body of twice their quantity. -/
private def brokenWing : List LegInfo := [callLeg 100 1, callLeg 105 2, callLeg 120 1]

theorem canonicalShape_detectStrategyType_iff_brokenWing :
    CanonicalShape brokenWing (detectStrategyType brokenWing) ↔ LeftToTheLegs brokenWing :=
  canonicalShape_detectStrategyType_iff (by decide) (by decide)

theorem not_equalWings_brokenWing : ¬EqualWings brokenWing := by
  rintro ⟨lower, body, upper, hperm, ⟨k, width, -, hlower, hbody, hupper⟩, -⟩
  have hsum := (hperm.filterMap LegInfo.strike).sum_eq
  have hk : k ∈ brokenWing.filterMap LegInfo.strike :=
    List.mem_filterMap.mpr ⟨body, hperm.mem_iff.mpr (by simp), hbody⟩
  have hstrike : k = 100 ∨ k = 105 ∨ k = 120 := by
    simpa [brokenWing, callLeg] using hk
  have hsum' : (k - width) + (k + (k + width)) = 100 + (105 + 120) := by
    simpa [hlower, hbody, hupper, brokenWing, callLeg] using hsum.symm
  rcases hstrike with rfl | rfl | rfl <;> linarith

/-- A broken-wing butterfly is labelled a butterfly. -/
theorem not_canonicalShape_detectStrategyType :
    ¬∀ legs : List LegInfo, 2 ≤ legs.length →
      (∀ leg ∈ legs, isOptionProduct leg.productType = true) → legs.Nodup →
      (∀ leg ∈ legs, 0 < leg.quantity) → CanonicalShape legs (detectStrategyType legs) := by
  intro h
  have hlabel : detectStrategyType brokenWing = .butterfly := by decide +kernel
  have hshape := h brokenWing (by decide) (by decide) (by decide) (by decide)
  rw [hlabel] at hshape
  exact not_equalWings_brokenWing hshape.2.2

end TtLedger
