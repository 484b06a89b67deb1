import TtLedger.Repositories
import TtLedger.Foundations.Extremes
import Mathlib.Algebra.BigOperators.Ring.List
import Mathlib.Tactic.FieldSimp
import Mathlib.Tactic.Linarith
import Mathlib.Tactic.Ring

/-!
# The fill fields of an order

The fields of a multi-leg order are in structure units: `unitsOf` of them, the greatest common
divisor of the legs' quantities. What is filled and what remains add up to the units, the net price
of a filled order is its cash over the units, and nothing depends on the order of the legs, on how
a fill was cut into parts, or on the scale of the quantities (`orderLevelFillFields_consistent`).
-/

namespace TtLedger

/-! ## Legs and units -/

/-- The number of structure units of the legs. -/
def unitsOf (legs : List PlacedLeg) : ℕ := listGcd (legs.map fun leg => leg.quantity.num.toNat)

/-- A leg of a positive whole quantity. -/
structure PlacedLeg.Whole (leg : PlacedLeg) : Prop where
  pos : 0 < leg.quantity
  integral : leg.quantity.den = 1

/-- A sell leg counts as income, a buy leg as cost. -/
def PlacedLeg.side (leg : PlacedLeg) : ℚ :=
  if Text.startsWith (Text.lower leg.action.toList) "sell".toList then 1 else -1

/-- What the fills of a leg were worth. -/
def PlacedLeg.worth (leg : PlacedLeg) : ℚ := (leg.fills.map fun f => f.quantity * f.fillPrice).sum

/-- A debit order is priced on the axis of its cost. -/
def effectSign (priceEffect : Option String) : ℚ := if priceEffect = some "Debit" then -1 else 1

def PlacedFill.scaled (k : ℚ) (f : PlacedFill) : PlacedFill := { f with quantity := k * f.quantity }

/-- A leg with all its quantities multiplied. -/
def PlacedLeg.scaled (k : ℚ) (leg : PlacedLeg) : PlacedLeg :=
  { leg with
    quantity := k * leg.quantity
    remainingQuantity := k * leg.remainingQuantity
    fills := leg.fills.map (PlacedFill.scaled k) }

/-- One fill of one leg was cut into parts at its price. -/
def SplitsFill (legs legs' : List PlacedLeg) : Prop :=
  ∃ (before : List PlacedLeg) (leg : PlacedLeg) (after : List PlacedLeg)
      (fills : List PlacedFill) (fill : PlacedFill) (parts fills' : List PlacedFill),
    legs = before ++ { leg with fills := fills ++ fill :: fills' } :: after ∧
      legs' = before ++ { leg with fills := fills ++ parts ++ fills' } :: after ∧
      parts ≠ [] ∧ (∀ part ∈ parts, part.fillPrice = fill.fillPrice) ∧
      (parts.map PlacedFill.quantity).sum = fill.quantity

section Whole

variable {leg : PlacedLeg} {legs : List PlacedLeg}

theorem PlacedLeg.Whole.natCast (h : leg.Whole) : (leg.quantity.num.toNat : ℚ) = leg.quantity := by
  have hnum : 0 ≤ leg.quantity.num := Rat.num_nonneg.mpr h.pos.le
  have hcast : ((leg.quantity.num.toNat : ℤ) : ℚ) = (leg.quantity.num : ℚ) := by
    rw [Int.toNat_of_nonneg hnum]
  rw [← Int.cast_natCast, hcast]
  exact Rat.coe_int_num_of_den_eq_one h.integral

theorem PlacedLeg.Whole.toNat_pos (h : leg.Whole) : 0 < leg.quantity.num.toNat := by
  have hpos := h.pos
  rw [← h.natCast] at hpos
  exact_mod_cast hpos

theorem unitsOf_pos (hlegs : legs ≠ []) (h : ∀ leg ∈ legs, leg.Whole) : 0 < unitsOf legs := by
  obtain ⟨leg, rest, rfl⟩ := List.exists_cons_of_ne_nil hlegs
  exact listGcd_pos (List.mem_map_of_mem List.mem_cons_self) (h leg List.mem_cons_self).toNat_pos

theorem unitsOf_of_perm {legs' : List PlacedLeg} (h : legs.Perm legs') :
    unitsOf legs = unitsOf legs' := listGcd_of_perm (h.map _)

end Whole

/-! ## The fields of a multi-leg order -/

/-- The sum of a list of values, when all of them are there. -/
def sumSome (l : List (Option ℚ)) : Option ℚ :=
  if l.all Option.isSome then some (l.map fun x => x.getD 0).sum else none

/-- What a leg adds to the net price of a unit. -/
def PlacedLeg.unitPrice (units : ℚ) (leg : PlacedLeg) : Option ℚ :=
  (vwap leg.fills).map fun price => leg.side * price * (leg.quantity / units)

/-- The units of a leg that are filled. -/
def PlacedLeg.filledUnits (units : ℚ) (leg : PlacedLeg) : ℚ :=
  filledOf leg / (leg.quantity / units)

/-- The units of a leg that remain. -/
def PlacedLeg.remainingUnits (units : ℚ) (leg : PlacedLeg) : ℚ :=
  leg.remainingQuantity / (leg.quantity / units)

theorem sumSome_cons (x : Option ℚ) (l : List (Option ℚ)) :
    sumSome (x :: l) = x.bind fun a => (sumSome l).map (a + ·) := by
  unfold sumSome
  cases x with
  | none => simp
  | some a =>
    by_cases h : l.all Option.isSome = true
    · simp [h]
    · simp [h]

theorem sumSome_map_some {α : Type} {f : α → Option ℚ} {g : α → ℚ} {l : List α}
    (h : ∀ a ∈ l, f a = some (g a)) : sumSome (l.map f) = some (l.map g).sum := by
  have hall : (l.map fun a => some (g a)).all Option.isSome = true := by simp
  rw [List.map_congr_left h, sumSome, hall, if_pos rfl, List.map_map]
  rfl

theorem sumSome_of_perm {l l' : List (Option ℚ)} (h : l.Perm l') : sumSome l = sumSome l' := by
  have hall : l.all Option.isSome = l'.all Option.isSome := h.all_eq
  rw [sumSome, sumSome, hall, (h.map _).sum_eq]

section Fields

variable {legs : List PlacedLeg} {priceEffect : Option String} {units : ℚ}

theorem foldl_unitPrice (legs : List PlacedLeg) (net : Option ℚ) :
    legs.foldl (fun net leg => net.bind fun n => (leg.unitPrice units).map (n + ·)) net =
      net.bind fun n => (sumSome (legs.map (PlacedLeg.unitPrice units))).map (n + ·) := by
  induction legs generalizing net with
  | nil => cases net <;> simp [sumSome]
  | cons leg legs ih =>
    rw [List.foldl_cons, ih, List.map_cons, sumSome_cons]
    cases net with
    | none => rfl
    | some n =>
      cases leg.unitPrice units with
      | none => rfl
      | some price => simp [Option.map_map, Function.comp_def, add_assoc]

/-- The net price is the sum over the legs once every leg has a price. -/
theorem netPrice_eq (legs : List PlacedLeg) (units : ℚ) :
    netPrice legs units = sumSome (legs.map (PlacedLeg.unitPrice units)) := by
  have hfold : netPrice legs units = legs.foldl
      (fun net leg => net.bind fun n => (leg.unitPrice units).map (n + ·)) (some 0) := by
    unfold netPrice
    congr 1
    funext net leg
    unfold PlacedLeg.unitPrice
    cases net with
    | none => rfl
    | some n => cases vwap leg.fills <;> rfl
  rw [hfold, foldl_unitPrice]
  simp

/-- The fields of a multi-leg order, read off its legs. -/
theorem orderLevelFillFields_eq (hlegs : 2 ≤ legs.length) (h : ∀ leg ∈ legs, leg.Whole) :
    orderLevelFillFields legs priceEffect =
      { averageFillPrice := (sumSome (legs.map (PlacedLeg.unitPrice (unitsOf legs)))).map
          (effectSign priceEffect * ·)
        filledQuantity := (legs.map (PlacedLeg.filledUnits (unitsOf legs))).min?
        remainingQuantity := (legs.map (PlacedLeg.remainingUnits (unitsOf legs))).max? } := by
  obtain ⟨a, b, rest, rfl⟩ : ∃ a b rest, legs = a :: b :: rest := by
    match legs, hlegs with
    | a :: b :: rest, _ => exact ⟨a, b, rest, rfl⟩
  have hall :
      ((a :: b :: rest).all fun leg => 0 < leg.quantity && leg.quantity.den = 1) = true := by
    refine List.all_eq_true.mpr fun leg hleg => ?_
    simp [(h leg hleg).pos, (h leg hleg).integral]
  have hprice : ∀ net : Option ℚ, (if priceEffect = some "Debit" then net.map (- ·) else net) =
      net.map (effectSign priceEffect * ·) := by
    intro net
    unfold effectSign
    split_ifs <;> simp
  unfold orderLevelFillFields
  simp only [hall, if_true, hprice, netPrice_eq]
  rfl

theorem remainingUnits_add_filledUnits (hunits : units ≠ 0) {leg : PlacedLeg} (h : leg.Whole)
    (hbook : filledOf leg + leg.remainingQuantity = leg.quantity) :
    leg.filledUnits units = units - leg.remainingUnits units := by
  have hq := h.pos.ne'
  have hfilled : filledOf leg = leg.quantity - leg.remainingQuantity := by linarith
  unfold PlacedLeg.filledUnits PlacedLeg.remainingUnits
  rw [hfilled]
  field_simp

/-- What is filled and what remains add up to the units. -/
theorem filled_add_remaining (hlegs : 2 ≤ legs.length) (h : ∀ leg ∈ legs, leg.Whole)
    (hbook : ∀ leg ∈ legs, filledOf leg + leg.remainingQuantity = leg.quantity) :
    ∃ filled remaining,
      (orderLevelFillFields legs priceEffect).filledQuantity = some filled ∧
        (orderLevelFillFields legs priceEffect).remainingQuantity = some remaining ∧
        filled + remaining = unitsOf legs := by
  have hne : legs ≠ [] := by
    rintro rfl
    simp at hlegs
  have hunits : (unitsOf legs : ℚ) ≠ 0 := by exact_mod_cast (unitsOf_pos hne h).ne'
  have hfilled : legs.map (PlacedLeg.filledUnits (unitsOf legs)) =
      (legs.map (PlacedLeg.remainingUnits (unitsOf legs))).map ((unitsOf legs : ℚ) - ·) := by
    rw [List.map_map]
    exact List.map_congr_left fun leg hleg =>
      remainingUnits_add_filledUnits hunits (h leg hleg) (hbook leg hleg)
  obtain ⟨remaining, hmax⟩ := Option.isSome_iff_exists.mp
    (List.isSome_max?_of_ne_nil (l := legs.map (PlacedLeg.remainingUnits (unitsOf legs)))
      (by simpa using hne))
  refine ⟨unitsOf legs - remaining, remaining, ?_, ?_, by ring⟩
  · rw [orderLevelFillFields_eq hlegs h, hfilled,
      min?_map_of_antitone fun a b hab => sub_le_sub_left hab _, hmax]
    rfl
  · rw [orderLevelFillFields_eq hlegs h]
    exact hmax

/-- The mean price of a leg that is filled is its worth over its quantity. -/
theorem vwap_of_filled {leg : PlacedLeg} (h : leg.Whole) (hfilled : filledOf leg = leg.quantity) :
    vwap leg.fills = some (leg.worth / leg.quantity) := by
  have hne : filledOf leg ≠ 0 := hfilled ▸ h.pos.ne'
  have hfills : leg.fills.isEmpty = false := by
    rw [List.isEmpty_eq_false_iff]
    intro hnil
    exact hne (by simp [filledOf, hnil])
  unfold vwap
  simp only [hfills, Bool.false_or, decide_eq_true_eq]
  rw [if_neg (show ¬(leg.fills.map PlacedFill.quantity).sum = 0 from hne)]
  exact congrArg some (congrArg (leg.worth / ·) hfilled)

/-- The price of a filled order is its cash over the units. -/
theorem price_of_filled (hlegs : 2 ≤ legs.length) (h : ∀ leg ∈ legs, leg.Whole)
    (hfilled : ∀ leg ∈ legs, filledOf leg = leg.quantity) :
    ∃ price, (orderLevelFillFields legs priceEffect).averageFillPrice = some price ∧
      price * unitsOf legs =
        effectSign priceEffect * (legs.map fun leg => leg.side * leg.worth).sum := by
  have hne : legs ≠ [] := by
    rintro rfl
    simp at hlegs
  have hunits : (unitsOf legs : ℚ) ≠ 0 := by exact_mod_cast (unitsOf_pos hne h).ne'
  have hprice : ∀ leg ∈ legs, leg.unitPrice (unitsOf legs) =
      some (leg.side * leg.worth * (unitsOf legs : ℚ)⁻¹) := by
    intro leg hleg
    have hq := (h leg hleg).pos.ne'
    rw [PlacedLeg.unitPrice, vwap_of_filled (h leg hleg) (hfilled leg hleg), Option.map_some]
    congr 1
    field_simp
  refine ⟨effectSign priceEffect *
    (legs.map fun leg => leg.side * leg.worth * (unitsOf legs : ℚ)⁻¹).sum, ?_, ?_⟩
  · rw [orderLevelFillFields_eq hlegs h]
    simp only [sumSome_map_some hprice, Option.map_some]
  · rw [List.sum_map_mul_right]
    field_simp

/-! ## What the fields do not depend on -/

/-- The fields do not depend on the order of the legs. -/
theorem orderLevelFillFields_perm (hlegs : 2 ≤ legs.length) (h : ∀ leg ∈ legs, leg.Whole)
    {legs' : List PlacedLeg} (hperm : legs.Perm legs') :
    orderLevelFillFields legs' priceEffect = orderLevelFillFields legs priceEffect := by
  rw [orderLevelFillFields_eq (hperm.length_eq ▸ hlegs)
      (fun leg hleg => h leg (hperm.mem_iff.mpr hleg)),
    orderLevelFillFields_eq hlegs h, unitsOf_of_perm hperm, sumSome_of_perm (hperm.map _),
    min?_of_perm (hperm.map _), max?_of_perm (hperm.map _)]

/-- The mean price does not depend on how a fill is cut. -/
theorem vwap_split {fills fills' parts : List PlacedFill} {fill : PlacedFill} (hne : parts ≠ [])
    (hprice : ∀ part ∈ parts, part.fillPrice = fill.fillPrice)
    (hsum : (parts.map PlacedFill.quantity).sum = fill.quantity) :
    vwap (fills ++ parts ++ fills') = vwap (fills ++ fill :: fills') := by
  have hworth : (parts.map fun f => f.quantity * f.fillPrice).sum =
      fill.quantity * fill.fillPrice := by
    rw [List.map_congr_left (g := fun f => f.quantity * fill.fillPrice)
      fun f hf => by rw [hprice f hf], List.sum_map_mul_right, hsum]
  unfold vwap
  simp [hsum, hworth, hne]

/-- The fields do not depend on how a fill is cut. -/
theorem orderLevelFillFields_split (hlegs : 2 ≤ legs.length) (h : ∀ leg ∈ legs, leg.Whole)
    {legs' : List PlacedLeg} (hsplit : SplitsFill legs legs') :
    orderLevelFillFields legs' priceEffect = orderLevelFillFields legs priceEffect := by
  obtain ⟨before, leg, after, fills, fill, parts, fills', rfl, rfl, hne, hprice, hsum⟩ := hsplit
  have hwhole : ∀ leg' ∈ before ++ { leg with fills := fills ++ parts ++ fills' } :: after,
      leg'.Whole := by
    intro leg' hleg'
    rcases List.mem_append.mp hleg' with hleg' | hleg'
    · exact h leg' (List.mem_append_left _ hleg')
    · rcases List.mem_cons.mp hleg' with rfl | hleg'
      · have hleg := h { leg with fills := fills ++ fill :: fills' }
          (List.mem_append_right _ List.mem_cons_self)
        exact ⟨hleg.pos, hleg.integral⟩
      · exact h leg' (List.mem_append_right _ (List.mem_cons_of_mem _ hleg'))
  have hunits : unitsOf (before ++ { leg with fills := fills ++ parts ++ fills' } :: after) =
      unitsOf (before ++ { leg with fills := fills ++ fill :: fills' } :: after) := by
    simp [unitsOf]
  have hfilled : filledOf { leg with fills := fills ++ parts ++ fills' } =
      filledOf { leg with fills := fills ++ fill :: fills' } := by
    simp [filledOf, hsum]
  rw [orderLevelFillFields_eq (by simpa using hlegs) hwhole, orderLevelFillFields_eq hlegs h,
    hunits]
  simp only [List.map_append, List.map_cons, PlacedLeg.unitPrice, PlacedLeg.filledUnits,
    PlacedLeg.remainingUnits, hfilled, vwap_split hne hprice hsum, PlacedLeg.side]

/-! ## The scale of the quantities -/

section Scale

variable {k : ℚ} {leg : PlacedLeg}

theorem PlacedLeg.Whole.scaled (hk : 0 < k) (h : leg.Whole) (hint : (k * leg.quantity).den = 1) :
    (leg.scaled k).Whole := ⟨mul_pos hk h.pos, hint⟩

theorem filledOf_scaled (k : ℚ) (leg : PlacedLeg) :
    filledOf (leg.scaled k) = k * filledOf leg := by
  simp only [filledOf, PlacedLeg.scaled, List.map_map, ← List.sum_map_mul_left]
  rfl

theorem vwap_scaled (hk : k ≠ 0) (fills : List PlacedFill) :
    vwap (fills.map (PlacedFill.scaled k)) = vwap fills := by
  have hsum : ((fills.map (PlacedFill.scaled k)).map PlacedFill.quantity).sum =
      k * (fills.map PlacedFill.quantity).sum := by
    simp only [List.map_map, ← List.sum_map_mul_left]
    rfl
  have hworth : ((fills.map (PlacedFill.scaled k)).map fun f => f.quantity * f.fillPrice).sum =
      k * (fills.map fun f => f.quantity * f.fillPrice).sum := by
    rw [← List.sum_map_mul_left, List.map_map]
    congr 1
    exact List.map_congr_left fun f _ => mul_assoc k f.quantity f.fillPrice
  unfold vwap
  simp only [hsum, hworth, List.isEmpty_map, mul_eq_zero, hk, false_or, mul_div_mul_left _ _ hk]

/-- The units scale with the quantities. -/
theorem unitsOf_scaled (hk : 0 < k) (h : ∀ leg ∈ legs, leg.Whole)
    (hint : ∀ leg ∈ legs, (k * leg.quantity).den = 1) :
    (unitsOf (legs.map (PlacedLeg.scaled k)) : ℚ) = k * unitsOf legs := by
  -- with `k` a fraction, both sides times its denominator are divisors of whole multiples
  have hnum : (k.num.toNat : ℚ) = k * k.den := by
    have hcast : ((k.num.toNat : ℤ) : ℚ) = (k.num : ℚ) := by
      rw [Int.toNat_of_nonneg (Rat.num_nonneg.mpr hk.le)]
    rw [← Int.cast_natCast, hcast]
    exact (Rat.mul_den_eq_num k).symm
  have hden : (k.den : ℚ) ≠ 0 := Nat.cast_ne_zero.mpr k.den_nz
  have hlegs : (legs.map fun leg => (k * leg.quantity).num.toNat).map (k.den * ·) =
      (legs.map fun leg => leg.quantity.num.toNat).map (k.num.toNat * ·) := by
    rw [List.map_map, List.map_map]
    refine List.map_congr_left fun leg hleg => ?_
    have hscaled := ((h leg hleg).scaled hk (hint leg hleg)).natCast
    have hleg := (h leg hleg).natCast
    have hcast : ((k.den * (k * leg.quantity).num.toNat : ℕ) : ℚ) =
        ((k.num.toNat * leg.quantity.num.toNat : ℕ) : ℚ) := by
      rw [Nat.cast_mul, Nat.cast_mul, hnum, hleg]
      rw [show ((k * leg.quantity).num.toNat : ℚ) = k * leg.quantity from hscaled]
      ring
    exact_mod_cast hcast
  have hgcd : k.den * unitsOf (legs.map (PlacedLeg.scaled k)) = k.num.toNat * unitsOf legs := by
    rw [unitsOf, unitsOf, ← listGcd_map_mul, ← listGcd_map_mul, ← hlegs,
      List.map_map (f := PlacedLeg.scaled k)]
    rfl
  have hcast : (k.den : ℚ) * unitsOf (legs.map (PlacedLeg.scaled k)) =
      k.num.toNat * unitsOf legs := by exact_mod_cast hgcd
  rw [hnum] at hcast
  refine mul_left_cancel₀ hden (hcast.trans ?_)
  ring

/-- Multiplied quantities give multiplied units at the same price. -/
theorem orderLevelFillFields_scaled (hlegs : 2 ≤ legs.length) (h : ∀ leg ∈ legs, leg.Whole)
    (hk : 0 < k) (hint : ∀ leg ∈ legs, (k * leg.quantity).den = 1) :
    orderLevelFillFields (legs.map (PlacedLeg.scaled k)) priceEffect =
      { averageFillPrice := (orderLevelFillFields legs priceEffect).averageFillPrice
        filledQuantity := (orderLevelFillFields legs priceEffect).filledQuantity.map (k * ·)
        remainingQuantity :=
          (orderLevelFillFields legs priceEffect).remainingQuantity.map (k * ·) } := by
  have hmono : Monotone (k * · : ℚ → ℚ) := fun a b hab => mul_le_mul_of_nonneg_left hab hk.le
  have hratio : ∀ leg : PlacedLeg, (leg.scaled k).quantity / (k * unitsOf legs) =
      leg.quantity / unitsOf legs := fun leg => mul_div_mul_left _ _ hk.ne'
  have hwhole : ∀ leg ∈ legs.map (PlacedLeg.scaled k), leg.Whole := by
    intro leg' hleg'
    obtain ⟨leg, hleg, rfl⟩ := List.mem_map.mp hleg'
    exact (h leg hleg).scaled hk (hint leg hleg)
  have hprice : (legs.map (PlacedLeg.scaled k)).map (PlacedLeg.unitPrice (k * unitsOf legs)) =
      legs.map (PlacedLeg.unitPrice (unitsOf legs)) := by
    rw [List.map_map]
    refine List.map_congr_left fun leg _ => ?_
    simp only [Function.comp_apply, PlacedLeg.unitPrice, hratio]
    rw [show vwap (leg.scaled k).fills = vwap leg.fills from vwap_scaled hk.ne' leg.fills]
    rfl
  have hfilled : (legs.map (PlacedLeg.scaled k)).map (PlacedLeg.filledUnits (k * unitsOf legs)) =
      (legs.map (PlacedLeg.filledUnits (unitsOf legs))).map (k * ·) := by
    rw [List.map_map, List.map_map]
    refine List.map_congr_left fun leg _ => ?_
    simp only [Function.comp_apply, PlacedLeg.filledUnits, hratio, filledOf_scaled, mul_div_assoc]
  have hremaining :
      (legs.map (PlacedLeg.scaled k)).map (PlacedLeg.remainingUnits (k * unitsOf legs)) =
      (legs.map (PlacedLeg.remainingUnits (unitsOf legs))).map (k * ·) := by
    rw [List.map_map, List.map_map]
    refine List.map_congr_left fun leg _ => ?_
    simp only [Function.comp_apply, PlacedLeg.remainingUnits, hratio]
    exact mul_div_assoc k leg.remainingQuantity _
  rw [orderLevelFillFields_eq (by simpa using hlegs) hwhole, orderLevelFillFields_eq hlegs h,
    unitsOf_scaled hk h hint, hprice, hfilled, hremaining, min?_map_of_monotone hmono,
    max?_map_of_monotone hmono]

end Scale

/-- **The fill fields of a multi-leg order are consistent with its legs.** For two legs or more, of
positive whole quantities each of which is filled or remains: the filled and the remaining units
add up to the greatest common divisor of the quantities; once all legs are filled, the price times
the units is what the sales brought less what the purchases cost, negated for a debit order; the
fields change neither with the order of the legs nor when a fill is cut into parts at its price;
and multiplying all quantities by a positive `k`, every positive integer for one, multiplies both
unit fields by `k` and keeps the price. -/
theorem orderLevelFillFields_consistent (legs : List PlacedLeg) (priceEffect : Option String)
    (hlegs : 2 ≤ legs.length) (h : ∀ leg ∈ legs, leg.Whole)
    (hbook : ∀ leg ∈ legs, filledOf leg + leg.remainingQuantity = leg.quantity) :
    (∃ filled remaining,
      (orderLevelFillFields legs priceEffect).filledQuantity = some filled ∧
        (orderLevelFillFields legs priceEffect).remainingQuantity = some remaining ∧
        filled + remaining = unitsOf legs) ∧
      ((∀ leg ∈ legs, filledOf leg = leg.quantity) →
        ∃ price, (orderLevelFillFields legs priceEffect).averageFillPrice = some price ∧
          price * unitsOf legs =
            effectSign priceEffect * (legs.map fun leg => leg.side * leg.worth).sum) ∧
      (∀ legs', legs.Perm legs' →
        orderLevelFillFields legs' priceEffect = orderLevelFillFields legs priceEffect) ∧
      (∀ legs', SplitsFill legs legs' →
        orderLevelFillFields legs' priceEffect = orderLevelFillFields legs priceEffect) ∧
      (∀ k : ℚ, 0 < k → (∀ leg ∈ legs, (k * leg.quantity).den = 1) →
        orderLevelFillFields (legs.map (PlacedLeg.scaled k)) priceEffect =
          { averageFillPrice := (orderLevelFillFields legs priceEffect).averageFillPrice
            filledQuantity := (orderLevelFillFields legs priceEffect).filledQuantity.map (k * ·)
            remainingQuantity :=
              (orderLevelFillFields legs priceEffect).remainingQuantity.map (k * ·) }) :=
  ⟨filled_add_remaining hlegs h hbook, price_of_filled hlegs h,
    fun _ hperm => orderLevelFillFields_perm hlegs h hperm,
    fun _ hsplit => orderLevelFillFields_split hlegs h hsplit,
    fun _ hk hint => orderLevelFillFields_scaled hlegs h hk hint⟩

end Fields

/-- The legs of a filled ratio spread: one bought at 10, two sold at 4. -/
def ratioSpread : List PlacedLeg :=
  [{ instrumentType := "Equity Option"
     symbol := "P100"
     action := "Buy to Open"
     quantity := 1
     remainingQuantity := 0
     fills := [{ fillId := "F-1", quantity := 1, fillPrice := 10, filledAt := 0 }] },
   { instrumentType := "Equity Option"
     symbol := "P90"
     action := "Sell to Open"
     quantity := 2
     remainingQuantity := 0
     fills := [{ fillId := "F-2", quantity := 1, fillPrice := 4, filledAt := 0 },
       { fillId := "F-3", quantity := 1, fillPrice := 4, filledAt := second }] }]

/-- One unit at a net debit of 2, and nothing remains. -/
theorem orderLevelFillFields_ratio_spread :
    orderLevelFillFields ratioSpread (some "Debit") = ⟨some 2, some 1, some 0⟩ ∧
      (∃ price, (orderLevelFillFields ratioSpread (some "Debit")).averageFillPrice = some price ∧
        price * unitsOf ratioSpread = effectSign (some "Debit") *
          (ratioSpread.map fun leg => leg.side * leg.worth).sum) ∧
      ∀ legs', ratioSpread.Perm legs' →
        orderLevelFillFields legs' (some "Debit") =
          orderLevelFillFields ratioSpread (some "Debit") := by
  have hwhole : ∀ leg ∈ ratioSpread, leg.Whole := by
    simp only [ratioSpread, List.forall_mem_cons]
    exact ⟨⟨by decide, rfl⟩, ⟨by decide, rfl⟩, by simp⟩
  have h := orderLevelFillFields_consistent ratioSpread (some "Debit") (by decide) hwhole
    (by decide +kernel)
  exact ⟨by decide +kernel, h.2.1 (by decide +kernel), h.2.2.1⟩

end TtLedger
