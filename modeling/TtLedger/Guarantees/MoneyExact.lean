import TtLedger.Store.Money

/-!
# Money is exact and additive on SQLite

A value of at most six fractional digits and a magnitude below 10¹² is stored as an integer of at
most 18 digits and read back as it was. An integer of the column is read back without rounding, so
what a sum of stored values decodes to is the sum of what they decode to, unless a sum on the way
leaves 64 bits and raises. A value of more fractional digits is stored as the nearest number of
micro-units (`moneyExact`).
-/

namespace TtLedger

open Money

/-- A value of at most six fractional digits. -/
def HasMicroUnits (v : ℚ) : Prop := ∃ n : ℤ, v = n / 10 ^ moneyScale

/-- What a value is read back as. -/
def readBack (v : ℚ) : Option ℚ :=
  processResultValue moneyScale "sqlite" (processBindParam moneyScale "sqlite" (some v))

/-- What a stored integer decodes to. -/
def decoded (units : ℤ) : Option ℚ :=
  processResultValue moneyScale "sqlite" (some (.integer units))

/-- A value that the columns admit. -/
structure Admitted (v : ℚ) : Prop where
  digits : HasDigits contextPrecision v
  small : |v| < 10 ^ 12

/-- The integers added so far stay in 64 bits, whichever row has been reached. -/
def PartialSumsFit (units : List ℤ) : Prop := ∀ added, added <+: units → FitsInt64 added.sum

/-- Money is exact, and additive on the columns that meet the condition. -/
structure MoneyExact (Summable : List ℤ → Prop) : Prop where
  exact : ∀ v, HasMicroUnits v → |v| < 10 ^ 12 → readBack v = some v ∧
    ∃ units, processBindParam moneyScale "sqlite" (some v) = some (.integer units) ∧
      FitsInt64 units
  additive : ∀ column : List (Option ℤ), (∀ units ∈ column.reduceOption, FitsInt64 units) →
    Summable column.reduceOption →
      SqlLedgerStore.transactionValueTotal column =
        .ok (column.reduceOption.filterMap decoded).sum
  error : ∀ v, Admitted v → ∃ w, readBack v = some w ∧ |w - v| ≤ 1 / 2 / 10 ^ moneyScale
  idempotent : ∀ v w, Admitted v → readBack v = some w → readBack w = some w
  monotone : ∀ v v' w w', Admitted v → Admitted v' → v ≤ v' → readBack v = some w →
    readBack v' = some w' → w ≤ w'

/-! ## Encoding and decoding -/

theorem ten_pow_moneyScale_pos : (0 : ℚ) < 10 ^ moneyScale := by norm_num [moneyScale]

/-- A stored integer is decoded without rounding. -/
theorem decoded_eq {units : ℤ} (h : |units| < 10 ^ contextPrecision) :
    decoded units = some ((units : ℚ) / 10 ^ moneyScale) := by
  have hdigits : HasDigits contextPrecision ((units : ℚ) / 10 ^ moneyScale) :=
    ⟨units, -moneyScale, h, by rw [zpow_neg, zpow_natCast, div_eq_mul_inv]⟩
  simp only [decoded, processResultValue, Option.map_some, Stored.toDecimal]
  rw [if_neg (by decide), roundToDigits_of_hasDigits hdigits]

theorem abs_lt_of_fitsInt64 {units : ℤ} (h : FitsInt64 units) :
    |units| < 10 ^ contextPrecision := by
  obtain ⟨hlow, hhigh⟩ := h
  rw [abs_lt, contextPrecision]
  omega

/-- A value is encoded as the nearest number of micro-units. -/
theorem processBindParam_eq {v : ℚ} (h : HasDigits contextPrecision v) :
    processBindParam moneyScale "sqlite" (some v) =
      some (.integer (roundHalfEven (v * 10 ^ moneyScale))) := by
  have hdigits : HasDigits contextPrecision (v * 10 ^ moneyScale) := by
    obtain ⟨n, k, hn, rfl⟩ := h
    exact ⟨n, k + moneyScale, hn, by rw [zpow_add₀ (by norm_num), zpow_natCast, mul_assoc]⟩
  simp only [processBindParam, Option.map_some]
  rw [if_neg (by decide), roundToDigits_of_hasDigits hdigits]

theorem abs_units_le {v : ℚ} (h : |v| < 10 ^ 12) :
    |roundHalfEven (v * 10 ^ moneyScale)| ≤ 10 ^ 18 := by
  refine abs_roundHalfEven_le (n := 10 ^ 18) ?_
  rw [abs_mul, abs_of_pos ten_pow_moneyScale_pos, Int.cast_pow, Int.cast_ofNat]
  calc |v| * 10 ^ moneyScale ≤ 10 ^ 12 * 10 ^ moneyScale :=
        mul_le_mul_of_nonneg_right h.le ten_pow_moneyScale_pos.le
    _ = 10 ^ 18 := by norm_num [moneyScale]

/-- A value is read back as the nearest number of micro-units. -/
theorem readBack_eq {v : ℚ} (h : HasDigits contextPrecision v)
    (hunits : |roundHalfEven (v * 10 ^ moneyScale)| < 10 ^ contextPrecision) :
    readBack v = some ((roundHalfEven (v * 10 ^ moneyScale) : ℚ) / 10 ^ moneyScale) := by
  rw [readBack, processBindParam_eq h, ← decoded_eq hunits, decoded]

theorem Admitted.units_lt {v : ℚ} (h : Admitted v) :
    |roundHalfEven (v * 10 ^ moneyScale)| < 10 ^ contextPrecision :=
  (abs_units_le h.small).trans_lt (by norm_num [contextPrecision])

theorem HasMicroUnits.mul_eq {v : ℚ} (h : HasMicroUnits v) :
    (roundHalfEven (v * 10 ^ moneyScale) : ℚ) = v * 10 ^ moneyScale := by
  obtain ⟨n, rfl⟩ := h
  rw [div_mul_cancel₀ _ ten_pow_moneyScale_pos.ne', roundHalfEven_intCast]

/-- A number of micro-units has no more digits than its units. -/
theorem HasMicroUnits.hasDigits {v : ℚ} (h : HasMicroUnits v)
    (hunits : |roundHalfEven (v * 10 ^ moneyScale)| < 10 ^ contextPrecision) :
    HasDigits contextPrecision v := by
  refine ⟨roundHalfEven (v * 10 ^ moneyScale), -moneyScale, hunits, ?_⟩
  rw [h.mul_eq, mul_assoc, ← zpow_natCast, ← zpow_add₀ (by norm_num), add_neg_cancel, zpow_zero,
    mul_one]

theorem HasMicroUnits.readBack_eq_self {v : ℚ} (h : HasMicroUnits v)
    (hunits : |roundHalfEven (v * 10 ^ moneyScale)| < 10 ^ contextPrecision) :
    readBack v = some v := by
  rw [readBack_eq (h.hasDigits hunits) hunits, h.mul_eq,
    mul_div_cancel_right₀ _ ten_pow_moneyScale_pos.ne']

/-! ## Sums -/

theorem filterMap_decoded {units : List ℤ} (h : ∀ n ∈ units, FitsInt64 n) :
    units.filterMap decoded = units.map fun n : ℤ => (n : ℚ) / 10 ^ moneyScale := by
  rw [← List.filterMap_eq_map]
  exact List.filterMap_congr fun n hn => decoded_eq (abs_lt_of_fitsInt64 (h n hn))

theorem sum_map_div (units : List ℤ) :
    (units.map fun n : ℤ => (n : ℚ) / 10 ^ moneyScale).sum = (units.sum : ℚ) / 10 ^ moneyScale := by
  induction units with
  | nil => simp
  | cons n units ih => rw [List.map_cons, List.sum_cons, ih, List.sum_cons, Int.cast_add, add_div]

/-- Adding up raises nothing as long as the sums so far fit. -/
theorem foldlM_addUnits {units : List ℤ} {total : ℤ}
    (h : ∀ added, added <+: units → FitsInt64 (total + added.sum)) :
    units.foldlM addUnits total = .ok (total + units.sum) := by
  induction units generalizing total with
  | nil => rw [List.foldlM_nil, List.sum_nil, add_zero]; rfl
  | cons n units ih =>
    have hn : addUnits total n = .ok (total + n) := by
      have hfits := h [n] ⟨units, rfl⟩
      rw [List.sum_singleton] at hfits
      exact if_pos hfits
    have hrest : ∀ added, added <+: units → FitsInt64 (total + n + added.sum) := by
      intro added hadded
      have hfits := h (n :: added) (List.prefix_cons_inj n |>.mpr hadded)
      rwa [List.sum_cons, ← add_assoc] at hfits
    rw [List.foldlM_cons, hn, List.sum_cons, ← add_assoc, ← ih hrest]
    rfl

/-- A total is decoded like the column it sums. -/
theorem valueColumnTotal_eq {column : List (Option ℤ)}
    (h : PartialSumsFit column.reduceOption) :
    SqlLedgerStore.transactionValueTotal column =
      .ok ((column.reduceOption.sum : ℚ) / 10 ^ moneyScale) := by
  have hsum : column.reduceOption.foldlM addUnits 0 = .ok column.reduceOption.sum := by
    rw [foldlM_addUnits fun added hadded => by simpa using h added hadded, zero_add]
  have hdecoded := decoded_eq (abs_lt_of_fitsInt64 (h _ List.prefix_rfl))
  rw [decoded] at hdecoded
  unfold SqlLedgerStore.transactionValueTotal sumUnits
  split
  · rename_i hnil
    simp [hnil, processResultValue, Except.map]
  · rw [hsum]
    simp only [Except.map, Option.map_some, hdecoded, Option.getD_some]

/-- **Money is exact and additive on SQLite.** A value of at most six fractional digits below 10¹²
is read back as it was, from an integer of a signed 64-bit column; a sum of stored values, as long
as none of the sums on the way leaves 64 bits, decodes to the sum of what they decode to; and for
every value of at most 28 significant digits in that range the round trip errs by at most half a
micro-unit, is idempotent and monotone. -/
theorem moneyExact : MoneyExact PartialSumsFit where
  exact v hv hsmall := by
    have hunits := abs_units_le hsmall
    have hlt : |roundHalfEven (v * 10 ^ moneyScale)| < 10 ^ contextPrecision :=
      hunits.trans_lt (by norm_num [contextPrecision])
    refine ⟨hv.readBack_eq_self hlt, _, processBindParam_eq (hv.hasDigits hlt), ?_⟩
    obtain ⟨hlow, hhigh⟩ := abs_le.mp hunits
    exact ⟨by omega, by omega⟩
  additive column hfits hsum := by
    rw [valueColumnTotal_eq hsum, filterMap_decoded hfits, sum_map_div]
  error v hv := by
    refine ⟨_, readBack_eq hv.digits hv.units_lt, ?_⟩
    have hround := abs_roundHalfEven_sub_le (v * 10 ^ moneyScale)
    rw [le_div_iff₀ ten_pow_moneyScale_pos, ← abs_of_pos ten_pow_moneyScale_pos, ← abs_mul,
      sub_mul, abs_of_pos ten_pow_moneyScale_pos,
      div_mul_cancel₀ _ ten_pow_moneyScale_pos.ne']
    exact hround
  idempotent v w hv hw := by
    rw [readBack_eq hv.digits hv.units_lt] at hw
    obtain rfl := Option.some.inj hw
    refine HasMicroUnits.readBack_eq_self ⟨_, rfl⟩ ?_
    rw [div_mul_cancel₀ _ ten_pow_moneyScale_pos.ne', roundHalfEven_intCast]
    exact hv.units_lt
  monotone v v' w w' hv hv' hle hw hw' := by
    rw [readBack_eq hv.digits hv.units_lt] at hw
    rw [readBack_eq hv'.digits hv'.units_lt] at hw'
    obtain rfl := Option.some.inj hw
    obtain rfl := Option.some.inj hw'
    refine div_le_div_of_nonneg_right ?_ ten_pow_moneyScale_pos.le
    exact_mod_cast roundHalfEven_mono (mul_le_mul_of_nonneg_right hle ten_pow_moneyScale_pos.le)

/-- It is not enough that the total fits: two values of 2⁶² raise before a third takes one back. -/
theorem moneyExact_not_of_total : ¬MoneyExact fun units => FitsInt64 units.sum := by
  intro h
  have htotal := h.additive [some (2 ^ 62), some (2 ^ 62), some (-2 ^ 62)] (by decide) (by decide)
  have hraises : SqlLedgerStore.transactionValueTotal
      [some (2 ^ 62), some (2 ^ 62), some (-2 ^ 62)] = .error "integer overflow" := by rfl
  rw [hraises] at htotal
  cases htotal

/-- A tie is stored as the even number of micro-units. -/
example : readBack (5 / 2 / 10 ^ 6) = some (2 / 10 ^ 6) := by decide +kernel

end TtLedger
