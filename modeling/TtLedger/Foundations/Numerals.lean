import Mathlib.Algebra.Order.Field.Rat
import Mathlib.Data.List.DropRight
import Mathlib.Data.List.TakeWhile
import Mathlib.Data.Nat.Factorization.Basic
import Mathlib.Data.Rat.Lemmas
import Mathlib.Tactic.FieldSimp
import Mathlib.Tactic.Ring

/-!
# Decimal numerals

Digits of any script have a value (`digitOf`), and so has a text of them (`value`). `padded w n`
writes `n` with `w` digits, and a text of ASCII digits is the one that its value is written with
(`padded_value`). `fixedPoint q` writes a decimal without an exponent, its fraction found by long
division; where the division terminates, the numeral reads back as `q` (`read_fixedPoint`).
-/

namespace TtLedger.Numeral

/-! ## Digits -/

/-- The code points of the zeros of the scripts. -/
def zeros : List ℕ :=
  [0x30, 0x660, 0x6f0, 0x7c0, 0x966, 0x9e6, 0xa66, 0xae6, 0xb66, 0xbe6, 0xc66, 0xce6, 0xd66, 0xde6,
    0xe50, 0xed0, 0xf20, 0x1040, 0x1090, 0x17e0, 0x1810, 0x1946, 0x19d0, 0x1a80, 0x1a90, 0x1b50,
    0x1bb0, 0x1c40, 0x1c50, 0xa620, 0xa8d0, 0xa900, 0xa9d0, 0xa9f0, 0xaa50, 0xabf0, 0xff10, 0x104a0,
    0x10d30, 0x11066, 0x110f0, 0x11136, 0x111d0, 0x112f0, 0x11450, 0x114d0, 0x11650, 0x116c0,
    0x11730, 0x118e0, 0x11950, 0x11c50, 0x11d50, 0x11da0, 0x16a60, 0x16ac0, 0x16b50, 0x1d7ce,
    0x1d7d8, 0x1d7e2, 0x1d7ec, 0x1d7f6, 0x1e140, 0x1e2f0, 0x1e950, 0x1fbf0]

/-- The value of a decimal digit. -/
def digitOf (c : Char) : Option ℕ :=
  (zeros.find? fun z => z ≤ c.toNat && c.toNat < z + 10).map (c.toNat - ·)

/-- The characters that are decimal digits. -/
def isDecimal (c : Char) : Bool := (digitOf c).isSome

/-- The value of a text of digits. -/
def value (ds : List Char) : ℕ := ds.foldl (fun n c => 10 * n + (digitOf c).getD 0) 0

theorem digitOf_lt {c : Char} {d : ℕ} (h : digitOf c = some d) : d < 10 := by
  obtain ⟨z, hz, rfl⟩ := Option.map_eq_some_iff.mp h
  have hbounds := List.find?_some hz
  simp only [Bool.and_eq_true, decide_eq_true_eq] at hbounds
  omega

theorem getD_digitOf_lt (c : Char) : (digitOf c).getD 0 < 10 := by
  cases h : digitOf c with
  | none => exact Nat.zero_lt_succ 9
  | some d => exact digitOf_lt h

@[simp] theorem digitOf_digitChar {d : ℕ} (h : d < 10) : digitOf d.digitChar = some d := by
  have hfind : zeros.find? (fun z => z ≤ d.digitChar.toNat && d.digitChar.toNat < z + 10) =
      some 0x30 := by
    rw [Nat.toNat_digitChar_of_lt_ten h, zeros, List.find?_cons_of_pos]
    simp only [Bool.and_eq_true, decide_eq_true_eq]
    omega
  rw [digitOf, hfind, Option.map_some, Nat.toNat_digitChar_of_lt_ten h]
  simp

/-- The decimal digits among the ASCII characters are those that numbers are written with. -/
theorem eq_digitChar {c : Char} {d : ℕ} (hascii : c.toNat < 128) (h : digitOf c = some d) :
    c = d.digitChar := by
  have hd := digitOf_lt h
  obtain ⟨z, hz, rfl⟩ := Option.map_eq_some_iff.mp h
  have hmem := List.mem_of_find?_eq_some hz
  have hbounds := List.find?_some hz
  simp only [Bool.and_eq_true, decide_eq_true_eq] at hbounds
  have hzero : ∀ z ∈ zeros, z < 128 → z = 48 := by decide
  have h48 := hzero z hmem (by omega)
  subst h48
  rw [← Char.toNat_inj, Nat.toNat_digitChar_of_lt_ten hd]
  omega

theorem exists_digitChar {c : Char} (h : c.isDigit = true) : ∃ d < 10, c = d.digitChar := by
  simp only [Char.isDigit, Bool.and_eq_true, decide_eq_true_eq] at h
  have hlow : 48 ≤ c.toNat := h.1
  have hhigh : c.toNat ≤ 57 := h.2
  refine ⟨c.toNat - 48, by omega, ?_⟩
  rw [← Char.toNat_inj, Nat.toNat_digitChar_of_lt_ten (by omega)]
  omega

theorem isDecimal_of_isDigit {c : Char} (h : c.isDigit = true) : isDecimal c = true := by
  obtain ⟨d, hd, rfl⟩ := exists_digitChar h
  simp [isDecimal, hd]

/-! ## Texts of digits -/

@[simp] theorem value_nil : value [] = 0 := rfl

@[simp] theorem value_concat (ds : List Char) (c : Char) :
    value (ds ++ [c]) = 10 * value ds + (digitOf c).getD 0 := by
  simp [value]

theorem value_append (a b : List Char) : value (a ++ b) = value a * 10 ^ b.length + value b := by
  induction b using List.reverseRecOn with
  | nil => simp
  | append_singleton b c ih =>
    rw [← List.append_assoc, value_concat, value_concat, ih, List.length_append,
      List.length_singleton]
    ring

theorem value_lt (ds : List Char) : value ds < 10 ^ ds.length := by
  induction ds using List.reverseRecOn with
  | nil => simp
  | append_singleton ds c ih =>
    have hc := getD_digitOf_lt c
    rw [value_concat, List.length_append, List.length_singleton, pow_succ]
    omega

theorem value_toDigits (n : ℕ) : value (Nat.toDigits 10 n) = n := by
  have hall : ∀ c ∈ Nat.toDigits 10 n, c.isDigit = true :=
    fun c hc => Nat.isDigit_of_mem_toDigits (by decide) (by decide) hc
  have hvalue : ∀ (ds : List Char) (m : ℕ), (∀ c ∈ ds, c.isDigit = true) →
      ds.foldl (fun n c => 10 * n + (digitOf c).getD 0) m = Nat.ofDigitChars 10 ds m := by
    intro ds
    induction ds with
    | nil => intro m _; simp
    | cons c ds ih =>
      intro m h
      obtain ⟨d, hd, rfl⟩ := exists_digitChar (h _ List.mem_cons_self)
      rw [Nat.ofDigitChars_cons_digitChar_of_lt_ten hd, ← ih _ fun c hc => h c (.tail _ hc),
        List.foldl_cons, digitOf_digitChar hd, Option.getD_some]
  rw [value, hvalue _ _ hall, Nat.ofDigitChars_ten_toDigits]

/-- `n` with `w` digits. -/
def padded : ℕ → ℕ → List Char
  | 0, _ => []
  | w + 1, n => padded w (n / 10) ++ [(n % 10).digitChar]

@[simp] theorem length_padded (w n : ℕ) : (padded w n).length = w := by
  induction w generalizing n with
  | zero => rfl
  | succ w ih => simp [padded, ih]

theorem isDigit_of_mem_padded {w n : ℕ} {c : Char} (h : c ∈ padded w n) : c.isDigit = true := by
  induction w generalizing n with
  | zero => simp [padded] at h
  | succ w ih =>
    rw [padded, List.mem_append, List.mem_singleton] at h
    rcases h with h | rfl
    · exact ih h
    · rw [Nat.isDigit_digitChar, decide_eq_true_eq]
      exact Nat.mod_lt n (by decide)

theorem value_padded {w n : ℕ} (h : n < 10 ^ w) : value (padded w n) = n := by
  induction w generalizing n with
  | zero =>
    rw [pow_zero] at h
    rw [padded, value_nil]
    omega
  | succ w ih =>
    have hdigit : n % 10 < 10 := Nat.mod_lt n (by decide)
    rw [padded, value_concat, ih (by rw [pow_succ] at h; omega), digitOf_digitChar hdigit,
      Option.getD_some]
    omega

/-- A text of ASCII digits is how its value is written. -/
theorem padded_value {ds : List Char} (hascii : ∀ c ∈ ds, c.toNat < 128)
    (hdecimal : ∀ c ∈ ds, isDecimal c = true) : padded ds.length (value ds) = ds := by
  induction ds using List.reverseRecOn with
  | nil => rfl
  | append_singleton ds c ih =>
    obtain ⟨d, hd⟩ := Option.isSome_iff_exists.mp (hdecimal c (by simp))
    have hlt := digitOf_lt hd
    have hdiv : (10 * value ds + d) / 10 = value ds := by omega
    have hmod : (10 * value ds + d) % 10 = d := by omega
    rw [value_concat, List.length_append, List.length_singleton, padded, hd, Option.getD_some, hdiv,
      hmod, ih (fun c hc => hascii c (by simp [hc])) (fun c hc => hdecimal c (by simp [hc])),
      ← eq_digitChar (hascii c (by simp)) hd]

/-! ## Decimals -/

/-- The digits of `r / den` after the point, by long division, `fuel` of them at most. -/
def fraction (den : ℕ) : ℕ → ℕ → List Char
  | 0, _ => []
  | fuel + 1, r =>
    if r = 0 then [] else (10 * r / den).digitChar :: fraction den fuel (10 * r % den)

/-- A decimal in full; a division that terminates does so within `q.den` digits. -/
def fixedPoint (q : ℚ) : List Char :=
  let digits := fraction q.den q.den (q.num.natAbs % q.den)
  (if q < 0 then ['-'] else []) ++ Nat.toDigits 10 (q.num.natAbs / q.den) ++
    if digits.isEmpty then [] else '.' :: digits

/-- The value of a numeral without a sign. -/
def read (s : List Char) : Option ℚ :=
  let whole := s.takeWhile (· != '.')
  let digits := (s.dropWhile (· != '.')).tail
  if !whole.isEmpty && (whole ++ digits).all isDecimal then
    some ((value (whole ++ digits) : ℚ) / 10 ^ digits.length)
  else none

section Fraction

variable {den fuel r : ℕ}

theorem fraction_digit_lt (hr : r < den) : 10 * r / den < 10 := by
  rw [Nat.div_lt_iff_lt_mul (by omega)]
  omega

/-- A step of a division that terminates within the fuel leaves one that does. -/
theorem dvd_fraction_rest (hdvd : den ∣ r * 10 ^ (fuel + 1)) :
    den ∣ 10 * r % den * 10 ^ fuel := by
  have hsplit : r * 10 ^ (fuel + 1) =
      den * (10 * r / den * 10 ^ fuel) + 10 * r % den * 10 ^ fuel := by
    rw [← mul_assoc, ← add_mul, Nat.div_add_mod]
    ring
  rw [hsplit] at hdvd
  exact (Nat.dvd_add_right (Nat.dvd_mul_right _ _)).mp hdvd

theorem eq_zero_of_dvd_of_fuel (hr : r < den) (hdvd : den ∣ r * 10 ^ 0) : r = 0 :=
  Nat.eq_zero_of_dvd_of_lt (by simpa using hdvd) hr

/-- Long division that terminates within the fuel gives the whole of the quotient. -/
theorem value_fraction (hr : r < den) (hdvd : den ∣ r * 10 ^ fuel) :
    value (fraction den fuel r) * den = r * 10 ^ (fraction den fuel r).length := by
  induction fuel generalizing r with
  | zero => simp [fraction, eq_zero_of_dvd_of_fuel hr hdvd]
  | succ fuel ih =>
    rw [fraction]
    split_ifs with hzero
    · simp [hzero]
    · have hind := ih (Nat.mod_lt _ (by omega)) (dvd_fraction_rest hdvd)
      have hcons : ∀ ds, value ((10 * r / den).digitChar :: ds) =
          10 * r / den * 10 ^ ds.length + value ds := by
        intro ds
        have happend := value_append [(10 * r / den).digitChar] ds
        simpa [value, fraction_digit_lt hr] using happend
      calc value ((10 * r / den).digitChar :: fraction den fuel (10 * r % den)) * den
          = (den * (10 * r / den) + 10 * r % den) *
              10 ^ (fraction den fuel (10 * r % den)).length := by
            rw [hcons, add_mul, hind]
            ring
        _ = _ := by
            rw [Nat.div_add_mod, List.length_cons]
            ring

/-- Its last digit is not a zero: the division stops as soon as nothing is left. -/
theorem getLast?_fraction_ne (hr : r < den) (hdvd : den ∣ r * 10 ^ fuel) :
    ∀ c ∈ (fraction den fuel r).getLast?, c ≠ '0' := by
  induction fuel generalizing r with
  | zero => simp [fraction]
  | succ fuel ih =>
    rw [fraction]
    split_ifs with hzero
    · simp
    · have hrest := dvd_fraction_rest hdvd
      have hind := ih (Nat.mod_lt _ (by omega)) hrest
      cases htail : fraction den fuel (10 * r % den) with
      | cons c ds =>
        rw [htail] at hind
        rw [List.getLast?_cons_cons]
        exact hind
      | nil =>
        have hmod : 10 * r % den = 0 := by
          cases fuel with
          | zero => exact eq_zero_of_dvd_of_fuel (Nat.mod_lt _ (by omega)) hrest
          | succ fuel =>
            by_contra hne
            rw [fraction, if_neg hne] at htail
            cases htail
        have hle := Nat.le_of_dvd (by omega) (Nat.dvd_of_mod_eq_zero hmod)
        have hpos := Nat.div_pos hle (by omega)
        simp only [List.getLast?_singleton, Option.mem_some_iff, forall_eq', ne_eq,
          Nat.digitChar_eq_zero]
        omega

theorem isDigit_of_mem_fraction (hr : r < den) {c : Char} (h : c ∈ fraction den fuel r) :
    c.isDigit = true := by
  induction fuel generalizing r with
  | zero => simp [fraction] at h
  | succ fuel ih =>
    rw [fraction] at h
    split_ifs at h with hzero
    · simp at h
    · rcases List.mem_cons.mp h with rfl | h
      · rw [Nat.isDigit_digitChar, decide_eq_true_eq]
        exact fraction_digit_lt hr
      · exact ih (Nat.mod_lt _ (by omega)) h

end Fraction

/-! ## Numerals of finite decimals -/

/-- A denominator that divides a power of ten divides the power with itself as the exponent. -/
theorem dvd_ten_pow_self {n k : ℕ} (h : n ∣ 10 ^ k) : n ∣ 10 ^ n := by
  have hn : n ≠ 0 := by
    rintro rfl
    simp at h
  refine (Nat.factorization_le_iff_dvd hn (pow_ne_zero _ (by decide))).mp fun p => ?_
  have hle := (Nat.factorization_le_iff_dvd hn (pow_ne_zero _ (by decide))).mpr h p
  have hlt := Nat.factorization_lt p hn
  rw [Nat.factorization_pow, Finsupp.smul_apply, smul_eq_mul] at hle ⊢
  rcases Nat.eq_zero_or_pos (Nat.factorization 10 p) with hten | hten
  · rw [hten, Nat.mul_zero] at hle
    omega
  · exact hlt.le.trans (Nat.le_mul_of_pos_right n hten)

section Numeral

variable {q : ℚ} {k : ℕ}

/-- The fraction digits of a decimal. -/
def fractionOf (q : ℚ) : List Char := fraction q.den q.den (q.num.natAbs % q.den)

theorem fixedPoint_eq (hq : 0 ≤ q) : fixedPoint q = Nat.toDigits 10 (q.num.natAbs / q.den) ++
    if (fractionOf q).isEmpty then [] else '.' :: fractionOf q := by
  simp [fixedPoint, fractionOf, not_lt.mpr hq]

/-- The fraction of a finite decimal is found whole. -/
theorem dvd_fractionOf (hden : q.den ∣ 10 ^ k) :
    q.den ∣ q.num.natAbs % q.den * 10 ^ q.den :=
  (dvd_ten_pow_self hden).mul_left _

theorem isDigit_of_mem_fractionOf {c : Char} (h : c ∈ fractionOf q) : c.isDigit = true :=
  isDigit_of_mem_fraction (Nat.mod_lt _ q.den_pos) h

/-- A numeral is made of digits and the point. -/
theorem isDigit_or_eq_of_mem_fixedPoint (hq : 0 ≤ q) {c : Char} (h : c ∈ fixedPoint q) :
    c.isDigit = true ∨ c = '.' := by
  rw [fixedPoint_eq hq, List.mem_append] at h
  rcases h with h | h
  · exact Or.inl (Nat.isDigit_of_mem_toDigits (by decide) (by decide) h)
  · split_ifs at h with hempty
    · simp at h
    · rcases List.mem_cons.mp h with rfl | h
      · exact Or.inr rfl
      · exact Or.inl (isDigit_of_mem_fractionOf h)

/-- A numeral with a point does not end in a zero. -/
theorem exists_getLast?_fixedPoint (hq : 0 ≤ q) (hden : q.den ∣ 10 ^ k)
    (hpoint : '.' ∈ fixedPoint q) :
    ∃ c, (fixedPoint q).getLast? = some c ∧ c.isDigit = true ∧ c ≠ '0' := by
  rw [fixedPoint_eq hq] at hpoint ⊢
  have hne : fractionOf q ≠ [] := by
    intro hnil
    rw [hnil, List.isEmpty_nil, if_pos rfl, List.append_nil] at hpoint
    exact absurd (Nat.isDigit_of_mem_toDigits (by decide) (by decide) hpoint) (by decide)
  obtain ⟨c, hc⟩ := Option.ne_none_iff_exists'.mp (mt List.getLast?_eq_none_iff.mp hne)
  refine ⟨c, ?_, isDigit_of_mem_fractionOf (List.mem_of_getLast? hc),
    getLast?_fraction_ne (Nat.mod_lt _ q.den_pos) (dvd_fractionOf hden) c hc⟩
  rw [if_neg (by simpa using hne), List.getLast?_append, List.getLast?_cons, hc]
  rfl

/-- The value of a numeral, from its digits before and after the point. -/
theorem read_numeral {whole digits : List Char} (hne : whole ≠ [])
    (hdigits : ∀ c ∈ whole ++ digits, c.isDigit = true) :
    read (whole ++ if digits.isEmpty then [] else '.' :: digits) =
      some ((value (whole ++ digits) : ℚ) / 10 ^ digits.length) := by
  have hpoint : ∀ c ∈ whole, (c != '.') = true := by
    intro c hc
    have := hdigits c (List.mem_append_left _ hc)
    rw [bne_iff_ne]
    rintro rfl
    exact absurd this (by decide)
  have htake : (whole ++ if digits.isEmpty then [] else '.' :: digits).takeWhile (· != '.') =
      whole := by
    rw [List.takeWhile_append_of_pos hpoint]
    split_ifs <;> simp
  have hdrop : ((whole ++ if digits.isEmpty then [] else '.' :: digits).dropWhile
      (· != '.')).tail = digits := by
    rw [List.dropWhile_append_of_pos hpoint]
    split_ifs with hempty
    · simpa using (List.isEmpty_iff.mp hempty).symm
    · simp
  have hall : (whole ++ digits).all isDecimal = true :=
    List.all_eq_true.mpr fun c hc => isDecimal_of_isDigit (hdigits c hc)
  simp only [read, htake, hdrop]
  rw [hall, Bool.and_true, if_pos]
  simpa using hne

/-- **A finite decimal reads back from its numeral.** -/
theorem read_fixedPoint (hq : 0 ≤ q) (hden : q.den ∣ 10 ^ k) :
    read (fixedPoint q) = some q := by
  have hdigits : ∀ c ∈ Nat.toDigits 10 (q.num.natAbs / q.den) ++ fractionOf q,
      c.isDigit = true := by
    intro c hc
    rcases List.mem_append.mp hc with hc | hc
    · exact Nat.isDigit_of_mem_toDigits (by decide) (by decide) hc
    · exact isDigit_of_mem_fractionOf hc
  rw [fixedPoint_eq hq, read_numeral Nat.toDigits_ne_nil hdigits, value_append, value_toDigits,
    Option.some.injEq, div_eq_iff (pow_ne_zero _ (by decide))]
  have hfraction := value_fraction (Nat.mod_lt _ q.den_pos) (dvd_fractionOf hden)
  have hdiv := Nat.div_add_mod q.num.natAbs q.den
  have hnum : (q.num.natAbs : ℚ) = q * q.den := by
    rw [Rat.mul_den_eq_num, Nat.cast_natAbs, abs_of_nonneg (Rat.num_nonneg.mpr hq)]
  have hden0 : (q.den : ℚ) ≠ 0 := by exact_mod_cast q.den_nz
  have hnat : (q.num.natAbs / q.den * 10 ^ (fractionOf q).length + value (fractionOf q)) * q.den =
      q.num.natAbs * 10 ^ (fractionOf q).length := by
    calc _ = (q.den * (q.num.natAbs / q.den) + q.num.natAbs % q.den) *
            10 ^ (fractionOf q).length := by
          rw [add_mul, fractionOf, hfraction]
          ring
      _ = _ := by rw [hdiv]
  have hrat : ((q.num.natAbs / q.den * 10 ^ (fractionOf q).length + value (fractionOf q) : ℕ) : ℚ) *
      q.den = q * q.den * 10 ^ (fractionOf q).length := by
    rw [← hnum]
    exact_mod_cast hnat
  refine mul_right_cancel₀ hden0 ?_
  rw [hrat]
  ring

end Numeral

end TtLedger.Numeral
