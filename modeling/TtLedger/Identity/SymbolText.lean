import TtLedger.Identity.Contracts

/-!
# The text of a canonical symbol

No part of the symbol of a contract has a bar, so the parts are what the text splits into at the
bars (`splitOn_str`). Those of an option read back as its root, expiry, strike and right
(`readFields_str`): a strike is a whole number of mills, whose numeral ends without a zero, and the
digits of an expiry have fixed widths. Equal texts are hence those of one option, or of futures with
one root (`str_symbol_eq_iff`).
-/

namespace TtLedger

open Numeral

/-! ## Strikes -/

/-- The numeral of a finite decimal has no zeros to strip. -/
theorem formatStrike_eq {q : ℚ} {k : ℕ} (hq : 0 ≤ q) (hden : q.den ∣ 10 ^ k) :
    formatStrike q = fixedPoint q := by
  unfold formatStrike
  simp only []
  split_ifs with hpoint
  · obtain ⟨c, hlast, hdigit, hne⟩ :=
      exists_getLast?_fixedPoint hq hden (List.contains_iff_mem.mp hpoint)
    have hkeep : ∀ {p : Char → Bool}, p c = false →
        (fixedPoint q).rdropWhile p = fixedPoint q := by
      intro p hp
      refine List.rdropWhile_eq_self_iff.mpr fun hl => ?_
      rw [List.getLast?_eq_some_getLast hl] at hlast
      rw [Option.some.inj hlast, hp]
      exact Bool.false_ne_true
    rw [hkeep (by simpa using hne), hkeep]
    rw [decide_eq_false_iff_not]
    rintro rfl
    exact absurd hdigit (by decide)
  · rfl

section Mills

variable (mills : ℕ)

theorem mills_nonneg : 0 ≤ (mills : ℚ) / 1000 := div_nonneg (Nat.cast_nonneg mills) (by decide)

theorem den_mills_dvd : ((mills : ℚ) / 1000).den ∣ 10 ^ 3 := by
  have hdvd := Rat.den_dvd (mills : ℤ) 1000
  rw [Rat.divInt_eq_div, Int.cast_natCast, Int.cast_ofNat] at hdvd
  exact Int.natCast_dvd_natCast.mp hdvd

/-- **A strike reads back from its text.** -/
theorem read_formatStrike :
    Numeral.read (formatStrike ((mills : ℚ) / 1000)) = some ((mills : ℚ) / 1000) := by
  rw [formatStrike_eq (mills_nonneg mills) (den_mills_dvd mills),
    read_fixedPoint (mills_nonneg mills) (den_mills_dvd mills)]

end Mills

/-! ## Expiries -/

/-- The date that eight digits write. -/
def readDate (text : List Char) : Except String CalendarDate :=
  date (value (text.take 4)) (value ((text.drop 4).take 2)) (value (text.drop 6))

theorem daysInMonth_le (year month : ℕ) : daysInMonth year month ≤ 31 := by
  unfold daysInMonth
  split_ifs <;> decide

/-- **An expiry reads back from its text.** -/
theorem readDate_strftime (d : CalendarDate) : readDate d.strftime = .ok d := by
  have hyear : d.year < 10 ^ 4 := Nat.lt_succ_of_le d.year_valid.2
  have hmonth : d.month < 10 ^ 2 := lt_of_le_of_lt d.month_valid.2 (by decide)
  have hday : d.day < 10 ^ 2 :=
    lt_of_le_of_lt (d.day_valid.2.trans (daysInMonth_le _ _)) (by decide)
  have h4 : d.strftime.take 4 = padded 4 d.year := by
    rw [CalendarDate.strftime, List.append_assoc, List.take_left' (length_padded 4 _)]
  have h2 : (d.strftime.drop 4).take 2 = padded 2 d.month := by
    rw [CalendarDate.strftime, List.append_assoc, List.drop_left' (length_padded 4 _),
      List.take_left' (length_padded 2 _)]
  have h6 : d.strftime.drop 6 = padded 2 d.day := by
    rw [CalendarDate.strftime, List.drop_left' (by simp)]
  rw [readDate, h4, h2, h6, value_padded hyear, value_padded hmonth, value_padded hday]
  exact date_eq_ok_iff.mpr ⟨rfl, rfl, rfl⟩

/-! ## Parts -/

theorem isDigit_of_mem_strftime {d : CalendarDate} {c : Char} (h : c ∈ d.strftime) :
    c.isDigit = true := by
  rw [CalendarDate.strftime, List.mem_append, List.mem_append] at h
  rcases h with (h | h) | h <;> exact isDigit_of_mem_padded h

theorem splitOn_str {cs : CanonicalSymbol} (h : ∀ part ∈ cs.parts, '|' ∉ part) :
    cs.str.toList.splitOn '|' = cs.parts := by
  rw [CanonicalSymbol.str, String.toList_ofList]
  exact List.splitOn_intercalate '|' h (by simp [CanonicalSymbol.parts])

/-! ## Contracts -/

/-- The root of a future. -/
def Contract.futureRoot : Contract → Option (List Char)
  | .option _ _ _ _ => none
  | .future root _ _ => some root

/-- What holds of every contract that a vendor symbol denotes. -/
def Contract.WellFormed : Contract → Prop
  | .option root expiry strike right =>
    IsOccRoot root ∧ (2000 ≤ expiry.year ∧ expiry.year ≤ 2099) ∧
      (∃ mills : ℕ, mills < 10 ^ 8 ∧ strike = (mills : ℚ) / 1000) ∧ (right = 'C' ∨ right = 'P')
  | .future root _ _ => root ≠ [] ∧ ∀ c ∈ root, isRootChar c = true

theorem Denotes.wellFormed {instrumentType : Option String} {vendorSymbol : String} {c : Contract}
    (h : Denotes instrumentType vendorSymbol c) : c.WellFormed := by
  cases h with
  | @option m _ _ hspells hyear _ _ =>
    have hformed := hspells.1
    have hyy := value_lt m.yy
    have hstrike := value_lt m.strike
    rw [hformed.yy.1] at hyy
    rw [hformed.strike.1] at hstrike
    exact ⟨hformed.root, by omega, ⟨_, hstrike, rfl⟩, hformed.cp⟩
  | future _ hspells => exact hspells.1.root

theorem bar_notMem_of_isRootChar {root : List Char} (h : ∀ c ∈ root, isRootChar c = true) :
    '|' ∉ root := fun hbar => absurd (h _ hbar) (by decide)

theorem bar_notMem_of_isDigit {ds : List Char} (h : ∀ c ∈ ds, c.isDigit = true ∨ c = '.') :
    '|' ∉ ds := fun hbar => absurd (h _ hbar) (by decide)

/-- No part of the symbol of a contract has a bar. -/
theorem bar_notMem_parts {indexOptionRoots : IndexOptionRoots} {c : Contract} (h : c.WellFormed) :
    ∀ part ∈ (c.symbol indexOptionRoots).parts, '|' ∉ part := by
  cases c with
  | option root expiry strike right =>
    obtain ⟨hroot, -, ⟨mills, -, rfl⟩, hright⟩ := h
    have hproduct : ∀ b : Bool, '|' ∉ (if b then "OI" else "OS").toList := by decide
    have hstrike : '|' ∉ formatStrike ((mills : ℚ) / 1000) := by
      rw [formatStrike_eq (mills_nonneg mills) (den_mills_dvd mills)]
      exact bar_notMem_of_isDigit fun c hc =>
        isDigit_or_eq_of_mem_fixedPoint (mills_nonneg mills) hc
    have hexpiry : '|' ∉ expiry.strftime :=
      bar_notMem_of_isDigit fun c hc => Or.inl (isDigit_of_mem_strftime hc)
    have hcp : '|' ∉ [right] := by
      rcases hright with rfl | rfl <;> decide
    have hunderlying := bar_notMem_of_isRootChar (isRootChar_of_isOccRoot hroot)
    simp only [CanonicalSymbol.parts, Contract.symbol, String.toList_ofList, Option.map_some,
      Option.getD_some, List.cons_append, List.nil_append, List.forall_mem_cons]
    exact ⟨hproduct _, hunderlying, hexpiry, hstrike, hcp, List.forall_mem_nil _⟩
  | future root month year =>
    simp only [CanonicalSymbol.parts, Contract.symbol, String.toList_ofList, List.append_nil,
      List.forall_mem_cons]
    exact ⟨by decide, List.not_mem_cons_of_ne_of_not_mem (by decide) (bar_notMem_of_isRootChar h.2),
      List.forall_mem_nil _⟩

/-! ## Reading a text back -/

/-- The fields of an option that its text gives back. -/
structure OptionFields where
  underlying : List Char
  expiry : CalendarDate
  strike : ℚ
  optionType : List Char
  deriving DecidableEq

/-- Split a text at its bars and read the fields of an option. -/
def readFields (text : String) : Option OptionFields :=
  match text.toList.splitOn '|' with
  | [_, underlying, expiry, strike, optionType] =>
    match (readDate expiry).toOption, Numeral.read strike with
    | some expiry, some strike => some { underlying, expiry, strike, optionType }
    | _, _ => none
  | _ => none

/-- **The fields of an option read back from its text.** -/
theorem readFields_str {indexOptionRoots : IndexOptionRoots} {root : List Char}
    {expiry : CalendarDate} {strike : ℚ} {right : Char}
    (h : (Contract.option root expiry strike right).WellFormed) :
    readFields ((Contract.option root expiry strike right).symbol indexOptionRoots).str =
      some { underlying := root, expiry, strike, optionType := [right] } := by
  rw [readFields, splitOn_str (bar_notMem_parts h)]
  obtain ⟨-, -, ⟨mills, -, rfl⟩, -⟩ := h
  simp only [CanonicalSymbol.parts, Contract.symbol, String.toList_ofList, Option.map_some,
    Option.getD_some, List.cons_append, List.nil_append, readDate_strftime, read_formatStrike]
  rfl

/-- **Equal texts** are those of one option, or of futures with one root. -/
theorem str_symbol_eq_iff {indexOptionRoots : IndexOptionRoots} {c c' : Contract}
    (h : c.WellFormed) (h' : c'.WellFormed) :
    (c.symbol indexOptionRoots).str = (c'.symbol indexOptionRoots).str ↔
      c = c' ∨ ∃ root, c.futureRoot = some root ∧ c'.futureRoot = some root := by
  constructor
  · intro heq
    have hparts : (c.symbol indexOptionRoots).parts = (c'.symbol indexOptionRoots).parts := by
      rw [← splitOn_str (bar_notMem_parts h), heq, splitOn_str (bar_notMem_parts h')]
    cases c with
    | option root expiry strike right =>
      cases c' with
      | option root' expiry' strike' right' =>
        have hread := congrArg readFields heq
        rw [readFields_str h, readFields_str h'] at hread
        simp only [Option.some.injEq, OptionFields.mk.injEq, List.cons.injEq, and_true] at hread
        obtain ⟨rfl, rfl, rfl, rfl⟩ := hread
        exact Or.inl rfl
      | future root' month' year' => simp [CanonicalSymbol.parts, Contract.symbol] at hparts
    | future root month year =>
      cases c' with
      | option root' expiry' strike' right' =>
        simp [CanonicalSymbol.parts, Contract.symbol] at hparts
      | future root' month' year' =>
        have hroot : root = root' := by
          simpa [CanonicalSymbol.parts, Contract.symbol] using hparts
        exact Or.inr ⟨root, rfl, congrArg some hroot.symm⟩
  · rintro (rfl | ⟨root, hc, hc'⟩)
    · rfl
    · cases c <;> cases c' <;> simp_all [Contract.futureRoot, Contract.symbol]

end TtLedger
