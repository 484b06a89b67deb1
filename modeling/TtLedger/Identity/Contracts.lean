import TtLedger.Identity.Canonical

/-!
# The contracts of vendor symbols

What contract the vendor symbol of an option or a future denotes (`Denotes`) is said here of its
text, without a parser: a root, a run of spaces and a suffix of fixed width, or a root, a month code
and a year. The suffix pins the split, so a symbol denotes one contract at most
(`Denotes.unique`), the first success of a pattern is the only one, and `fromVendor` accepts the
symbols that denote a contract and gives the symbol of the contract (`fromVendor_eq_ok_iff`).
-/

namespace TtLedger

open Numeral

/-! ## Texts of the two forms -/

/-- The root of an option: a capital letter, then at most five capitals or digits. -/
def IsOccRoot (root : List Char) : Prop :=
  ∃ c cs, root = c :: cs ∧ c.isUpper = true ∧ cs.length ≤ 5 ∧ ∀ d ∈ cs, isRootChar d = true

/-- A text of `w` decimal digits. -/
def IsDigits (w : ℕ) (ds : List Char) : Prop := ds.length = w ∧ ∀ c ∈ ds, isDecimal c = true

/-- A text of spaces. -/
def IsSpaces (pad : List Char) : Prop := ∀ c ∈ pad, Text.isSpace c = true

instance (w : ℕ) (ds : List Char) : Decidable (IsDigits w ds) :=
  decidable_of_iff (ds.length = w ∧ ds.all isDecimal = true) (and_congr_right' List.all_eq_true)

instance (pad : List Char) : Decidable (IsSpaces pad) :=
  decidable_of_iff (pad.all Text.isSpace = true) List.all_eq_true

namespace OccMatch

/-- The groups are of the OCC form. -/
structure Formed (m : OccMatch) : Prop where
  root : IsOccRoot m.root
  yy : IsDigits 2 m.yy
  mm : IsDigits 2 m.mm
  dd : IsDigits 2 m.dd
  cp : m.cp = 'C' ∨ m.cp = 'P'
  strike : IsDigits 8 m.strike

/-- The groups after the root. -/
def suffix (m : OccMatch) : List Char := m.yy ++ (m.mm ++ (m.dd ++ m.cp :: m.strike))

/-- The text of the groups, the root padded. -/
def text (m : OccMatch) (pad : List Char) : List Char := m.root ++ (pad ++ m.suffix)

/-- The groups are those of a text: a root, spaces and the suffix. -/
def Spells (m : OccMatch) (s : List Char) : Prop :=
  m.Formed ∧ ∃ pad, IsSpaces pad ∧ s = m.text pad

end OccMatch

namespace FutureMatch

/-- The groups are of the form of a future. -/
structure Formed (m : FutureMatch) : Prop where
  root : m.root ≠ [] ∧ ∀ c ∈ m.root, isRootChar c = true
  month : futureMonthCodes.contains m.month = true
  year : 1 ≤ m.year.length ∧ m.year.length ≤ 2 ∧ ∀ c ∈ m.year, isDecimal c = true

/-- The text of the groups. -/
def text (m : FutureMatch) : List Char := m.root ++ m.month :: m.year

/-- The groups are those of a text: a root, a month code and a year. -/
def Spells (m : FutureMatch) (s : List Char) : Prop := m.Formed ∧ s = m.text

end FutureMatch

/-! ## Successes of the patterns -/

theorem mem_occPattern {m : OccMatch} {s rest : List Char} :
    (m, rest) ∈ occPattern s ↔
      (rest = [] ∨ rest = ['\n']) ∧ ∃ t, m.Spells t ∧ s = t ++ rest := by
  simp only [occPattern, Matcher.mem_bind, Matcher.mem_one, ↓Matcher.mem_rep_self,
    Matcher.mem_rep, Matcher.mem_atEnd, Matcher.mem_pure]
  constructor
  · rintro ⟨c, _, ⟨rfl, hc⟩, cs, _, ⟨rfl, -, hlen, hcs⟩, pad, _, ⟨rfl, -, -, hpad⟩,
      yy, _, ⟨rfl, hyy⟩, mm, _, ⟨rfl, hmm⟩, dd, _, ⟨rfl, hdd⟩, cp, _, ⟨rfl, hcp⟩,
      strike, _, ⟨rfl, hstrike⟩, _, _, ⟨rfl, hend⟩, rfl, rfl⟩
    have hformed : OccMatch.Formed ⟨c :: cs, yy, mm, dd, cp, strike⟩ :=
      ⟨⟨c, cs, rfl, hc, hlen 5 rfl, hcs⟩, hyy, hmm, hdd, by simpa using hcp, hstrike⟩
    refine ⟨hend, _, ⟨hformed, pad, hpad, rfl⟩, ?_⟩
    simp [OccMatch.text, OccMatch.suffix]
  · rintro ⟨hend, _, ⟨⟨⟨c, cs, hroot, hc, hlen, hcs⟩, hyy, hmm, hdd, hcp, hstrike⟩, pad, hpad, rfl⟩,
      rfl⟩
    obtain ⟨root, yy, mm, dd, cp, strike⟩ := m
    obtain rfl : root = c :: cs := hroot
    simp only [OccMatch.text, OccMatch.suffix, List.append_assoc, List.cons_append]
    exact ⟨c, _, ⟨rfl, hc⟩, cs, _, ⟨rfl, by simp, by simpa using hlen, hcs⟩, pad, _,
      ⟨rfl, by simp, by simp, hpad⟩, yy, _, ⟨rfl, hyy⟩, mm, _, ⟨rfl, hmm⟩, dd, _, ⟨rfl, hdd⟩, cp, _,
      ⟨rfl, by simpa using hcp⟩, strike, _, ⟨rfl, hstrike⟩, (), _, ⟨rfl, hend⟩, rfl, rfl⟩

theorem mem_futurePattern {m : FutureMatch} {s rest : List Char} :
    (m, rest) ∈ futurePattern s ↔
      (rest = [] ∨ rest = ['\n']) ∧ ∃ t, m.Spells t ∧ s = t ++ rest := by
  simp only [futurePattern, Matcher.mem_bind, Matcher.mem_one, Matcher.mem_rep, Matcher.mem_atEnd,
    Matcher.mem_pure]
  constructor
  · rintro ⟨root, _, ⟨rfl, hlen, -, hroot⟩, month, _, ⟨rfl, hmonth⟩,
      year, _, ⟨rfl, hlow, hhigh, hyear⟩, _, _, ⟨rfl, hend⟩, rfl, rfl⟩
    have hformed : FutureMatch.Formed ⟨root, month, year⟩ :=
      ⟨⟨List.length_pos_iff.mp hlen, hroot⟩, hmonth, hlow, hhigh 2 rfl, hyear⟩
    refine ⟨hend, _, ⟨hformed, rfl⟩, ?_⟩
    simp [FutureMatch.text]
  · rintro ⟨hend, _, ⟨⟨⟨hne, hroot⟩, hmonth, hlow, hhigh, hyear⟩, rfl⟩, rfl⟩
    simp only [FutureMatch.text, List.append_assoc, List.cons_append]
    exact ⟨m.root, _, ⟨rfl, List.length_pos_iff.mpr hne, by simp, hroot⟩, m.month, _, ⟨rfl, hmonth⟩,
      m.year, _, ⟨rfl, hlow, by simpa using hhigh, hyear⟩, (), _, ⟨rfl, hend⟩, rfl, rfl⟩

/-! ## The split is unique -/

theorem isSpace_of_isRootChar {c : Char} (h : isRootChar c = true) : Text.isSpace c = false := by
  have hcode : 48 ≤ c.toNat ∧ c.toNat ≤ 90 := by
    rw [isRootChar, Bool.or_eq_true] at h
    rcases h with hupper | hdigit
    · have hletter : 'A'.val ≤ c.val ∧ c.val ≤ 'Z'.val := of_decide_eq_true hupper
      exact ⟨le_trans (by decide) (show 65 ≤ c.toNat from hletter.1), hletter.2⟩
    · obtain ⟨d, hd, rfl⟩ := exists_digitChar hdigit
      rw [Nat.toNat_digitChar_of_lt_ten hd]
      omega
  simp only [Text.isSpace, Bool.or_eq_false_iff, Bool.and_eq_false_iff, decide_eq_false_iff_not,
    List.mem_cons, List.not_mem_nil, or_false]
  omega

theorem isRootChar_of_isOccRoot {root : List Char} (h : IsOccRoot root) :
    ∀ c ∈ root, isRootChar c = true := by
  obtain ⟨c, cs, rfl, hc, -, hcs⟩ := h
  exact List.forall_mem_cons.mpr ⟨by simp [isRootChar, hc], hcs⟩

theorem isDecimal_of_mem_futureMonthCodes {c : Char} (h : futureMonthCodes.contains c = true) :
    isDecimal c = false := by
  have hall : (futureMonthCodes.all fun c => !isDecimal c) = true := by decide
  rw [List.contains_iff_mem] at h
  simpa using List.all_eq_true.mp hall c h

namespace OccMatch

variable {m m' : OccMatch} {s : List Char}

theorem Formed.length_suffix (h : m.Formed) : m.suffix.length = 15 := by
  simp [suffix, h.yy.1, h.mm.1, h.dd.1, h.strike.1]

/-- The suffix has fixed widths, and no character of a root is a space. -/
theorem Spells.unique (h : m.Spells s) (h' : m'.Spells s) : m = m' := by
  obtain ⟨h, pad, hpad, rfl⟩ := h
  obtain ⟨h', pad', hpad', heq⟩ := h'
  rw [text, text, ← List.append_assoc, ← List.append_assoc] at heq
  obtain ⟨hfront, hsuffix⟩ := List.append_inj' heq (by rw [h.length_suffix, h'.length_suffix])
  have hhead : ∀ {pad : List Char}, IsSpaces pad → ∀ c ∈ pad.head?, (!Text.isSpace c) = false :=
    fun hpad c hc => by rw [hpad c (List.mem_of_head? hc), Bool.not_true]
  have hclass : ∀ {root : List Char}, IsOccRoot root → ∀ c ∈ root, (!Text.isSpace c) = true :=
    fun hroot c hc => by
      rw [isSpace_of_isRootChar (isRootChar_of_isOccRoot hroot c hc), Bool.not_false]
  obtain ⟨hroot, -⟩ := Matcher.split_unique (hclass h.root) (hclass h'.root) (hhead hpad)
    (hhead hpad') hfront
  rw [suffix, suffix] at hsuffix
  obtain ⟨hyy, hsuffix⟩ := List.append_inj hsuffix (h.yy.1.trans h'.yy.1.symm)
  obtain ⟨hmm, hsuffix⟩ := List.append_inj hsuffix (h.mm.1.trans h'.mm.1.symm)
  obtain ⟨hdd, hsuffix⟩ := List.append_inj hsuffix (h.dd.1.trans h'.dd.1.symm)
  obtain ⟨hcp, hstrike⟩ := List.cons.inj hsuffix
  obtain ⟨root, yy, mm, dd, cp, strike⟩ := m
  obtain ⟨root', yy', mm', dd', cp', strike'⟩ := m'
  simp_all

end OccMatch

/-- The year is the run of digits at the end, since a month code is not a digit. -/
theorem FutureMatch.Spells.unique {m m' : FutureMatch} {s : List Char} (h : m.Spells s)
    (h' : m'.Spells s) : m = m' := by
  obtain ⟨h, rfl⟩ := h
  obtain ⟨h', heq⟩ := h'
  have hreverse := congrArg List.reverse heq
  simp only [text, List.reverse_append, List.reverse_cons, List.append_assoc,
    List.singleton_append] at hreverse
  have hhead : ∀ {m : FutureMatch}, m.Formed →
      ∀ c ∈ (m.month :: m.root.reverse).head?, isDecimal c = false := by
    rintro m h c hc
    obtain rfl : m.month = c := by simpa using hc
    exact isDecimal_of_mem_futureMonthCodes h.month
  obtain ⟨hyear, hrest⟩ := Matcher.split_unique (p := isDecimal)
    (fun c hc => h.year.2.2 c (List.mem_reverse.mp hc))
    (fun c hc => h'.year.2.2 c (List.mem_reverse.mp hc)) (hhead h) (hhead h') hreverse
  obtain ⟨hmonth, hroot⟩ := List.cons.inj hrest
  obtain ⟨root, month, year⟩ := m
  obtain ⟨root', month', year'⟩ := m'
  simp_all

/-! ## What a pattern finds -/

section Stripped

variable {s rest : List Char}

/-- A text that does not end in a space ends with its match. -/
theorem eq_nil_of_newline {t : List Char} (hlast : ∀ c ∈ s.getLast?, Text.isSpace c = false)
    (hs : s = t ++ rest) (hrest : rest = [] ∨ rest = ['\n']) : rest = [] := by
  rcases hrest with rfl | rfl
  · rfl
  · rw [hs, List.getLast?_concat] at hlast
    exact absurd (hlast _ rfl) (by decide)

/-- A pattern whose successes spell the text up to its end finds the one value that spells it. -/
theorem first_eq_some_iff_of_spells {β : Type} {pattern : Matcher Char β}
    {Spells : β → List Char → Prop}
    (hmem : ∀ {b : β} {rest : List Char}, (b, rest) ∈ pattern s ↔
      (rest = [] ∨ rest = ['\n']) ∧ ∃ t, Spells b t ∧ s = t ++ rest)
    (hunique : ∀ {b b' : β}, Spells b s → Spells b' s → b = b')
    (hlast : ∀ c ∈ s.getLast?, Text.isSpace c = false) {b : β} :
    pattern.first s = some b ↔ Spells b s := by
  have hspells : ∀ {b : β} {rest : List Char}, (b, rest) ∈ pattern s → Spells b s := by
    intro b rest h
    obtain ⟨hrest, t, ht, hs⟩ := hmem.mp h
    obtain rfl := eq_nil_of_newline hlast hs hrest
    rwa [hs, List.append_nil]
  rw [Matcher.first_eq_some_iff fun b b' _ _ h h' => hunique (hspells h) (hspells h')]
  constructor
  · rintro ⟨rest, h⟩
    exact hspells h
  · intro h
    exact ⟨[], hmem.mpr ⟨Or.inl rfl, s, h, (List.append_nil s).symm⟩⟩

theorem first_occPattern_eq_some_iff {m : OccMatch}
    (hlast : ∀ c ∈ s.getLast?, Text.isSpace c = false) :
    occPattern.first s = some m ↔ m.Spells s :=
  first_eq_some_iff_of_spells mem_occPattern OccMatch.Spells.unique hlast

theorem first_futurePattern_eq_some_iff {m : FutureMatch}
    (hlast : ∀ c ∈ s.getLast?, Text.isSpace c = false) :
    futurePattern.first s = some m ↔ m.Spells s :=
  first_eq_some_iff_of_spells mem_futurePattern FutureMatch.Spells.unique hlast

end Stripped

/-! ## Contracts -/

/-- A contract that a vendor symbol can denote. -/
inductive Contract
  | option (root : List Char) (expiry : CalendarDate) (strike : ℚ) (right : Char)
  | future (root : List Char) (month : Char) (year : ℕ)
  deriving DecidableEq

/-- The contract that the symbol of an equity option or of a future denotes. -/
inductive Denotes (instrumentType : Option String) (vendorSymbol : String) : Contract → Prop
  | option {m : OccMatch} {expiry : CalendarDate}
      (hkind : CanonicalSymbol.instrumentKind instrumentType = "equity option".toList)
      (hspells : m.Spells (Text.strip vendorSymbol.toList))
      (hyear : expiry.year = 2000 + value m.yy) (hmonth : expiry.month = value m.mm)
      (hday : expiry.day = value m.dd) :
      Denotes instrumentType vendorSymbol
        (.option m.root expiry ((value m.strike : ℚ) / 1000) m.cp)
  | future {m : FutureMatch}
      (hkind : CanonicalSymbol.instrumentKind instrumentType = "future".toList)
      (hspells : m.Spells (Text.lstrip (· = '/') (Text.strip vendorSymbol.toList))) :
      Denotes instrumentType vendorSymbol (.future m.root m.month (value m.year))

/-- Vendor symbols of this type have one of the two forms. -/
def IsStructured (instrumentType : Option String) : Prop :=
  CanonicalSymbol.instrumentKind instrumentType = "equity option".toList ∨
    CanonicalSymbol.instrumentKind instrumentType = "future".toList

/-- The canonical symbol of a contract. -/
def Contract.symbol (indexOptionRoots : IndexOptionRoots) : Contract → CanonicalSymbol
  | .option root expiry strike right => {
      productType :=
        if isIndexRoot (String.ofList root) indexOptionRoots then "OI" else "OS"
      underlying := String.ofList root
      expiry := some expiry
      strike := some strike
      optionType := some (String.ofList [right]) }
  | .future root _ _ => { productType := "F", underlying := String.ofList ('/' :: root) }

theorem date_eq_ok_iff {year month day : ℕ} {d : CalendarDate} :
    date year month day = .ok d ↔ d.year = year ∧ d.month = month ∧ d.day = day := by
  unfold date
  constructor
  · intro h
    split_ifs at h
    obtain rfl := Except.ok.inj h
    exact ⟨rfl, rfl, rfl⟩
  · rintro ⟨rfl, rfl, rfl⟩
    rw [dif_pos d.year_valid, dif_pos d.month_valid, dif_pos d.day_valid]

namespace Denotes

variable {instrumentType : Option String} {vendorSymbol : String} {c c' : Contract}

/-- **A symbol denotes one contract at most.** -/
theorem unique (h : Denotes instrumentType vendorSymbol c)
    (h' : Denotes instrumentType vendorSymbol c') : c = c' := by
  cases h with
  | option hkind hspells hyear hmonth hday =>
    cases h' with
    | option hkind' hspells' hyear' hmonth' hday' =>
      obtain rfl := hspells.unique hspells'
      have hexpiry := CalendarDate.ext (hyear.trans hyear'.symm) (hmonth.trans hmonth'.symm)
        (hday.trans hday'.symm)
      rw [hexpiry]
    | future hkind' => exact absurd (hkind.symm.trans hkind') (by decide)
  | future hkind hspells =>
    cases h' with
    | option hkind' => exact absurd (hkind.symm.trans hkind') (by decide)
    | future hkind' hspells' =>
      obtain rfl := hspells.unique hspells'
      rfl

end Denotes

/-! ## What the parser accepts -/

namespace CanonicalSymbol

variable {indexOptionRoots : IndexOptionRoots} {instrumentType : Option String}
  {vendorSymbol : String} {cs : CanonicalSymbol}

theorem ofOccMatch_eq_ok_iff {m : OccMatch} : ofOccMatch indexOptionRoots m = .ok cs ↔
    ∃ expiry : CalendarDate, expiry.year = 2000 + value m.yy ∧ expiry.month = value m.mm ∧
      expiry.day = value m.dd ∧
      cs = (Contract.option m.root expiry ((value m.strike : ℚ) / 1000) m.cp).symbol
        indexOptionRoots := by
  rw [ofOccMatch]
  constructor
  · intro h
    cases hdate : date (2000 + value m.yy) (value m.mm) (value m.dd) with
    | error e =>
      rw [hdate] at h
      cases h
    | ok expiry =>
      rw [hdate] at h
      obtain ⟨hyear, hmonth, hday⟩ := date_eq_ok_iff.mp hdate
      exact ⟨expiry, hyear, hmonth, hday, (Except.ok.inj h).symm⟩
  · rintro ⟨expiry, hyear, hmonth, hday, rfl⟩
    rw [date_eq_ok_iff.mpr ⟨hyear, hmonth, hday⟩]
    rfl

theorem fromVendor_option_eq_ok_iff
    (hkind : instrumentKind instrumentType = "equity option".toList) :
    fromVendor indexOptionRoots vendorSymbol instrumentType = .ok cs ↔
      ∃ m, occPattern.first (Text.strip vendorSymbol.toList) = some m ∧
        ofOccMatch indexOptionRoots m = .ok cs := by
  simp only [fromVendor, hkind]
  rw [if_neg (by decide), if_neg (by decide), if_neg (by decide), if_pos trivial]
  cases occPattern.first (Text.strip vendorSymbol.toList) <;> simp

theorem fromVendor_future_eq_ok_iff (hkind : instrumentKind instrumentType = "future".toList) :
    fromVendor indexOptionRoots vendorSymbol instrumentType = .ok cs ↔
      ∃ m, futurePattern.first (Text.lstrip (· = '/') (Text.strip vendorSymbol.toList)) = some m ∧
        cs = (Contract.future m.root m.month (value m.year)).symbol indexOptionRoots := by
  simp only [fromVendor, hkind]
  rw [if_neg (by decide), if_neg (by decide), if_neg (by decide), if_neg (by decide),
    if_pos trivial]
  cases futurePattern.first (Text.lstrip (· = '/') (Text.strip vendorSymbol.toList)) <;>
    simp [Contract.symbol, eq_comm]

/-- **What the parser accepts**: the symbols of the two forms that denote a contract, each with the
symbol of the contract. -/
theorem fromVendor_eq_ok_iff (hstructured : IsStructured instrumentType) :
    fromVendor indexOptionRoots vendorSymbol instrumentType = .ok cs ↔
      ∃ c, Denotes instrumentType vendorSymbol c ∧ cs = c.symbol indexOptionRoots := by
  have hlast := Text.isSpace_getLast?_strip vendorSymbol.toList
  have hfuture : ∀ c ∈ (Text.lstrip (· = '/') (Text.strip vendorSymbol.toList)).getLast?,
      Text.isSpace c = false := fun c hc =>
    hlast c (Text.getLast?_of_lstrip hc)
  rcases hstructured with hkind | hkind
  · rw [fromVendor_option_eq_ok_iff hkind]
    constructor
    · rintro ⟨m, hfirst, hm⟩
      have hspells := (first_occPattern_eq_some_iff hlast).mp hfirst
      obtain ⟨expiry, hyear, hmonth, hday, rfl⟩ := ofOccMatch_eq_ok_iff.mp hm
      exact ⟨_, .option hkind hspells hyear hmonth hday, rfl⟩
    · rintro ⟨c, hc, rfl⟩
      cases hc with
      | option _ hspells hyear hmonth hday =>
        exact ⟨_, (first_occPattern_eq_some_iff hlast).mpr hspells,
          ofOccMatch_eq_ok_iff.mpr ⟨_, hyear, hmonth, hday, rfl⟩⟩
      | future hkind' => exact absurd (hkind.symm.trans hkind') (by decide)
  · rw [fromVendor_future_eq_ok_iff hkind]
    constructor
    · rintro ⟨m, hfirst, rfl⟩
      exact ⟨_, .future hkind ((first_futurePattern_eq_some_iff hfuture).mp hfirst), rfl⟩
    · rintro ⟨c, hc, rfl⟩
      cases hc with
      | option hkind' => exact absurd (hkind.symm.trans hkind') (by decide)
      | future _ hspells =>
        exact ⟨_, (first_futurePattern_eq_some_iff hfuture).mpr hspells, rfl⟩

end CanonicalSymbol

theorem Denotes.isStructured {instrumentType : Option String} {vendorSymbol : String} {c : Contract}
    (h : Denotes instrumentType vendorSymbol c) : IsStructured instrumentType := by
  cases h with
  | option hkind => exact Or.inl hkind
  | future hkind => exact Or.inr hkind

/-- A symbol that denotes a contract is accepted, with the symbol of the contract. -/
theorem Denotes.fromVendor_eq {instrumentType : Option String} {vendorSymbol : String}
    {c : Contract} (h : Denotes instrumentType vendorSymbol c)
    (indexOptionRoots : IndexOptionRoots) :
    CanonicalSymbol.fromVendor indexOptionRoots vendorSymbol instrumentType =
      .ok (c.symbol indexOptionRoots) :=
  (CanonicalSymbol.fromVendor_eq_ok_iff h.isStructured).mpr ⟨c, h, rfl⟩

end TtLedger
