import TtLedger.Identity.SymbolText

/-!
# OCC symbols round-trip

The OCC text of every option, its root padded by any run of spaces, is parsed to that option, and
the fields of the option read back from the text of its symbol. Every ASCII symbol that is accepted
is such a text once it is stripped (`occRoundTrips_strip`); the spaces around a symbol are accepted
because the parser strips it first (`not_occRoundTrips_id`).
-/

namespace TtLedger

open Numeral

/-- An option that an OCC symbol can name, its strike in mills. -/
structure OccOption where
  root : List Char
  expiry : CalendarDate
  right : Char
  mills : ℕ
  root_valid : IsOccRoot root
  expiry_valid : 2000 ≤ expiry.year ∧ expiry.year ≤ 2099
  right_valid : right = 'C' ∨ right = 'P'
  mills_valid : mills < 10 ^ 8

namespace OccOption

/-- The groups of the OCC symbol of an option. -/
def groups (o : OccOption) : OccMatch where
  root := o.root
  yy := padded 2 (o.expiry.year - 2000)
  mm := padded 2 o.expiry.month
  dd := padded 2 o.expiry.day
  cp := o.right
  strike := padded 8 o.mills

/-- The OCC text of an option: the root, padded, and a suffix of fifteen characters. -/
def text (o : OccOption) (pad : List Char) : List Char := o.groups.text pad

/-- The contract of an option. -/
def contract (o : OccOption) : Contract := .option o.root o.expiry ((o.mills : ℚ) / 1000) o.right

/-- The fields of an option. -/
def fields (o : OccOption) : OptionFields where
  underlying := o.root
  expiry := o.expiry
  strike := (o.mills : ℚ) / 1000
  optionType := [o.right]

end OccOption

/-- Options and their OCC symbols determine each other: every text of an option, its root padded to
six characters, not padded or padded by any other spaces, is parsed to the option, whose fields read
back from the text of the symbol; and every accepted ASCII symbol, once trimmed, is the text of an
option. -/
structure OccRoundTrips (indexOptionRoots : IndexOptionRoots) (trim : List Char → List Char) :
    Prop where
  parses : ∀ (o : OccOption) {pad : List Char}, IsSpaces pad →
    CanonicalSymbol.fromVendor indexOptionRoots (String.ofList (o.text pad))
      (some "Equity Option") = .ok (o.contract.symbol indexOptionRoots)
  reads : ∀ o : OccOption, readFields (o.contract.symbol indexOptionRoots).str = some o.fields
  accepted : ∀ {s : String} {cs : CanonicalSymbol}, (∀ c ∈ s.toList, c.toNat < 128) →
    CanonicalSymbol.fromVendor indexOptionRoots s (some "Equity Option") = .ok cs →
      ∃ (o : OccOption) (pad : List Char), IsSpaces pad ∧ trim s.toList = o.text pad ∧
        cs = o.contract.symbol indexOptionRoots

namespace OccOption

variable (o : OccOption) {pad : List Char}

theorem isDigits_padded (w n : ℕ) : IsDigits w (padded w n) :=
  ⟨length_padded w n, fun _ hc => isDecimal_of_isDigit (isDigit_of_mem_padded hc)⟩

theorem groups_formed : o.groups.Formed where
  root := o.root_valid
  yy := isDigits_padded 2 _
  mm := isDigits_padded 2 _
  dd := isDigits_padded 2 _
  cp := o.right_valid
  strike := isDigits_padded 8 _

/-- The text of an option starts with a letter. -/
theorem isRootChar_of_head? : ∀ c ∈ (o.text pad).head?, isRootChar c = true := by
  obtain ⟨c, cs, hroot, -⟩ := o.root_valid
  intro d hd
  refine isRootChar_of_isOccRoot o.root_valid d ?_
  simp_all [text, OccMatch.text, groups]

/-- The text of an option ends with a digit, so stripping leaves it as it is. -/
theorem strip_text : Text.strip (o.text pad) = o.text pad := by
  refine Text.strip_eq_self (fun c hc => isSpace_of_isRootChar (o.isRootChar_of_head? c hc))
    fun c hc => ?_
  have htext : o.text pad = (o.root ++ (pad ++ (o.groups.yy ++ (o.groups.mm ++ (o.groups.dd ++
      [o.right]))))) ++ padded 8 o.mills := by
    simp [text, OccMatch.text, OccMatch.suffix, groups]
  have hne : padded 8 o.mills ≠ [] := by
    intro hnil
    have hlength := length_padded 8 o.mills
    rw [hnil] at hlength
    cases hlength
  rw [htext, List.getLast?_append_of_ne_nil _ hne] at hc
  have hdigit := isDigit_of_mem_padded (List.mem_of_getLast? hc)
  exact isSpace_of_isRootChar (by rw [isRootChar, hdigit, Bool.or_true])

/-- **The OCC symbol of an option denotes its contract.** -/
theorem denotes_text (hpad : IsSpaces pad) :
    Denotes (some "Equity Option") (String.ofList (o.text pad)) o.contract := by
  have hyear : o.expiry.year = 2000 + value o.groups.yy := by
    have hvalid := o.expiry_valid
    rw [groups, value_padded (by omega)]
    omega
  have hmonth : o.expiry.month = value o.groups.mm :=
    (value_padded (lt_of_le_of_lt o.expiry.month_valid.2 (by decide))).symm
  have hday : o.expiry.day = value o.groups.dd :=
    (value_padded (lt_of_le_of_lt (o.expiry.day_valid.2.trans (daysInMonth_le _ _))
      (by decide))).symm
  have hstrike : value o.groups.strike = o.mills := value_padded o.mills_valid
  have hspells : o.groups.Spells (Text.strip (String.ofList (o.text pad)).toList) :=
    ⟨o.groups_formed, pad, hpad, by rw [String.toList_ofList, o.strip_text, text]⟩
  have hdenotes :=
    @Denotes.option (some "Equity Option") _ _ _ (by decide) hspells hyear hmonth hday
  rw [hstrike] at hdenotes
  exact hdenotes

end OccOption

/-- ASCII groups of the OCC form with a valid date are those of an option. -/
theorem exists_groups_eq {m : OccMatch} {expiry : CalendarDate} (hformed : m.Formed)
    (hascii : ∀ c ∈ m.suffix, c.toNat < 128) (hyear : expiry.year = 2000 + value m.yy)
    (hmonth : expiry.month = value m.mm) (hday : expiry.day = value m.dd) :
    ∃ o : OccOption, o.groups = m ∧
      o.contract = .option m.root expiry ((value m.strike : ℚ) / 1000) m.cp := by
  have hyy := value_lt m.yy
  have hstrike := value_lt m.strike
  rw [hformed.yy.1] at hyy
  rw [hformed.strike.1] at hstrike
  refine ⟨⟨m.root, expiry, m.cp, value m.strike, hformed.root, by omega, hformed.cp, hstrike⟩, ?_,
    rfl⟩
  have hwritten : ∀ {w : ℕ} {ds : List Char}, IsDigits w ds → (∀ c ∈ ds, c ∈ m.suffix) →
      padded w (value ds) = ds := by
    rintro w ds ⟨rfl, hds⟩ hmem
    exact padded_value (fun c hc => hascii c (hmem c hc)) hds
  have hyear' : expiry.year - 2000 = value m.yy := by omega
  rw [OccOption.groups, hyear', hmonth, hday, hwritten hformed.yy, hwritten hformed.mm,
    hwritten hformed.dd, hwritten hformed.strike]
  all_goals
    intro c hc
    simp [OccMatch.suffix, hc]

/-- **OCC symbols round-trip**, once the spaces around a symbol are stripped: every option is parsed
from each of its texts and reads back from the text of its symbol, and every accepted ASCII symbol
is, stripped, the text of an option. -/
theorem occRoundTrips_strip (indexOptionRoots : IndexOptionRoots) :
    OccRoundTrips indexOptionRoots Text.strip where
  parses o _ hpad := (o.denotes_text hpad).fromVendor_eq indexOptionRoots
  reads o := readFields_str (o.denotes_text (List.forall_mem_nil _)).wellFormed
  accepted {s cs} hascii h := by
    obtain ⟨c, hc, rfl⟩ := (CanonicalSymbol.fromVendor_eq_ok_iff (Or.inl (by decide))).mp h
    cases hc with
    | @option m expiry _ hspells hyear hmonth hday =>
      obtain ⟨hformed, pad, hpad, htext⟩ := hspells
      have hsuffix : ∀ c ∈ m.suffix, c.toNat < 128 := by
        intro c hc
        refine hascii c (Text.mem_of_mem_strip ?_)
        rw [htext, OccMatch.text]
        exact List.mem_append_right _ (List.mem_append_right _ hc)
      obtain ⟨o, hgroups, hcontract⟩ := exists_groups_eq hformed hsuffix hyear hmonth hday
      refine ⟨o, pad, hpad, ?_, ?_⟩
      · rw [htext, OccOption.text, hgroups]
      · rw [hcontract]
    | future hkind => exact absurd hkind (by decide)

example : (CanonicalSymbol.fromVendor none "AAPL  250117C00150500" (some "Equity Option")).map
    CanonicalSymbol.str = .ok "OS|AAPL|20250117|150.5|C" := by decide +kernel

/-- A symbol is accepted with a space in front of it, where no root starts. -/
theorem not_occRoundTrips_id : ¬ OccRoundTrips none id := by
  intro h
  have hroot : IsOccRoot "AAPL".toList :=
    ⟨'A', "APL".toList, rfl, by decide, by decide, List.all_eq_true.mp (by decide)⟩
  have hformed : OccMatch.Formed
      ⟨"AAPL".toList, "25".toList, "01".toList, "17".toList, 'C', "00150000".toList⟩ :=
    ⟨hroot, by decide, by decide, by decide, Or.inl rfl, by decide⟩
  have hpad : IsSpaces "  ".toList := by decide
  have hdenotes := @Denotes.option (some "Equity Option") " AAPL  250117C00150000" _
    ⟨2025, 1, 17, by decide, by decide, by decide⟩ (by decide) ⟨hformed, _, hpad, by decide⟩
    (by decide) (by decide) (by decide)
  have hascii : ∀ c ∈ " AAPL  250117C00150000".toList, decide (c.toNat < 128) = true :=
    List.all_eq_true.mp (by decide)
  obtain ⟨o, pad, -, htext, -⟩ := h.accepted (fun c hc => of_decide_eq_true (hascii c hc))
    (hdenotes.fromVendor_eq none)
  have hhead := @OccOption.isRootChar_of_head? o pad ' ' (by rw [← htext]; rfl)
  exact absurd hhead (by decide)

end TtLedger
