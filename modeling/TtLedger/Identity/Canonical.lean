import TtLedger.Foundations.Backtrack
import TtLedger.Foundations.Numerals
import TtLedger.Foundations.Text
import TtLedger.Ingest.Remap
import TtLedger.Repositories

/-!
# Canonical symbols

The resolver of structured symbols (`identity/canonical.py`). `fromVendor` parses a vendor symbol by
its instrument type: an option by the OCC form, a future by its root, month code and year, of which
only the root is kept, and everything else as it stands. `str` writes the product type and the
underlying, and an option's expiry, strike and right, between bars. A `Decimal` is a rational, and
dates are those of `datetime.date`.
-/

namespace TtLedger

open Numeral

/-! ## Calendar dates -/

def isLeap (year : ℕ) : Bool := year % 4 = 0 && (year % 100 ≠ 0 || year % 400 = 0)

def daysInMonth (year month : ℕ) : ℕ :=
  if month = 2 then if isLeap year then 29 else 28
  else if month ∈ [4, 6, 9, 11] then 30 else 31

/-- A `datetime.date`. -/
@[ext] structure CalendarDate where
  year : ℕ
  month : ℕ
  day : ℕ
  year_valid : 1 ≤ year ∧ year ≤ 9999
  month_valid : 1 ≤ month ∧ month ≤ 12
  day_valid : 1 ≤ day ∧ day ≤ daysInMonth year month
  deriving DecidableEq

/-- `datetime.date` of three numbers. -/
def date (year month day : ℕ) : Except String CalendarDate :=
  if hyear : 1 ≤ year ∧ year ≤ 9999 then
    if hmonth : 1 ≤ month ∧ month ≤ 12 then
      if hday : 1 ≤ day ∧ day ≤ daysInMonth year month then
        .ok ⟨year, month, day, hyear, hmonth, hday⟩
      else .error "day is out of range for month"
    else .error "month must be in 1..12"
  else .error ("year " ++ toString year ++ " is out of range")

namespace CalendarDate

/-- `toordinal`. -/
def toOrdinal (d : CalendarDate) : ℕ :=
  let before := d.year - 1
  before * 365 + before / 4 - before / 100 + before / 400 +
    ((List.range' 1 (d.month - 1)).map (daysInMonth d.year)).sum + d.day

/-- The day, counted from 1970-01-01. -/
def toDate (d : CalendarDate) : Date := d.toOrdinal - 719163

/-- `strftime("%Y%m%d")`. -/
def strftime (d : CalendarDate) : List Char := padded 4 d.year ++ padded 2 d.month ++ padded 2 d.day

end CalendarDate

/-! ## The two forms -/

/-- The groups of the OCC form. -/
structure OccMatch where
  root : List Char
  yy : List Char
  mm : List Char
  dd : List Char
  cp : Char
  strike : List Char

def isRootChar (c : Char) : Bool := c.isUpper || c.isDigit

/-- `_OCC_RE`: the root is read lazily. -/
def occPattern : Matcher Char OccMatch := do
  let c ← Matcher.one Char.isUpper
  let cs ← Matcher.rep isRootChar false 0 (some 5)
  let _ ← Matcher.rep Text.isSpace true 0 none
  let yy ← Matcher.rep isDecimal true 2 (some 2)
  let mm ← Matcher.rep isDecimal true 2 (some 2)
  let dd ← Matcher.rep isDecimal true 2 (some 2)
  let cp ← Matcher.one fun c => c = 'C' || c = 'P'
  let strike ← Matcher.rep isDecimal true 8 (some 8)
  Matcher.atEnd '\n'
  pure { root := c :: cs, yy, mm, dd, cp, strike }

def futureMonthCodes : List Char := "FGHJKMNQUVXZ".toList

/-- The groups of the form of a future. -/
structure FutureMatch where
  root : List Char
  month : Char
  year : List Char

/-- `_FUTURE_RE`. -/
def futurePattern : Matcher Char FutureMatch := do
  let root ← Matcher.rep isRootChar true 1 none
  let month ← Matcher.one futureMonthCodes.contains
  let year ← Matcher.rep isDecimal true 1 (some 2)
  Matcher.atEnd '\n'
  pure { root, month, year }

/-! ## Canonical symbols -/

/-- A strike without the zeros that end its fraction. -/
def formatStrike (strike : ℚ) : List Char :=
  let s := fixedPoint strike
  if s.contains '.' then (s.rdropWhile (· = '0')).rdropWhile (· = '.') else s

/-- The roots of index options, under the index they belong to. -/
abbrev IndexOptionRoots := Option (Dict String (List String))

def isIndexRoot (root : String) (indexOptionRoots : IndexOptionRoots) : Bool :=
  match indexOptionRoots with
  | none => false
  | some table => table.entries.any fun e => root = e.1 || e.2.contains root

/-- A structured instrument identity. -/
structure CanonicalSymbol where
  productType : String
  underlying : String
  expiry : Option CalendarDate := none
  strike : Option ℚ := none
  optionType : Option String := none
  deriving DecidableEq

namespace CanonicalSymbol

/-- The parts of the identity's text. -/
def parts (cs : CanonicalSymbol) : List (List Char) :=
  [cs.productType.toList, cs.underlying.toList] ++
    match cs.optionType with
    | none => []
    | some optionType =>
      [(cs.expiry.map CalendarDate.strftime).getD [], (cs.strike.map formatStrike).getD [],
        optionType.toList]

/-- `str` of the identity. -/
def str (cs : CanonicalSymbol) : String := String.ofList (['|'].intercalate cs.parts)

/-- What an instrument type is compared by. -/
def instrumentKind (instrumentType : Option String) : List Char :=
  Text.lower (Text.strip (instrumentType.getD "").toList)

/-- The identity of an OCC match. -/
def ofOccMatch (indexOptionRoots : IndexOptionRoots) (m : OccMatch) :
    Except String CanonicalSymbol := do
  let root := String.ofList m.root
  let productType := if isIndexRoot root indexOptionRoots then "OI" else "OS"
  let expiry ← date (2000 + value m.yy) (value m.mm) (value m.dd)
  pure {
    productType
    underlying := root
    expiry := some expiry
    strike := some ((value m.strike : ℚ) / 1000)
    optionType := some (String.ofList [m.cp]) }

/-- Parse a vendor symbol by its instrument type. -/
def fromVendor (indexOptionRoots : IndexOptionRoots) (vendorSymbol : String)
    (instrumentType : Option String) : Except String CanonicalSymbol :=
  let it := instrumentKind instrumentType
  let symbol := Text.strip vendorSymbol.toList
  if it = "equity".toList then
    .ok { productType := "S", underlying := String.ofList symbol }
  else if it = "index".toList then
    .ok { productType := "I", underlying := String.ofList symbol }
  else if it = "cryptocurrency".toList ∨ it = "crypto".toList then
    .ok { productType := "CR", underlying := String.ofList symbol }
  else if it = "equity option".toList then
    match occPattern.first symbol with
    | none => .error ("unrecognized OCC option symbol: " ++ quoted vendorSymbol)
    | some m => ofOccMatch indexOptionRoots m
  else if it = "future".toList then
    match futurePattern.first (Text.lstrip (· = '/') symbol) with
    | none => .error ("unrecognized future symbol: " ++ quoted vendorSymbol)
    | some m => .ok { productType := "F", underlying := String.ofList ('/' :: m.root) }
  else
    .ok {
      productType := if it = "future option".toList then "OF" else String.ofList it
      underlying := String.ofList symbol }

end CanonicalSymbol

/-- The resolver, with the table it is made with. -/
structure CanonicalSymbolResolver where
  indexOptionRoots : IndexOptionRoots := none

/-- Resolve a vendor symbol to the text of its canonical symbol. -/
def CanonicalSymbolResolver.resolve (resolver : CanonicalSymbolResolver) (vendorSymbol : String)
    (instrumentType : Option String) : Except String ResolvedSecurity := do
  let cs ← CanonicalSymbol.fromVendor resolver.indexOptionRoots vendorSymbol instrumentType
  pure {
    securityId := cs.str
    productType := some cs.productType
    underlying := some cs.underlying
    expiry := cs.expiry.map CalendarDate.toDate
    strike := cs.strike
    optionType := cs.optionType }

end TtLedger
