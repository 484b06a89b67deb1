import TtLedger.Foundations.Rounding
import Mathlib.Algebra.BigOperators.Group.List.Basic

/-!
# Money columns

The `Money` column type (`money.py`): Postgres keeps a decimal as it is, SQLite keeps an integer
number of micro-units. Decimal arithmetic is done in the default context, which rounds each exact
result to 28 significant digits, half to even; `to_integral_value` rounds to an integer the same
way whatever its size. `SqlLedgerStore.transactionValueTotal` is the signed cash total of an
account's transactions (`store/sql.py`): SQL's `SUM`, decoded like the column it sums, and raising
as soon as the integers added so far leave 64 bits.
-/

namespace TtLedger

/-- The significant digits of the default decimal context. -/
def contextPrecision : ℕ := 28

/-- The scale of the money columns. -/
def moneyScale : ℕ := 6

namespace Money

/-- A value as a database column holds it. -/
inductive Stored
  | numeric (value : ℚ)
  | integer (units : ℤ)
  deriving DecidableEq

/-- `Decimal(value)` of a stored value. -/
def Stored.toDecimal : Stored → ℚ
  | numeric value => value
  | integer units => units

/-- The integer that is stored, if it is one. -/
def Stored.integer? : Stored → Option ℤ
  | numeric _ => none
  | integer units => some units

variable (scale : ℕ) (dialect : String)

/-- Encode a value for a column. -/
def processBindParam (value : Option ℚ) : Option Stored :=
  value.map fun value =>
    if dialect = "postgresql" then .numeric value
    else .integer (roundHalfEven (roundToDigits contextPrecision (value * 10 ^ scale)))

/-- Decode the value of a column. -/
def processResultValue (value : Option Stored) : Option ℚ :=
  value.map fun value =>
    if dialect = "postgresql" then value.toDecimal
    else roundToDigits contextPrecision (value.toDecimal / 10 ^ scale)

/-- The integers of a signed 64-bit column. -/
def FitsInt64 (n : ℤ) : Prop := -2 ^ 63 ≤ n ∧ n < 2 ^ 63

instance : DecidablePred FitsInt64 := fun _ => inferInstanceAs (Decidable (_ ∧ _))

/-- Add one value to a total of integers: outside a signed 64-bit integer it raises. -/
def addUnits (total units : ℤ) : Except String ℤ :=
  if FitsInt64 (total + units) then .ok (total + units) else .error "integer overflow"

/-- SQLite's `SUM` of an integer column, added in the order of the rows: the nulls are skipped,
and without any value it is null. -/
def sumUnits (column : List (Option ℤ)) : Except String (Option ℤ) :=
  match column.reduceOption with
  | [] => .ok none
  | units => (units.foldlM addUnits 0).map some

end Money

/-- The cash total of the value column of an account's transactions. -/
def SqlLedgerStore.transactionValueTotal (column : List (Option ℤ)) : Except String ℚ :=
  (Money.sumUnits column).map fun total =>
    (Money.processResultValue moneyScale "sqlite" (total.map .integer)).getD 0

end TtLedger
