import DecisionTable.Numeral.Decimal

/-!
# Integers as they are written

Digits, of which the first may be zeros, with a minus sign before them or none.
-/

namespace DecisionTable.Numeral

/-- An integer as it is written. -/
structure WrittenInteger where
  /-- Whether a minus sign stands before the digits. -/
  negative : Bool
  digits : List Char
  digits_ne_nil : digits ≠ []
  isDigit_of_mem : ∀ c ∈ digits, c.isDigit = true

namespace WrittenInteger

/-- The integer as text. -/
def text (i : WrittenInteger) : String :=
  .ofList (if i.negative then '-' :: i.digits else i.digits)

/-- The integer that is written. -/
def value (i : WrittenInteger) : Int :=
  if i.negative then -(digitsValue i.digits : Int) else digitsValue i.digits

theorem natAbs_value (i : WrittenInteger) : i.value.natAbs = digitsValue i.digits := by
  rw [value]
  split
  · rw [Int.natAbs_neg, Int.natAbs_natCast]
  · exact Int.natAbs_natCast _

end WrittenInteger

end DecisionTable.Numeral
