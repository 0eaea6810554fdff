import DecisionTable.Numeral.Canonical

/-!
# The grammar of numerals

Which texts are numerals, said by rules and not by reading:

* a whole number is one or more digits;
* a decimal is a row of digits that may have a point before, within or behind it, and may have an
  exponent after it: the mark `e` or `E`, a sign or none, and one or more digits.

No sign stands before them, and names of special numbers such as `inf` are none of them: such texts
do not begin with a digit or a point. A decimal with a point or an exponent is a *float word*, which
goes through the 64-bit binary format when it is put in canonical form.
-/

namespace DecisionTable.Numeral

/-- One or more digits and nothing else. -/
def IsWhole (cs : List Char) : Prop := cs ≠ [] ∧ ∀ c ∈ cs, c.isDigit = true

/-- What stands after the mark of an exponent. -/
inductive IsExponent : List Char → Prop where
  | unsigned {ds : List Char} : IsWhole ds → IsExponent ds
  | signed {sign : Char} {ds : List Char} :
      sign = '+' ∨ sign = '-' → IsWhole ds → IsExponent (sign :: ds)

/-- What stands after the digits of a decimal: nothing, or an exponent with its mark. -/
inductive IsScale : List Char → Prop where
  | nil : IsScale []
  | exponent {mark : Char} {cs : List Char} :
      mark = 'e' ∨ mark = 'E' → IsExponent cs → IsScale (mark :: cs)

/-- A decimal: digits without a point, or with digits on one side of it at least. -/
inductive IsDecimal : List Char → Prop where
  | whole {ds scale : List Char} : IsWhole ds → IsScale scale → IsDecimal (ds ++ scale)
  | point {ds fraction scale : List Char} :
      (∀ c ∈ ds, c.isDigit = true) → (∀ c ∈ fraction, c.isDigit = true) →
      ds ≠ [] ∨ fraction ≠ [] → IsScale scale → IsDecimal (ds ++ '.' :: (fraction ++ scale))

/-- A word that begins as numbers do, has a point or an exponent mark, and is a decimal. -/
structure IsFloatWord (cs : List Char) : Prop where
  head : ∃ c, cs.head? = some c ∧ (c.isDigit = true ∨ c = '.')
  marked : hasDecimalMark cs = true
  notWhole : ¬ IsWhole cs
  decimal : IsDecimal cs

end DecisionTable.Numeral
