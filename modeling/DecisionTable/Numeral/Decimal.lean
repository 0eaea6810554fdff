/-!
# Decimal numerals

Numbers written with digits, at most one point and at most one exponent, such as `1.50`,
`.5` or `12e-3`. They are read without rounding: a `Decimal` is the exact number
`significand * 10 ^ exponent`.
-/

namespace DecisionTable.Numeral

/-- The number `significand * 10 ^ exponent`. -/
structure Decimal where
  significand : Nat
  exponent : Int
  deriving DecidableEq, Repr

/-- The value of a digit. -/
def digitValue (c : Char) : Nat := c.toNat - '0'.toNat

/-- The number that a row of digits denotes. -/
def digitsValue (ds : List Char) : Nat := ds.foldl (fun n c => 10 * n + digitValue c) 0

/-- The digits of a number, the most significant first; zero has the digit `0`. -/
def digits (n : Nat) : List Char := Nat.toDigits 10 n

/-- Beyond this size an exponent is not told apart from larger ones: the number is then
nothing or beyond all bounds, whatever its other digits. -/
def exponentCap : Nat := 0x10000

/-- The number that the digits of an exponent denote, reading on only while it is below the
cap. -/
def exponentValue (ds : List Char) : Nat :=
  ds.foldl (fun n c => if n < exponentCap then 10 * n + digitValue c else n) 0

namespace Decimal

/-- An exponent with its sign; at least one digit is needed. -/
def readExponent : List Char → Option Int
  | '-' :: ds => if ds ≠ [] ∧ ds.all Char.isDigit then some (-(exponentValue ds : Int)) else none
  | '+' :: ds => if ds ≠ [] ∧ ds.all Char.isDigit then some (exponentValue ds) else none
  | ds => if ds ≠ [] ∧ ds.all Char.isDigit then some (exponentValue ds) else none

/-- What follows the digits of the significand: nothing, or the mark and an exponent. -/
def readScale : List Char → Option Int
  | [] => some 0
  | c :: cs => if c = 'e' ∨ c = 'E' then readExponent cs else none

/-- The digits after a point, with what follows them. -/
def readFraction : List Char → List Char × List Char
  | '.' :: cs => (cs.takeWhile Char.isDigit, cs.dropWhile Char.isDigit)
  | cs => ([], cs)

/-- Reads a whole text as a decimal numeral. The significand needs a digit on one side of
the point at least. -/
def read? (cs : List Char) : Option Decimal :=
  let whole := cs.takeWhile Char.isDigit
  let (fraction, rest) := readFraction (cs.dropWhile Char.isDigit)
  if whole = [] ∧ fraction = [] then none
  else (readScale rest).map fun scale =>
    ⟨digitsValue (whole ++ fraction), scale - fraction.length⟩

end Decimal

end DecisionTable.Numeral
