import DecisionTable.Numeral.Decimal

/-!
# The nearest number of 53 binary digits

Decimal values are kept with the precision of the 64-bit binary format: `m * 2 ^ q` with
`m < 2 ^ 53` and `-1074 ≤ q ≤ 971`. `Decimal.nearest` rounds to the nearest such number, and
to the one with even `m` where two are equally near. All of it is exact arithmetic on
natural numbers.
-/

namespace DecisionTable.Numeral

/-- A number that is not negative, in the 64-bit binary format. -/
inductive Binary64 where
  /-- The number `m * 2 ^ q`; unless `q` is the least exponent, `m` has 53 binary digits. -/
  | finite (m : Nat) (q : Int)
  /-- A number that is too large for the format. -/
  | infinite
  deriving DecidableEq, Repr

namespace Binary64

/-- The least binary exponent. -/
def minExponent : Int := -1074

/-- The greatest binary exponent. -/
def maxExponent : Int := 971

end Binary64

/-- The whole number nearest to `num / den`, and the even one of two. -/
def divNearest (num den : Nat) : Nat :=
  let floor := num / den
  let twice := 2 * (num % den)
  if twice < den ∨ (twice = den ∧ floor % 2 = 0) then floor else floor + 1

/-- A rational number as `num / den`, divided by `2 ^ q`. -/
def scaleDown (num den : Nat) (q : Int) : Nat × Nat :=
  if 0 ≤ q then (num, den * Nat.pow 2 q.toNat) else (num * Nat.pow 2 (-q).toNat, den)

/-- The binary exponent at which `num / den` has 53 digits before the point, or the least
exponent if that one is greater. -/
def binaryExponent (num den : Nat) : Int :=
  let q : Int := (Nat.log2 num : Int) - Nat.log2 den - 53
  let (n, d) := scaleDown num den q
  max Binary64.minExponent (if Nat.pow 2 53 ≤ n / d then q + 1 else q)

/-- The format's number nearest to `num / den`. -/
def nearestQuotient (num den : Nat) : Binary64 :=
  let q := binaryExponent num den
  let (n, d) := scaleDown num den q
  let m := divNearest n d
  let (m, q) := if m = Nat.pow 2 53 then (Nat.pow 2 52, q + 1) else (m, q)
  if Binary64.maxExponent < q then .infinite else .finite m q

/-- The format's number nearest to a decimal. Decimals far outside the range of the format
are told by their number of digits, so that no power of ten beyond its range is formed. -/
def Decimal.nearest (d : Decimal) : Binary64 :=
  let magnitude : Int := (digits d.significand).length + d.exponent
  if d.significand = 0 ∨ magnitude < -330 then .finite 0 Binary64.minExponent
  else if 310 < magnitude then .infinite
  else if 0 ≤ d.exponent then nearestQuotient (d.significand * Nat.pow 10 d.exponent.toNat) 1
  else nearestQuotient d.significand (Nat.pow 10 (-d.exponent).toNat)

end DecisionTable.Numeral
