import DecisionTable.Numeral.Binary64

/-!
# The shortest numeral of a binary number

A number `m * 2 ^ q` of the 64-bit format is written with the fewest decimal digits that
read back as the same number. The numbers that do so form an interval around it, whose ends
belong to it iff `m` is even. On the decimal grid of 1, 2, … 17 digits only the two
neighbours of the number need to be tried: the first grid with a neighbour in the interval
wins, and of two neighbours the nearer, the upper one if both are equally near.
-/

namespace DecisionTable.Numeral

/-! ## One unit for everything

The quantities below are compared as whole numbers, measured in units of
`2 ^ -1076 * 10 ^ -345`: numbers of the format, the ends of their intervals and the points
of the decimal grids are all multiples of it. -/

/-- The decimal exponent of the unit, negated. -/
def unitTens : Nat := 345

/-- The binary exponent of the unit, negated. -/
def unitTwos : Nat := 1076

/-- The quantity `n * 2 ^ (q - 2)` in units. -/
def quarterUnits (n : Nat) (q : Int) : Nat :=
  n * Nat.pow 2 (q - 2 + unitTwos).toNat * Nat.pow 10 unitTens

/-- The decimal `c * 10 ^ s` in units. -/
def decimalUnits (c : Nat) (s : Int) : Nat :=
  c * Nat.pow 10 (s + unitTens).toNat * Nat.pow 2 unitTwos

/-- The numbers that are rounded to a given number of the format, in units. -/
structure Interval where
  low : Nat
  high : Nat
  closed : Bool

/-- The interval of `m * 2 ^ q`. Just below a power of two the format is twice as fine. -/
def Interval.around (m : Nat) (q : Int) : Interval where
  low := quarterUnits (4 * m - if m = Nat.pow 2 52 ∧ Binary64.minExponent < q then 1 else 2) q
  high := quarterUnits (4 * m + 2) q
  closed := m % 2 = 0

/-- Whether a quantity lies in an interval. -/
def Interval.contains (i : Interval) (x : Nat) : Bool :=
  (i.low < x && x < i.high) || (i.closed && (x = i.low || x = i.high))

/-! ## Searching the grids -/

/-- The nearer of the two grid points `c` and `c + 1` at scale `s` that lie in the interval
around `x`, if one does. -/
def neighbour? (i : Interval) (x : Nat) (s : Int) : Option Decimal :=
  let c := x / decimalUnits 1 s
  let below := decimalUnits c s
  let above := decimalUnits (c + 1) s
  if i.contains below && (!i.contains above || x - below < above - x) then some ⟨c, s⟩
  else if i.contains above then some ⟨c + 1, s⟩
  else none

/-- The number of decimal digits before the point of a quantity, negative for as many zeros
after it. -/
def pointOf (x : Nat) : Int := (digits (x / Nat.pow 2 unitTwos)).length - unitTens

/-- The shortest decimal that is rounded to `m * 2 ^ q`, for `0 < m`. -/
def shortest (m : Nat) (q : Int) : Decimal :=
  let x := quarterUnits (4 * m) q
  let grids := (List.range 17).map fun n : Nat => pointOf x - (n + 1)
  (grids.findSome? (neighbour? (.around m q) x)).getD ⟨m, q⟩

/-! ## Writing -/

/-- The digits of a decimal, with the place of the point among them: the number is `0.d₁d₂…`
times ten to that place. -/
def Decimal.significant (d : Decimal) : List Char × Int :=
  let ds := digits d.significand
  ((ds.reverse.dropWhile (· = '0')).reverse, ds.length + d.exponent)

/-- The digits in positional notation, with at least one digit on either side of the point. -/
def positional (ds : List Char) (point : Int) : List Char :=
  if point ≤ 0 then '0' :: '.' :: List.replicate (-point).toNat '0' ++ ds
  else
    let n := point.toNat
    let fraction := ds.drop n
    ds.take n ++ List.replicate (n - ds.length) '0' ++
      '.' :: if fraction = [] then ['0'] else fraction

/-- A whole number with a minus sign where it is negative. -/
def signed (n : Int) : List Char :=
  if n < 0 then '-' :: digits n.natAbs else digits n.natAbs

/-- The digits with one of them before the point, and an exponent. -/
def scientific (ds : List Char) (point : Int) : List Char :=
  let fraction := ds.drop 1
  ds.take 1 ++ (if fraction = [] then [] else '.' :: fraction) ++ 'e' :: signed (point - 1)

/-- The text of a number of the format: positional from `0.0001` up to `10 ^ 16`, with an
exponent outside. -/
def Binary64.text : Binary64 → List Char
  | infinite => ['i', 'n', 'f']
  | finite m q =>
    if m = 0 then ['0', '.', '0']
    else
      let (ds, point) := (shortest m q).significant
      if -3 ≤ point ∧ point ≤ 16 then positional ds point else scientific ds point

end DecisionTable.Numeral
