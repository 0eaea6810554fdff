/-!
# Blank characters and trimming

What separates words without being part of any: the characters with the Unicode property
`White_Space`. Two things live here:

* `inRanges`, the reading of a table of code point ranges, with `isBlank` as its first use;
* `strip` and its two halves, which take characters of a given class off the ends of a
  text, with `trim` for the blank ones.
-/

namespace DecisionTable.Text

/-- Whether a code point lies in one of the closed ranges. -/
def inRanges (ranges : List (Nat × Nat)) (n : Nat) : Bool :=
  ranges.any fun r => r.1 ≤ n && n ≤ r.2

/-- The code points with the property `White_Space`, as ascending closed ranges. -/
def blankRanges : List (Nat × Nat) :=
  [(0x9, 0xD), (0x20, 0x20), (0x85, 0x85), (0xA0, 0xA0), (0x1680, 0x1680), (0x2000, 0x200A),
    (0x2028, 0x2029), (0x202F, 0x202F), (0x205F, 0x205F), (0x3000, 0x3000)]

/-- Whether a character is blank. -/
def isBlank (c : Char) : Bool := inRanges blankRanges c.toNat

/-! ## Taking characters off the ends -/

section Strip

variable (p : Char → Bool)

/-- The text without the leading characters of the class `p`. -/
def stripLeft (cs : List Char) : List Char := cs.dropWhile p

/-- The text without the trailing characters of the class `p`. -/
def stripRight (cs : List Char) : List Char := (cs.reverse.dropWhile p).reverse

/-- The text without the characters of the class `p` at either end. -/
def strip (cs : List Char) : List Char := stripRight p (stripLeft p cs)

end Strip

/-- The text without blank characters at its end. -/
def trimRight (cs : List Char) : List Char := stripRight isBlank cs

/-- The text without blank characters at either end. -/
def trim (cs : List Char) : List Char := strip isBlank cs

end DecisionTable.Text
