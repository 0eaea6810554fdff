import DecisionTable.Numeral.Shortest

/-!
# Canonical numerals

A word in value position that spells a number is replaced by that number's canonical
numeral, so that `007` and `7`, or `1.50` and `1.5`, become the same value. Whole numbers
keep every digit but the leading zeros; numbers with a point or an exponent go through the
64-bit binary format. All other words stay as they are.
-/

namespace DecisionTable.Numeral

/-- Whether a word has a point or an exponent mark, as decimals do and whole numbers do not. -/
def hasDecimalMark (cs : List Char) : Bool := cs.any fun c => c = '.' || c = 'e' || c = 'E'

/-- The digits without leading zeros; a number that has nothing but zeros is `0`. -/
def withoutLeadingZeros (ds : List Char) : List Char :=
  let rest := ds.dropWhile (· = '0')
  if rest = [] then ['0'] else rest

/-- The canonical numeral of a word that begins as a number does and is one. -/
def canonical? (cs : List Char) : Option (List Char) :=
  match cs with
  | [] => none
  | c :: _ =>
    if !(c.isDigit || c = '.') then none
    else if cs.all Char.isDigit then some (withoutLeadingZeros cs)
    else if !hasDecimalMark cs then none
    else (Decimal.read? cs).map fun d => d.nearest.text

/-- The word with a number in canonical form, and any other word as it is. -/
def canonical (word : String) : String :=
  match canonical? word.toList with
  | some cs => .ofList cs
  | none => word

end DecisionTable.Numeral
