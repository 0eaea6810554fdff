/-!
# Comparisons

The six comparisons a condition may use, with the symbol each is written with. Some have a
second spelling (`==`, `<>`, `=>`), which is read but never written.
-/

namespace DecisionTable

/-- A comparison between a column and a value. -/
inductive Comparison where
  | equal
  | notEqual
  | less
  | greater
  | lessEqual
  | greaterEqual
  deriving DecidableEq, Repr

namespace Comparison

/-- The symbol a comparison is written with. -/
def symbol : Comparison → String
  | equal => "="
  | notEqual => "!="
  | less => "<"
  | greater => ">"
  | lessEqual => "<="
  | greaterEqual => ">="

/-- The comparison that a symbol, in either spelling, stands for. -/
def ofSymbol? : List Char → Option Comparison
  | ['='] => some equal
  | ['=', '='] => some equal
  | ['!', '='] => some notEqual
  | ['<', '>'] => some notEqual
  | ['<'] => some less
  | ['>'] => some greater
  | ['<', '='] => some lessEqual
  | ['>', '='] => some greaterEqual
  | ['=', '>'] => some greaterEqual
  | _ => none

end Comparison

end DecisionTable
