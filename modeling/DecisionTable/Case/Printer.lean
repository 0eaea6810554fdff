/-!
# Writing `CASE` blocks

A block as text, from the texts of its conditions and from its outputs. Outputs are put in
single quotes.
-/

namespace DecisionTable.Case

/-- An output in single quotes. -/
def outputText (output : String) : String := "'" ++ output ++ "'"

/-- A branch, given its condition as text. -/
def branchText (branch : String × String) : String :=
  "WHEN " ++ branch.1 ++ " THEN " ++ outputText branch.2 ++ " "

/-- The output where no branch holds. -/
def fallbackText : Option String → String
  | none => ""
  | some output => "ELSE " ++ outputText output ++ " "

/-- A block, its conditions given as texts. -/
def blockText (branches : List (String × String)) (fallback : Option String)
    (outputColumn : String) : String :=
  "CASE " ++ String.join (branches.map branchText) ++ fallbackText fallback ++
    "END AS " ++ outputColumn

end DecisionTable.Case
