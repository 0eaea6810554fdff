import DecisionTable.Row
import DecisionTable.Numeral.Shortest

/-!
# Rows of scalars

Rows that come from outside may hold more than texts. In a row of the table every scalar
stands as the text it is shown with.
-/

namespace DecisionTable

/-- A value from outside. -/
inductive Scalar where
  | nothing
  | truth (b : Bool)
  | number (n : Int)
  | text (s : String)
  deriving DecidableEq, Repr

/-- The text that a scalar is shown with. -/
def Scalar.shown : Scalar → String
  | nothing => "None"
  | truth true => "True"
  | truth false => "False"
  | number n => .ofList (Numeral.signed n)
  | text s => s

/-- The row of scalars under their columns; of a repeated column the last value counts. -/
def Row.ofScalars (pairs : List (String × Scalar)) : Row :=
  .ofList (pairs.map fun p => (p.1, p.2.shown))

end DecisionTable
