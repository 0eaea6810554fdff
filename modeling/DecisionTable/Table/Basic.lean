import DecisionTable.Expansion

/-!
# Decision tables

A table shows rows under a list of columns. The columns are chosen when the table is made:
for a bare condition they are those that it mentions, in the order of first mention.
-/

namespace DecisionTable

/-- Whether two lists of rows have the same assignments at the same places. -/
def sameRows : List Row → List Row → Bool
  | [], [] => true
  | r :: rs, s :: ss => r.sameEntries s && sameRows rs ss
  | _, _ => false

/-- Rows, and the columns under which they are shown. -/
structure Table where
  columns : List String
  rows : List Row
  /-- The column that holds the output of a `CASE` block. -/
  outputColumn : Option String
  deriving DecidableEq, Repr

namespace Table

/-- The table of a bare condition. -/
def ofExpression (e : Expression) : Table := ⟨e.columns, e.rows, none⟩

/-- What the row with the given index shows under each column. -/
def cells? (t : Table) (index : Nat) : Option (List String) :=
  t.rows[index]?.map fun row => row.cells t.columns

/-- Whether two tables have the same columns and the same assignments. -/
def same (a b : Table) : Bool :=
  a.columns = b.columns && sameRows a.rows b.rows && a.outputColumn = b.outputColumn

/-- There is a row of cells exactly for the indices below the number of rows. -/
theorem cells?_isSome_iff {t : Table} {index : Nat} :
    (t.cells? index).isSome ↔ index < t.rows.length := by
  simp [cells?]

end Table

end DecisionTable
