import DecisionTable.OrderedMap

/-!
# Rows

A row of a decision table assigns values to some columns. Its entries stand in the order in
which the columns were first assigned, so that tables are shown as their conditions were
written; two rows are the same assignment when they differ in that order alone
(`OrderedMap.sameEntries`).
-/

namespace DecisionTable

/-- An assignment of values to columns. -/
abbrev Row := OrderedMap String String

namespace Row

/-- The row that assigns what either of two rows assigns, or `none` where they give a column
different values. -/
def merge? (a b : Row) : Option Row := if a.agrees b then some (a.extend b) else none

/-- The value that is shown for a column: nothing where the row does not assign it. -/
def cell (row : Row) (column : String) : String := (row.get? column).getD ""

/-- The values that are shown for a list of columns. -/
def cells (row : Row) (columns : List String) : List String := columns.map row.cell

@[simp] theorem length_cells (row : Row) (columns : List String) :
    (row.cells columns).length = columns.length := by simp [cells]

/-- A row shows nothing for a column that it does not assign. -/
theorem cell_of_not_mem {row : Row} {column : String} (h : column ∉ row.keys) :
    row.cell column = "" := by
  rw [cell, OrderedMap.get?_eq_none_iff.2 h, Option.getD_none]

theorem merge?_eq_some_iff {a b c : Row} :
    a.merge? b = some c ↔ a.agrees b = true ∧ a.extend b = c := by
  rw [merge?]
  split <;> simp_all

end Row

end DecisionTable
