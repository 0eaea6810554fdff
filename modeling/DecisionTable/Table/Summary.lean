import DecisionTable.Table.Basic
import DecisionTable.Numeral.Decimal
import DecisionTable.Text.Quoted
import DecisionTable.Text.Json

/-!
# Tables and rows on one line

The one-line summary of a table, and a row as a JSON object.
-/

namespace DecisionTable

/-- The columns of a table in quotes, and the number of its rows. -/
def Table.summary (t : Table) : String :=
  let columns := ", ".intercalate (t.columns.map Text.Quoted.quote)
  s!"CaseTable(columns=[{columns}], rows={t.rows.length})"

/-- A row as a JSON object on one line, its columns in order. -/
def Row.json (row : Row) : String :=
  Text.Json.compactObject (row.entries.map fun e => (e.1, Text.Json.string e.2))

end DecisionTable
