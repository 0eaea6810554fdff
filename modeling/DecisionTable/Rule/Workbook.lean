import DecisionTable.Rule.Book
import DecisionTable.Rule.Table
import DecisionTable.Text.Json

/-!
# Workbooks

A workbook has a sheet for every rule of a rulebook: the cells of the rule's table, under
the table's own columns or under those of a schema. One rule with an error is enough that
there is no workbook.
-/

namespace DecisionTable

/-- The cells of a table under a name. -/
structure Sheet where
  name : String
  columns : List String
  rows : List (List String)
  deriving DecidableEq, Repr

/-- The longest name that a sheet can have, in code points. -/
def maxSheetName : Nat := 31

/-- The name of the sheet for a rule. -/
def sheetName (key : String) : String := .ofList (key.toList.take maxSheetName)

/-- The sheet of a rule's table, under the columns of a schema if there is one. -/
def Sheet.ofTable (key : String) (t : Table) (schema : Option (List String)) : Sheet :=
  let columns := schema.getD t.columns
  ⟨sheetName key, columns, t.rows.map fun row => row.cells columns⟩

/-- The sheets of a rulebook, in the order of its rules. -/
structure Workbook where
  sheets : List Sheet
  deriving DecidableEq, Repr

namespace Workbook

/-- The first sheet with a name. -/
def sheet? (w : Workbook) (name : String) : Option Sheet := w.sheets.find? fun s => s.name = name

/-! ## Building -/

/-- The sheet of a rule, given its table or what is wrong with it. -/
def sheetOf (schema : Option (List String)) (key : String) :
    Except Error Table → Except Error Sheet
  | .ok t => .ok (.ofTable key t schema)
  | .error error => .error (.rule key error)

/-- The sheets of rules, or the error of the first rule that has one. -/
def sheetsOf (schema : Option (List String)) : List (String × String) → Except Error (List Sheet)
  | [] => .ok []
  | (key, body) :: rules => do
    let sheet ← sheetOf schema key (Table.ofRule body)
    let sheets ← sheetsOf schema rules
    .ok (sheet :: sheets)

/-- The workbook of a rulebook. -/
def build (book : Rulebook) (schema : Option (List String)) : Except Error Workbook :=
  (sheetsOf schema book.entries).map Workbook.mk

/-! ## Writing -/

/-- An array of texts over several lines. -/
def textArray (indent : Nat) (texts : List String) : String :=
  Text.Json.array indent (texts.map Text.Json.string)

/-- A sheet as a JSON object over several lines. -/
def sheetJson (s : Sheet) : String :=
  Text.Json.object 4
    [("name", Text.Json.string s.name), ("columns", textArray 6 s.columns),
      ("rows", Text.Json.array 6 (s.rows.map (textArray 8)))]

/-- A workbook as JSON text over several lines. -/
def json (w : Workbook) : String :=
  Text.Json.object 0 [("sheets", Text.Json.array 2 (w.sheets.map sheetJson))]

end Workbook

namespace Memo

/-- The sheets of rules whose conditions are read through a memo, with the memo after. -/
def sheetsOf (m : Memo) (schema : Option (List String)) :
    List (String × String) → Except Error (List Sheet) × Memo
  | [] => (.ok [], m)
  | (key, body) :: rules =>
    let (table, m) := m.tableOfRule body
    match Workbook.sheetOf schema key table with
    | .error error => (.error error, m)
    | .ok sheet =>
      let (sheets, m) := m.sheetsOf schema rules
      (sheets.map (sheet :: ·), m)

/-- The workbook of a rulebook whose conditions are read through a memo, with the memo
after. -/
def workbook (m : Memo) (book : Rulebook) (schema : Option (List String)) :
    Except Error Workbook × Memo :=
  let (sheets, m) := m.sheetsOf schema book.entries
  (sheets.map Workbook.mk, m)

end Memo

end DecisionTable
