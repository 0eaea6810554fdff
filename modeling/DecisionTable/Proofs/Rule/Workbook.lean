import Mathlib.Data.List.Forall2
import DecisionTable.Proofs.Table.Columns
import DecisionTable.Rule.Workbook

/-!
# All sheets or none

A rulebook has a workbook exactly where each of its rules has a table; otherwise its error is
that of the first rule without one. Under a schema a sheet is made from the rows of the table,
not from the sheet without the schema. It shows the cells of that sheet all the same, because
a table has a column for whatever its rows assign (`Workbook.build_cases`).
-/

namespace DecisionTable

/-! ## Sheets -/

namespace Sheet

/-- The cell in the row with the index `i`, under the column with the index `j`. -/
def cell? (s : Sheet) (i j : Nat) : Option String := s.rows[i]?.bind fun row => row[j]?

/-- A sheet shows the rows of another one under the columns of a schema: the cells that the
other has under the column of the same name, and nothing where it has no such column. -/
structure Reindexes (schema : List String) (plain s : Sheet) : Prop where
  name_eq : s.name = plain.name
  columns_eq : s.columns = schema
  length_rows : s.rows.length = plain.rows.length
  cell_of_column : ∀ i j k column, schema[j]? = some column → plain.columns[k]? = some column →
    s.cell? i j = plain.cell? i k
  cell_of_not_mem : ∀ i j column, i < plain.rows.length → schema[j]? = some column →
    column ∉ plain.columns → s.cell? i j = some ""

variable {key : String} {t : Table} {schema : Option (List String)}

@[simp] theorem columns_ofTable :
    (ofTable key t schema).columns = schema.getD t.columns := rfl

@[simp] theorem length_rows_ofTable : (ofTable key t schema).rows.length = t.rows.length := by
  simp [ofTable]

/-- A sheet has a cell for each row and column of its table. -/
theorem cell?_ofTable (i j : Nat) :
    (ofTable key t schema).cell? i j =
      t.rows[i]?.bind fun row => (schema.getD t.columns)[j]?.map row.cell := by
  simp only [cell?, ofTable, Row.cells, List.getElem?_map]
  cases t.rows[i]? with
  | none => rfl
  | some row => simp

/-- Rows are as long as there are columns. -/
theorem length_of_mem_rows_ofTable {row : List String} (h : row ∈ (ofTable key t schema).rows) :
    row.length = (ofTable key t schema).columns.length := by
  obtain ⟨r, -, rfl⟩ := List.mem_map.1 h
  exact r.length_cells _

/-- Where a table shows all that its rows assign, its sheet under a schema comes to the sheet
without one, column by column. -/
theorem reindexes_ofTable (ht : t.ShowsAll) (S : List String) :
    Reindexes S (ofTable key t none) (ofTable key t (some S)) where
  name_eq := rfl
  columns_eq := rfl
  length_rows := by simp
  cell_of_column i j k column hj hk := by
    rw [columns_ofTable, Option.getD_none] at hk
    simp only [cell?_ofTable, Option.getD_some, Option.getD_none, hj, hk]
  cell_of_not_mem i j column hi hj hcolumn := by
    rw [length_rows_ofTable] at hi
    rw [columns_ofTable, Option.getD_none] at hcolumn
    have hrow : t.rows[i]? = some t.rows[i] := List.getElem?_eq_getElem hi
    have hkey : column ∉ t.rows[i].keys := fun h => hcolumn (ht _ (List.getElem_mem hi) column h)
    simp only [cell?_ofTable, Option.getD_some, hj, hrow, Option.bind_some, Option.map_some]
    rw [Row.cell_of_not_mem hkey]

/-- A schema may repeat a column, leave one out and name one that the table lacks. -/
example : ofTable "r" ⟨["a", "b"], [.single "a" "1", .single "b" "2"], none⟩
    (some ["b", "c", "b"]) = ⟨"r", ["b", "c", "b"], [["", "", ""], ["2", "", "2"]]⟩ := by
  decide

end Sheet

namespace Workbook

/-! ## The sheets of rules -/

/-- The sheet is that of the rule. -/
def IsSheetOf (schema : Option (List String)) (rule : String × String) (s : Sheet) : Prop :=
  ∃ t, Table.ofRule rule.2 = .ok t ∧ s = .ofTable rule.1 t schema

/-- The rule with the given key is the first one without a table, and the error says why. -/
def FirstError (rules : List (String × String)) (key : String) (error : Error) : Prop :=
  ∃ before body after, rules = before ++ (key, body) :: after ∧
    (∀ rule ∈ before, ∃ t, Table.ofRule rule.2 = .ok t) ∧ Table.ofRule body = .error error

variable {schema : Option (List String)} {rules : List (String × String)}

theorem FirstError.cons {key : String} {error : Error} {rule : String × String} {t : Table}
    (ht : Table.ofRule rule.2 = .ok t) (h : FirstError rules key error) :
    FirstError (rule :: rules) key error := by
  obtain ⟨before, body, after, rfl, hbefore, hbody⟩ := h
  exact ⟨rule :: before, body, after, rfl, List.forall_mem_cons.2 ⟨⟨t, ht⟩, hbefore⟩, hbody⟩

theorem sheetsOf_cons_of_error {key body : String} {error : Error}
    (h : Table.ofRule body = .error error) :
    sheetsOf schema ((key, body) :: rules) = .error (.rule key error) := by
  rw [sheetsOf, h]
  rfl

theorem sheetsOf_cons_of_ok {key body : String} {t : Table} (h : Table.ofRule body = .ok t) :
    sheetsOf schema ((key, body) :: rules) =
      (sheetsOf schema rules).map fun sheets => .ofTable key t schema :: sheets := by
  rw [sheetsOf, h, sheetOf]
  cases sheetsOf schema rules <;> rfl

/-- Either some rule has an error, and the first such rule gives its own, or every rule has its
sheet. -/
theorem sheetsOf_cases (schema : Option (List String)) (rules : List (String × String)) :
    (∃ key error, FirstError rules key error ∧
      sheetsOf schema rules = .error (.rule key error)) ∨
    ∃ sheets, sheetsOf schema rules = .ok sheets ∧
      List.Forall₂ (IsSheetOf schema) rules sheets := by
  induction rules with
  | nil => exact .inr ⟨[], rfl, .nil⟩
  | cons rule rules ih =>
    obtain ⟨key, body⟩ := rule
    cases ht : Table.ofRule body with
    | error error =>
      exact .inl ⟨key, error, ⟨[], body, rules, rfl, List.forall_mem_nil _, ht⟩,
        sheetsOf_cons_of_error ht⟩
    | ok t =>
      rw [sheetsOf_cons_of_ok ht]
      rcases ih with ⟨firstKey, error, hfirst, herror⟩ | ⟨sheets, hok, hsheets⟩
      · exact .inl ⟨firstKey, error, hfirst.cons ht, by rw [herror]; rfl⟩
      · exact .inr ⟨_, by rw [hok]; rfl, .cons ⟨t, ht, rfl⟩ hsheets⟩

/-- Whether a rulebook has sheets does not depend on the schema. -/
theorem sheetsOf_none_of_forall₂ {sheets : List Sheet}
    (h : List.Forall₂ (IsSheetOf schema) rules sheets) :
    ∃ plain, sheetsOf none rules = .ok plain ∧
      ∀ S, schema = some S → List.Forall₂ (Sheet.Reindexes S) plain sheets := by
  induction h with
  | nil => exact ⟨[], rfl, fun _ _ => .nil⟩
  | @cons rule sheet rules sheets hsheet _ ih =>
    obtain ⟨t, ht, rfl⟩ := hsheet
    obtain ⟨plain, hplain, hreindexes⟩ := ih
    refine ⟨.ofTable rule.1 t none :: plain, ?_, fun S hS => .cons ?_ (hreindexes S hS)⟩
    · rw [sheetsOf_cons_of_ok ht, hplain]
      rfl
    · rw [hS]
      exact Sheet.reindexes_ofTable (Table.showsAll_ofRule ht) S

theorem length_of_forall₂ {sheets : List Sheet}
    (h : List.Forall₂ (IsSheetOf schema) rules sheets) :
    ∀ s ∈ sheets, ∀ row ∈ s.rows, row.length = s.columns.length := by
  induction h with
  | nil => exact List.forall_mem_nil _
  | cons hsheet _ ih =>
    obtain ⟨t, -, rfl⟩ := hsheet
    exact List.forall_mem_cons.2 ⟨fun row hrow => Sheet.length_of_mem_rows_ofTable hrow, ih⟩

/-! ## Workbooks -/

/-- A rulebook has either the error of its first rule without a table, introduced by the key of
the rule, or a workbook. The workbook has the sheet of each rule in the order of the rules, with
rows as long as there are columns. There is then a workbook without the schema as well, and
each sheet under the schema shows the cells of the sheet in its place there. A workbook that is
built through a memo is the same one (`Memo.WellKept.workbook_fst`). -/
theorem build_cases (book : Rulebook) (schema : Option (List String)) :
    (∃ key error, FirstError book.entries key error ∧
      build book schema = .error (.rule key error) ∧ (Error.rule key error).kind = .rule ∧
      (Error.rule key error).detail = s!"{key}: {error.message}") ∨
    ∃ w plain, build book schema = .ok w ∧ build book none = .ok plain ∧
      List.Forall₂ (IsSheetOf schema) book.entries w.sheets ∧
      (∀ s ∈ w.sheets, ∀ row ∈ s.rows, row.length = s.columns.length) ∧
      ∀ S, schema = some S → List.Forall₂ (Sheet.Reindexes S) plain.sheets w.sheets := by
  rcases sheetsOf_cases schema book.entries with ⟨key, error, hfirst, herror⟩ | ⟨sheets, hok, h⟩
  · refine .inl ⟨key, error, hfirst, ?_, rfl, Error.detail_rule key error⟩
    rw [build, herror]
    rfl
  · obtain ⟨plain, hplain, hreindexes⟩ := sheetsOf_none_of_forall₂ h
    refine .inr ⟨⟨sheets⟩, ⟨plain⟩, ?_, ?_, h, length_of_forall₂ h, hreindexes⟩
    · rw [build, hok]
      rfl
    · rw [build, hplain]
      rfl

/-- What a rulebook is built into, from the workbook by itself. -/
theorem build_eq_ok_of_toOption {book : Rulebook} {w : Workbook}
    (h : (build book schema).toOption = some w) : build book schema = .ok w := by
  cases hbuild : build book schema with
  | error error =>
    rw [hbuild] at h
    cases h
  | ok found =>
    rw [hbuild] at h
    rw [Option.some.inj h]

/-- Two rules under a schema that repeats a column, leaves some out and names one that neither rule
has. -/
theorem build_cases_schema :
    let book : Rulebook :=
      .ofList [("grade", "x = 1 AND t.y IN ('p', 'q')"),
        ("tier", "CASE WHEN y = 02 THEN 'hit' ELSE 'miss' END AS tier")]
    let schema := ["y", "unknown", "tier", "y"]
    let w : Workbook :=
      ⟨[⟨"grade", schema, [["p", "", "", "p"], ["q", "", "", "q"]]⟩,
        ⟨"tier", schema, [["2", "", "hit", "2"], ["*", "", "miss", "*"]]⟩]⟩
    let plain : Workbook :=
      ⟨[⟨"grade", ["x", "y"], [["1", "p"], ["1", "q"]]⟩,
        ⟨"tier", ["y", "direct mapped", "tier"], [["2", "hit", "hit"], ["*", "miss", "miss"]]⟩]⟩
    build book (some schema) = .ok w ∧ build book none = .ok plain ∧
      List.Forall₂ (IsSheetOf (some schema)) book.entries w.sheets ∧
      (∀ s ∈ w.sheets, ∀ row ∈ s.rows, row.length = s.columns.length) ∧
      List.Forall₂ (Sheet.Reindexes schema) plain.sheets w.sheets := by
  intro book schema w plain
  have hbuild : build book (some schema) = .ok w := build_eq_ok_of_toOption (by decide +kernel)
  have hplain : build book none = .ok plain := build_eq_ok_of_toOption (by decide +kernel)
  rcases build_cases book (some schema) with ⟨key, error, -, herror, -⟩ |
      ⟨found, foundPlain, hfound, hfoundPlain, hsheets, hlength, hreindexes⟩
  · rw [hbuild] at herror
    cases herror
  · obtain rfl : w = found := Except.ok.inj (hbuild.symm.trans hfound)
    obtain rfl : plain = foundPlain := Except.ok.inj (hplain.symm.trans hfoundPlain)
    exact ⟨hbuild, hplain, hsheets, hlength, hreindexes schema rfl⟩

end Workbook

end DecisionTable
