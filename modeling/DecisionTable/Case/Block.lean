import DecisionTable.Table.Basic

/-!
# `CASE` blocks and their tables

A block is a list of branches, each with a condition and an output, and possibly a fallback
output for assignments that satisfy none of them. Its table has the rows of every branch,
tagged with the branch's output, and a row of wildcards for the fallback.
-/

namespace DecisionTable.Case

/-- A condition and the output where it holds. -/
structure Branch where
  condition : Expression
  output : String
  deriving DecidableEq, Repr

/-- The parts of a `CASE` block. -/
structure Block where
  branches : List Branch
  /-- The output of `ELSE`. -/
  fallback : Option String
  /-- The name of the output. -/
  outputColumn : String
  deriving DecidableEq, Repr

/-- The column that holds the output of every row, whatever the output is called. -/
def tagColumn : String := "direct mapped"

/-- The name of an output that has no alias. -/
def defaultOutputColumn : String := "output"

/-- What the row of the fallback shows for any value. -/
def wildcard : String := "*"

/-! ## Ascending lists -/

/-- Adds a text to a strictly ascending list, unless it is there. Texts are compared by code
points. -/
def insertAscending (s : String) : List String → List String
  | [] => [s]
  | t :: ts => if s < t then s :: t :: ts else if s = t then t :: ts else t :: insertAscending s ts

/-- The texts of a list in ascending order, each once. -/
def ascending (l : List String) : List String := l.foldl (fun found s => insertAscending s found) []

theorem mem_insertAscending {s x : String} {l : List String} :
    x ∈ insertAscending s l ↔ x = s ∨ x ∈ l := by
  induction l with
  | nil => simp [insertAscending]
  | cons t ts ih =>
    rw [insertAscending]
    split
    · simp
    · split
      · next h => subst h; simp
      · simp only [List.mem_cons, ih]
        exact or_left_comm

/-- Adding a text keeps a list strictly ascending. -/
theorem pairwise_insertAscending {s : String} {l : List String} (h : l.Pairwise (· < ·)) :
    (insertAscending s l).Pairwise (· < ·) := by
  induction l with
  | nil => simp [insertAscending]
  | cons t ts ih =>
    rw [List.pairwise_cons] at h
    rw [insertAscending]
    split
    · next hst =>
      refine List.pairwise_cons.2 ⟨fun x hx => ?_, List.pairwise_cons.2 h⟩
      rcases List.mem_cons.1 hx with rfl | hx
      · exact hst
      · exact String.lt_trans hst (h.1 x hx)
    · next hst =>
      split
      · exact List.pairwise_cons.2 h
      · next hne =>
        refine List.pairwise_cons.2 ⟨fun x hx => ?_, ih h.2⟩
        rcases mem_insertAscending.1 hx with rfl | hx
        · exact Decidable.byContradiction fun hts =>
            hne (String.le_antisymm (String.not_lt.1 hts) (String.not_lt.1 hst))
        · exact h.1 x hx

theorem mem_ascending {x : String} {l : List String} : x ∈ ascending l ↔ x ∈ l := by
  have main : ∀ (l found : List String),
      x ∈ l.foldl (fun found s => insertAscending s found) found ↔ x ∈ found ∨ x ∈ l := by
    intro l
    induction l with
    | nil => simp
    | cons s l ih =>
      intro found
      rw [List.foldl_cons, ih, mem_insertAscending, List.mem_cons, or_comm (a := x = s), or_assoc]
  simpa [ascending] using main l []

theorem pairwise_ascending (l : List String) : (ascending l).Pairwise (· < ·) := by
  have main : ∀ (l found : List String), found.Pairwise (· < ·) →
      (l.foldl (fun found s => insertAscending s found) found).Pairwise (· < ·) := by
    intro l
    induction l with
    | nil => exact fun found h => h
    | cons s l ih => exact fun found h => ih _ (pairwise_insertAscending h)
  exact main l [] List.Pairwise.nil

/-! ## The table of a block -/

/-- A row with an output under both output columns. -/
def tag (outputColumn output : String) (row : Row) : Row :=
  (row.insert tagColumn output).insert outputColumn output

/-- The columns that rows assign, the output columns apart, in ascending order. -/
def dataColumns (outputColumn : String) (rows : List Row) : List String :=
  ascending ((rows.flatMap OrderedMap.keys).filter fun c => c ≠ tagColumn ∧ c ≠ outputColumn)

/-- The row of the fallback: any value in every data column. -/
def fallbackRow (outputColumn : String) (columns : List String) (output : String) : Row :=
  tag outputColumn output (.ofList (columns.map fun c => (c, wildcard)))

theorem mem_keys_tag {outputColumn output : String} {row : Row} {k : String} :
    k ∈ (tag outputColumn output row).keys ↔ k = outputColumn ∨ k = tagColumn ∨ k ∈ row.keys := by
  rw [tag, OrderedMap.mem_keys_insert, OrderedMap.mem_keys_insert]

theorem mem_dataColumns {outputColumn : String} {rows : List Row} {k : String} :
    k ∈ dataColumns outputColumn rows ↔
      (∃ row ∈ rows, k ∈ row.keys) ∧ k ≠ tagColumn ∧ k ≠ outputColumn := by
  simp [dataColumns, mem_ascending]

theorem mem_keys_fallbackRow {outputColumn output : String} {columns : List String} {k : String} :
    k ∈ (fallbackRow outputColumn columns output).keys ↔
      k = outputColumn ∨ k = tagColumn ∨ k ∈ columns := by
  simp [fallbackRow, mem_keys_tag, OrderedMap.ofList, OrderedMap.mem_keys_insertAll]

namespace Block

/-- The rows of the branches, in order. -/
def branchRows (b : Block) : List Row :=
  b.branches.flatMap fun branch => branch.condition.rows.map (tag b.outputColumn branch.output)

/-- The table of a block. -/
def table (b : Block) : Table :=
  let rows := b.branchRows
  let columns := dataColumns b.outputColumn rows
  { columns := columns ++ [tagColumn, b.outputColumn]
    rows := rows ++ (b.fallback.map (fallbackRow b.outputColumn columns)).toList
    outputColumn := some b.outputColumn }

end Block

end DecisionTable.Case
