import DecisionTable.Table.Basic

/-!
# Aligned text

Rows are shown under a header and a rule of dashes. Every column is as wide as the longest
text in it, counted in code points, and texts stand at the left of their column. Without
rows nothing is shown, not even the header.
-/

namespace DecisionTable

namespace Layout

/-- The width of a column: that of its name or of the widest cell under it. -/
def width (rows : List Row) (column : String) : Nat :=
  rows.foldl (fun w row => max w (row.cell column).length) column.length

/-- The widths of the columns. -/
def widths (rows : List Row) (columns : List String) : List Nat := columns.map (width rows)

/-- A text with blanks after it, up to a width. -/
def pad (width : Nat) (text : String) : List Char :=
  text.toList ++ List.replicate (width - text.length) ' '

/-- Texts under columns of the given widths. -/
def textLine (widths : List Nat) (texts : List String) : List Char :=
  [' ', '|', ' '].intercalate (List.zipWith pad widths texts)

/-- The line between the header and the rows. -/
def ruleLine (widths : List Nat) : List Char :=
  ['-', '+', '-'].intercalate (widths.map fun w => List.replicate w '-')

/-- All lines of the text. -/
def lines (rows : List Row) (columns : List String) : List (List Char) :=
  if rows.isEmpty then []
  else
    let ws := widths rows columns
    textLine ws columns :: ruleLine ws :: rows.map fun row => textLine ws (row.cells columns)

/-- Rows as aligned text under the given columns, every line ended by a line feed. -/
def render (rows : List Row) (columns : List String) : String :=
  .ofList ((lines rows columns).flatMap (· ++ ['\n']))

/-- A column is as wide as its name at least. -/
theorem length_le_width (rows : List Row) (column : String) :
    column.length ≤ width rows column := by
  have main : ∀ (rows : List Row) (w : Nat),
      w ≤ rows.foldl (fun w row => max w (row.cell column).length) w := by
    intro rows
    induction rows with
    | nil => exact fun w => Nat.le_refl w
    | cons row rows ih => exact fun w => Nat.le_trans (Nat.le_max_left _ _) (ih _)
  exact main rows column.length

/-- A column is as wide as each of its cells at least. -/
theorem length_cell_le_width {rows : List Row} {row : Row} (h : row ∈ rows) (column : String) :
    (row.cell column).length ≤ width rows column := by
  have main : ∀ (rows : List Row) (w : Nat), w ≤ rows.foldl
      (fun w row => max w (row.cell column).length) w ∧ (row ∈ rows → (row.cell column).length ≤
        rows.foldl (fun w row => max w (row.cell column).length) w) := by
    intro rows
    induction rows with
    | nil => exact fun w => ⟨Nat.le_refl w, by simp⟩
    | cons r rows ih =>
      intro w
      rw [List.foldl_cons]
      refine ⟨Nat.le_trans (Nat.le_max_left _ _) (ih _).1, fun hm => ?_⟩
      rcases List.mem_cons.1 hm with rfl | hm
      · exact Nat.le_trans (Nat.le_max_right _ _) (ih _).1
      · exact (ih _).2 hm
  exact (main rows column.length).2 h

@[simp] theorem length_widths (rows : List Row) (columns : List String) :
    (widths rows columns).length = columns.length := by simp [widths]

end Layout

/-- A table as aligned text. -/
def Table.render (t : Table) : String := Layout.render t.rows t.columns

end DecisionTable
