import DecisionTable.Expansion.Satisfaction
import DecisionTable.Case.Block

/-!
# Deciding by a block and by its table

What a block decides, and what a reader of its table decides: the reader goes down the rows
and takes the first one that applies. A row applies when its data agree with the values of
the columns; the row of the fallback, the last one, applies to everything.
-/

namespace DecisionTable.Case

namespace Block

/-- The output that a block decides on: that of the first branch that holds, or else the
fallback. -/
def decide (b : Block) (σ : Valuation) : Option String :=
  match b.branches.find? fun branch => branch.condition.holds σ with
  | some branch => some branch.output
  | none => b.fallback

end Block

/-- Whether the data of a row agree with the values of the columns. Output columns are no
data. -/
def applies (outputColumn : String) (σ : Valuation) (row : Row) : Bool :=
  row.entries.all fun e => e.1 = tagColumn || e.1 = outputColumn || σ e.1 = e.2

/-- The first row that applies, where the last one is that of a fallback if `withFallback`
holds. -/
def firstMatch (outputColumn : String) (withFallback : Bool) (σ : Valuation) (rows : List Row) :
    Option Row :=
  if withFallback then (rows.dropLast.find? (applies outputColumn σ)) <|> rows.getLast?
  else rows.find? (applies outputColumn σ)

/-- The row of a block's table that a reader of the table decides by. -/
def Block.matchingRow (b : Block) (σ : Valuation) : Option Row :=
  firstMatch b.outputColumn b.fallback.isSome σ b.table.rows

theorem firstMatch_false (outputColumn : String) (σ : Valuation) (rows : List Row) :
    firstMatch outputColumn false σ rows = rows.find? (applies outputColumn σ) := rfl

/-- With a fallback, the row at the end applies where no other does. -/
theorem firstMatch_true_append_singleton (outputColumn : String) (σ : Valuation)
    (rows : List Row) (last : Row) :
    firstMatch outputColumn true σ (rows ++ [last]) =
      some ((rows.find? (applies outputColumn σ)).getD last) := by
  simp only [firstMatch, if_true, List.dropLast_concat, List.getLast?_append]
  cases rows.find? (applies outputColumn σ) <;> rfl

end DecisionTable.Case
