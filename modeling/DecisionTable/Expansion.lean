import DecisionTable.Row
import DecisionTable.Condition.Expression

/-!
# Expanding a condition into rows

The rows of a condition are the assignments that satisfy it, one for each way to pick a
value for every clause that takes part. A disjunction lists the rows of its terms one after
the other; a conjunction merges every choice of one row from each term, the first term
varying slowest, and drops the choices that give a column two values.
-/

namespace DecisionTable

/-- Every merge of a row of the first list with a row of the second. -/
def mergeRows (left right : List Row) : List Row :=
  left.flatMap fun l => right.filterMap (Row.merge? l)

@[simp] theorem mergeRows_nil_left (right : List Row) : mergeRows [] right = [] := rfl

namespace Expression

mutual

/-- The rows of a condition, in order. A conjunction of nothing has none. -/
def rows : Expression → List Row
  | clause c => c.values.map (OrderedMap.single c.column)
  | all [] => []
  | all (t :: ts) => rowsWith (rows t) ts
  | any ts => rowsOfAny ts

/-- Rows merged with those of further terms. Once no row is left, no term can bring one
back, so the remaining terms are not expanded. -/
def rowsWith (found : List Row) : List Expression → List Row
  | [] => found
  | t :: ts => if found.isEmpty then [] else rowsWith (mergeRows found (rows t)) ts

/-- The rows of the terms of a disjunction, one term after the other. -/
def rowsOfAny : List Expression → List Row
  | [] => []
  | t :: ts => rows t ++ rowsOfAny ts

end

@[simp] theorem rows_clause (c : Clause) :
    rows (clause c) = c.values.map (OrderedMap.single c.column) := by rw [rows]

@[simp] theorem rows_all_nil : rows (all []) = [] := by rw [rows]

@[simp] theorem rowsWith_nil (found : List Row) : rowsWith found [] = found := by rw [rowsWith]

theorem rowsWith_eq_foldl (ts : List Expression) (found : List Row) :
    rowsWith found ts = ts.foldl (fun found t => mergeRows found (rows t)) found := by
  induction ts generalizing found with
  | nil => rw [rowsWith, List.foldl_nil]
  | cons t ts ih =>
    rw [rowsWith]
    split
    · next h =>
      have hnil : ∀ us : List Expression,
          us.foldl (fun found t => mergeRows found (rows t)) [] = [] := by
        intro us
        induction us with
        | nil => rfl
        | cons u us ih => simpa using ih
      rw [List.isEmpty_iff.1 h, hnil]
    · rw [ih, List.foldl_cons]

/-- A conjunction merges the rows of its terms from left to right. -/
theorem rows_all_cons (t : Expression) (ts : List Expression) :
    rows (all (t :: ts)) = ts.foldl (fun found t => mergeRows found (rows t)) (rows t) := by
  rw [rows, rowsWith_eq_foldl]

/-- A disjunction lists the rows of its terms. -/
theorem rows_any (ts : List Expression) : rows (any ts) = ts.flatMap rows := by
  rw [rows]
  induction ts with
  | nil => rw [rowsOfAny, List.flatMap_nil]
  | cons t ts ih => rw [rowsOfAny, List.flatMap_cons, ih]

end Expression

end DecisionTable
