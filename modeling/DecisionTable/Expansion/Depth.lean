import DecisionTable.Expansion

/-!
# Depth of a condition

A condition is walked by calls: one for the condition and, within it, one for each of its terms.
As many calls are nested as a path from the root has nodes. Here the walks are given the number of
calls that may be nested, and give nothing if that is not enough: what they need is bounded by the
paths, and chains of any length are walked in one call.
-/

namespace DecisionTable.Expression

/-! ## Paths -/

/-- The nodes met from the root of a condition downwards, each a term of the node before it. A path
that ends at a clause goes to a leaf. -/
inductive IsPath : Expression → List Expression → Prop where
  | root {e : Expression} : IsPath e [e]
  | all {t : Expression} {ts path : List Expression} :
      t ∈ ts → IsPath t path → IsPath (all ts) (all ts :: path)
  | any {t : Expression} {ts path : List Expression} :
      t ∈ ts → IsPath t path → IsPath (any ts) (any ts :: path)

/-! ## Walks -/

/-- The rows of a condition, found with `n` nested calls at most. -/
def rowsWithin : Nat → Expression → Option (List Row)
  | 0, _ => none
  | _ + 1, clause c => some (c.values.map (OrderedMap.single c.column))
  | _ + 1, all [] => some []
  | n + 1, all (t :: ts) => do
    let first ← rowsWithin n t
    ts.foldlM (fun found u =>
      if found.isEmpty then some found else (rowsWithin n u).map (mergeRows found)) first
  | n + 1, any ts => ts.foldlM (fun found t => (rowsWithin n t).map (found ++ ·)) []

/-- The columns found so far with those of a condition behind them, collected with `n` nested
calls at most. -/
def collectWithin : Nat → List String → Expression → Option (List String)
  | 0, _, _ => none
  | _ + 1, found, clause c => some (addNew found c.column)
  | n + 1, found, all ts => ts.foldlM (collectWithin n) found
  | n + 1, found, any ts => ts.foldlM (collectWithin n) found

/-- The columns of a condition, collected with `n` nested calls at most. -/
def columnsWithin (n : Nat) (e : Expression) : Option (List String) := collectWithin n [] e

/-- A condition of depth `n` at most: no path has more nodes, and with no more calls nested its
rows are found and its columns are collected. -/
structure WithinDepth (n : Nat) (e : Expression) : Prop where
  length_path : ∀ path, IsPath e path → path.length ≤ n
  rowsWithin_eq : rowsWithin n e = some e.rows
  columnsWithin_eq : columnsWithin n e = some e.columns

end DecisionTable.Expression
