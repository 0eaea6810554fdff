import DecisionTable.Case.Reader
import DecisionTable.Condition.Memo
import DecisionTable.Error

/-!
# The table of a rule

A rule is a `CASE` block or a bare condition. Bare conditions may be read through a memo.
-/

namespace DecisionTable

/-- The table of a `CASE` block. -/
def Table.ofBlock (text : String) : Except Error Table :=
  match Case.Block.read text with
  | .ok block => .ok block.table
  | .error error => .error (.block error)

/-- The table of a bare condition that was read. -/
def Table.ofCondition : Except ReadError Expression → Except Error Table
  | .ok e => .ok (.ofExpression e)
  | .error error => .error (.condition error)

/-- The table of a rule. -/
def Table.ofRule (body : String) : Except Error Table :=
  if Case.Block.isBlock body then ofBlock body else ofCondition (Expression.read body)

namespace Memo

/-- The table of a rule whose condition is read through a memo, with the memo after. -/
def tableOfRule (m : Memo) (body : String) : Except Error Table × Memo :=
  if Case.Block.isBlock body then (Table.ofBlock body, m)
  else
    let (result, m) := m.read body
    (Table.ofCondition result, m)

/-- The rows of a condition that is read through a memo, with the memo after. -/
def rows (m : Memo) (condition : String) : Except ReadError (List Row) × Memo :=
  let (result, m) := m.read condition
  (result.map Expression.rows, m)

end Memo

end DecisionTable
