import DecisionTable.Condition.Token

/-!
# What can be wrong with a condition

Reading stops at the first token that no condition can have at its place, or at the end of
the input where something is still owed. An error holds the cause and a position, counted
in tokens.
-/

namespace DecisionTable

/-- How deep groups may be nested. -/
def maxDepth : Nat := 128

namespace ReadError

/-- Why a list of tokens is not a condition. `found` is the token that was met, or `none` at
the end of the input. -/
inductive Cause where
  /-- A column or a group has to begin. -/
  | column (found : Option Token)
  /-- A comparison or `IN` has to follow the column. -/
  | operator (name : String) (found : Option Token)
  /-- A parenthesis has to follow `IN`. -/
  | list (found : Option Token)
  /-- A list has to go on with a value. -/
  | entry (found : Token)
  /-- A comma or a parenthesis has to follow a value of a list. -/
  | separator (found : Token)
  /-- The input ends within a list. -/
  | unclosedList
  /-- A value has to follow the comparison. -/
  | value (c : Comparison)
  /-- The input ends within parentheses of a value. -/
  | unbalancedValue
  /-- A group has to be closed. -/
  | groupEnd (found : Option Token)
  /-- The condition is over, and another token follows. -/
  | trailing (found : Token)
  /-- A group is nested too deep. -/
  | tooDeep
  deriving DecidableEq, Repr

/-- A found token in quotes, or the end of the input. -/
def describe : Option Token → String
  | some t => s!"'{t.text}'"
  | none => "end of input"

namespace Cause

/-- What is wrong, in words. -/
def message : Cause → String
  | column found => s!"expected column name, found {describe found}"
  | operator name found =>
    s!"expected comparison operator after '{name}', found {describe found}"
  | list found => s!"expected '(' after IN, found {describe found}"
  | entry found => s!"expected value in IN list, found {describe (some found)}"
  | separator found => s!"expected ',' or ')' in IN list, found {describe (some found)}"
  | unclosedList => "unclosed IN list"
  | value c => s!"expected value after '{c.symbol}'"
  | unbalancedValue => "unbalanced parentheses in value expression"
  | groupEnd found => s!"expected ')' to close group, found {describe found}"
  | trailing found => s!"unexpected token {describe (some found)}"
  | tooDeep => s!"parentheses nested deeper than {maxDepth}"

/-- Whether the position of the error is after the token that was found, not before it: so
where a column, an operator or an entry of a list was expected. -/
def isPast : Cause → Bool
  | column (some _) => true
  | operator _ (some _) => true
  | entry _ => true
  | separator _ => true
  | _ => false

end Cause

end ReadError

/-- A list of tokens is not a condition. -/
structure ReadError where
  cause : ReadError.Cause
  /-- How many tokens stand before the error. -/
  position : Nat
  deriving DecidableEq, Repr

namespace ReadError

/-- The error that a cause makes at the token with the given index. -/
def atIndex (cause : Cause) (index : Nat) : ReadError :=
  ⟨cause, if cause.isPast then index + 1 else index⟩

/-- The error in words, with its position. -/
def message (e : ReadError) : String := s!"{e.cause.message} at token {e.position}"

end ReadError

end DecisionTable
