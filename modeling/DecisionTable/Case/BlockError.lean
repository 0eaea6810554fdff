import DecisionTable.Condition.ReadError
import DecisionTable.ErrorKind

/-!
# What can be wrong with a `CASE` block
-/

namespace DecisionTable.Case

/-- Why a text is not a `CASE` block. -/
inductive BlockError where
  /-- The text does not begin with `CASE`. -/
  | noCase
  /-- No `END` closes the block. -/
  | noEnd
  /-- Another block begins or ends within the block, at the given byte. -/
  | nested (offset : Nat)
  /-- A text stands before the first branch. -/
  | leadingText (text : String)
  /-- A `WHEN` has no `THEN`. -/
  | whenWithoutThen
  /-- A `THEN` has no `WHEN`. -/
  | thenWithoutWhen
  /-- A branch follows the `ELSE`. -/
  | elseNotLast
  /-- The condition of a branch cannot be read. -/
  | condition (text : String) (error : ReadError)
  deriving DecidableEq, Repr

namespace BlockError

/-- A text without its keywords is no block; everything else is a fault within one. -/
def kind : BlockError → ErrorKind
  | noCase => .precondition
  | noEnd => .precondition
  | _ => .malformed

/-- What is wrong, in words. -/
def detail : BlockError → String
  | noCase => "Must start with CASE"
  | noEnd => "Missing END"
  | nested offset => s!"nested CASE is not supported (offset {offset})"
  | leadingText text => s!"unexpected text before first WHEN: '{text}'"
  | whenWithoutThen => "WHEN without THEN"
  | thenWithoutWhen => "THEN without WHEN"
  | elseNotLast => "ELSE must be the last branch"
  | condition text error =>
    s!"in WHEN '{text}': {ErrorKind.malformed.introduce error.message}"

end BlockError

end DecisionTable.Case
