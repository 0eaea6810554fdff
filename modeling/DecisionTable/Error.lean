import DecisionTable.Case.BlockError

/-!
# Errors

Everything that can go wrong on the way from a text or a file to tables, with its words.
-/

namespace DecisionTable

/-- Why there is no table, no workbook or no rulebook. -/
inductive Error where
  | condition (error : ReadError)
  | block (error : Case.BlockError)
  /-- The rule with the given key has an error. -/
  | rule (key : String) (error : Error)
  /-- There is no such file. -/
  | noFile
  /-- A file is not UTF-8 text. -/
  | notText
  deriving Repr

namespace Error

/-- What the error is about. -/
def kind : Error → ErrorKind
  | condition _ => .malformed
  | block error => error.kind
  | rule _ _ => .rule
  | noFile => .file
  | notText => .file

/-- What is wrong, in words. The error of a rule is introduced by its own kind. -/
def detail : Error → String
  | condition error => error.message
  | block error => error.detail
  | rule key error => s!"{key}: {error.kind.introduce error.detail}"
  | noFile => "No such file or directory (os error 2)"
  | notText => "stream did not contain valid UTF-8"

/-- The error in words, introduced by its kind. -/
def message (e : Error) : String := e.kind.introduce e.detail

@[simp] theorem detail_rule (key : String) (e : Error) :
    (rule key e).detail = s!"{key}: {e.message}" := by
  rw [detail]
  rfl

end Error

end DecisionTable
