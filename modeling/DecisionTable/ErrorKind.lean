/-!
# Kinds of errors

What an error is about, with the words that introduce its message.
-/

namespace DecisionTable

/-- What an error is about. -/
inductive ErrorKind where
  /-- A token is missing or out of place. -/
  | malformed
  /-- A text is no `CASE` block at all. -/
  | precondition
  /-- A rule of a rule file is wrong. -/
  | rule
  /-- A file cannot be read. -/
  | file
  deriving DecidableEq, Repr

namespace ErrorKind

/-- The words that introduce a message. -/
def label : ErrorKind → String
  | malformed => "Syntax error"
  | precondition => "Precondition failed"
  | rule => "Invalid rule"
  | file => "IO error"

/-- A message with the words that introduce it. -/
def introduce (kind : ErrorKind) (detail : String) : String := s!"{kind.label}: {detail}"

end ErrorKind

end DecisionTable
