import DecisionTable.Condition.Reader
import DecisionTable.Case.Keyword
import DecisionTable.Case.Block
import DecisionTable.Case.BlockError

/-!
# Reading `CASE` blocks

A block is `CASE`, then `WHEN condition THEN output` any number of times, then possibly
`ELSE output`, then `END` and possibly an alias for the output. The last `END` of the text
closes the block; whatever follows the alias is ignored. Blank characters around the block
do not count.
-/

namespace DecisionTable.Case

open Text

/-! ## The parts of a block -/

/-- Whether a character may be put around an output. -/
def isQuoteMark (c : Char) : Bool := c = '\'' || c = '"'

/-- An output without blanks and quote marks around it. -/
def outputOf (cs : List Char) : String := .ofList (strip isQuoteMark (trim cs))

/-- The condition of a branch. -/
def conditionOf (cs : List Char) : Except BlockError Expression :=
  match Expression.read (.ofList cs) with
  | .ok e => .ok e
  | .error error => .error (.condition (.ofList (trim cs)) error)

/-- The alias for the output that follows the end of a block, if one does. -/
def aliasOf? (cs : List Char) : Option String :=
  match stripLeft isBlank cs with
  | a :: s :: rest =>
    let name := run (stripLeft isBlank rest)
    if [a, s].map foldCase = ['a', 's'] ∧ rest.takeWhile isBlank ≠ [] ∧ name ≠ [] then
      some (.ofList name)
    else none
  | _ => none

/-- The segments before, at and after the last `END`. -/
def splitAtLastEnd : List Segment → Option (List Segment × Segment × List Segment)
  | [] => none
  | s :: rest =>
    match splitAtLastEnd rest with
    | some (body, last, after) => some (s :: body, last, after)
    | none => if s.keyword = .endKw then some ([], s, rest) else none

/-- Whether a keyword can only belong to another block. -/
def isOutermost : Keyword → Bool
  | .caseKw => true
  | .endKw => true
  | _ => false

/-- The branches between `CASE` and `END`, and the output of `ELSE`. -/
def readBranches : List Segment → Except BlockError (List Branch × Option String)
  | [] => .ok ([], none)
  | s :: rest =>
    match s.keyword, rest with
    | .whenKw, t :: rest =>
      if t.keyword = .thenKw then do
        let condition ← conditionOf s.text
        let (branches, fallback) ← readBranches rest
        .ok (⟨condition, outputOf t.text⟩ :: branches, fallback)
      else .error .whenWithoutThen
    | .whenKw, [] => .error .whenWithoutThen
    | .elseKw, [] => .ok ([], some (outputOf s.text))
    | .elseKw, _ :: _ => .error .elseNotLast
    | .thenKw, _ => .error .thenWithoutWhen
    | .caseKw, _ => .error (.nested s.offset)
    | .endKw, _ => .error (.nested s.offset)

/-! ## The block -/

/-- Whether the pieces and segments of a text begin with `CASE`. -/
def beginsWithCase : List Piece × List Segment → Bool
  | ([], s :: _) => s.keyword = .caseKw
  | _ => false

/-- The block of the segments after `CASE`, given the text between them. -/
def readAfterCase (leading : List Char) (rest : List Segment) : Except BlockError Block :=
  match splitAtLastEnd rest with
  | none => .error .noEnd
  | some (body, last, after) =>
    match body.find? fun s => isOutermost s.keyword with
    | some s => .error (.nested s.offset)
    | none =>
      if trim leading ≠ [] then .error (.leadingText (.ofList (trim leading)))
      else do
        let (branches, fallback) ← readBranches body
        let tail := last.text ++ after.flatMap Segment.chars
        .ok ⟨branches, fallback, (aliasOf? tail).getD defaultOutputColumn⟩

namespace Block

/-- Whether a text begins as a block does. -/
def isBlock (text : String) : Bool := beginsWithCase (segments (trim text.toList))

/-- The block that a text is. -/
def read (text : String) : Except BlockError Block :=
  match segments (trim text.toList) with
  | ([], s :: rest) => if s.keyword = .caseKw then readAfterCase s.text rest else .error .noCase
  | _ => .error .noCase

end Block

end DecisionTable.Case
