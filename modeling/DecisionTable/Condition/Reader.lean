import DecisionTable.Condition.Expression
import DecisionTable.Condition.Lexer
import DecisionTable.Condition.ReadError

/-!
# Reading conditions

A condition is read in one pass over its tokens, one step for each. What was read so far is
a `Reader`: the groups that are open, each with its finished alternatives and terms, and
what has to come next. `AND` binds tighter than `OR`; chains of either are kept flat, and a
chain of one term is that term.

* `Reader.step` reads a token, `Reader.finish` the end of the input; either may find a cause
  of error.
* `Expression.ofTokens` and `Expression.read` read a whole condition.
-/

namespace DecisionTable

/-- A chain of one term is that term; a longer one is a node. -/
def chain (node : List Expression → Expression) : List Expression → Expression
  | [e] => e
  | es => node es

/-- The clause of a comparison with a run of tokens on its right. An equation has one
value; any other comparison is kept as a tag. -/
def Clause.ofComparison (name : String) (c : Comparison) (tokens : List Token) : Clause :=
  match c, tokens with
  | .equal, [t] => .on name .equal [t.value]
  | .equal, _ => .on name .equal [Token.join tokens]
  | c, _ => .on name (.tagged c) [s!"{c.symbol} {Token.join tokens}"]

theorem Clause.ofComparison_equal {tokens : List Token} (h : 2 ≤ tokens.length) (name : String) :
    ofComparison name .equal tokens = .on name .equal [Token.join tokens] := by
  match tokens, h with
  | _ :: _ :: _, _ => rfl

theorem Clause.ofComparison_of_ne {c : Comparison} (h : c ≠ .equal) (name : String)
    (tokens : List Token) :
    ofComparison name c tokens =
      .on name (.tagged c) [c.symbol ++ " " ++ Token.join tokens] := by
  cases c <;> first | exact absurd rfl h | rfl

namespace Reader

/-- What was read of a group. -/
structure Group where
  /-- The alternatives before the current one, the latest first. -/
  alternatives : List Expression
  /-- The terms of the current alternative, the latest first. -/
  terms : List Expression
  deriving DecidableEq, Repr

namespace Group

/-- A group of which nothing was read. -/
def empty : Group := ⟨[], []⟩

/-- A group with one more term. -/
def addTerm (g : Group) (e : Expression) : Group := ⟨g.alternatives, e :: g.terms⟩

/-- A group whose current alternative is over. -/
def endAlternative (g : Group) : Group := ⟨chain .all g.terms.reverse :: g.alternatives, []⟩

/-- The condition that a group is, when it is over. -/
def close (g : Group) : Expression := chain .any g.endAlternative.alternatives.reverse

end Group

/-- What has to come next. -/
inductive Phase where
  /-- A column, or a parenthesis that opens a group. -/
  | factor
  /-- A comparison or `IN`. -/
  | operator (name : String)
  /-- The parenthesis that opens a list. -/
  | list (name : String)
  /-- A value of a list, or its end. The values so far stand with the latest first. -/
  | entry (name : String) (values : List String)
  /-- What follows a value of a list. -/
  | separator (name : String) (values : List String)
  /-- Tokens of a value, the latest first, with as many parentheses open as `depth` says. -/
  | value (name : String) (c : Comparison) (tokens : List Token) (depth : Nat)
  /-- What follows a clause or a group. -/
  | junction
  deriving DecidableEq, Repr

end Reader

/-- What was read of a condition. -/
structure Reader where
  /-- The innermost open group; at the outermost level this is the condition itself. -/
  group : Reader.Group
  /-- The groups around it, from the inside out. -/
  outer : List Reader.Group
  phase : Reader.Phase
  deriving DecidableEq, Repr

namespace Reader

open ReadError (Cause)

/-- Before the first token. -/
def start : Reader := ⟨.empty, [], .factor⟩

/-- The reader in another phase. -/
def expect (r : Reader) (phase : Phase) : Reader := { r with phase }

/-- The reader after a clause. -/
def addClause (r : Reader) (c : Clause) : Reader :=
  ⟨r.group.addTerm (.clause c), r.outer, .junction⟩

/-! ## One token -/

/-- What follows a clause or a group: another term, another alternative, or the end of the
group. -/
def stepJunction (r : Reader) (t : Token) : Except Cause Reader :=
  match t, r.outer with
  | .andKw, _ => .ok (r.expect .factor)
  | .orKw, _ => .ok ⟨r.group.endAlternative, r.outer, .factor⟩
  | .closeParen, g :: outer => .ok ⟨g.addTerm r.group.close, outer, .junction⟩
  | t, [] => .error (.trailing t)
  | t, _ :: _ => .error (.groupEnd (some t))

/-- Whether a token ends a value when no parenthesis is open within it. -/
def endsValue : Token → Bool
  | .andKw | .orKw | .thenKw | .closeParen => true
  | _ => false

/-- How many parentheses are open after a token of a value. -/
def depthAfter (depth : Nat) : Token → Nat
  | .openParen => depth + 1
  | .closeParen => depth - 1
  | _ => depth

/-- Reads a token. -/
def step (r : Reader) (t : Token) : Except Cause Reader :=
  match r.phase with
  | .factor =>
    match t with
    | .openParen =>
      if maxDepth ≤ r.outer.length then .error .tooDeep
      else .ok ⟨.empty, r.group :: r.outer, .factor⟩
    | .word name => .ok (r.expect (.operator name))
    | t => .error (.column (some t))
  | .operator name =>
    match t with
    | .inKw => .ok (r.expect (.list name))
    | .comparison c => .ok (r.expect (.value name c [] 0))
    | t => .error (.operator name (some t))
  | .list name =>
    match t with
    | .openParen => .ok (r.expect (.entry name []))
    | t => .error (.list (some t))
  | .entry name values =>
    if t = .closeParen then .ok (r.addClause (.on name .oneOf values.reverse))
    else if t.isValue then .ok (r.expect (.separator name (t.value :: values)))
    else .error (.entry t)
  | .separator name values =>
    match t with
    | .comma => .ok (r.expect (.entry name values))
    | .closeParen => .ok (r.addClause (.on name .oneOf values.reverse))
    | t => .error (.separator t)
  | .value name c tokens depth =>
    if depth = 0 ∧ endsValue t then
      if tokens = [] then .error (.value c)
      else (r.addClause (.ofComparison name c tokens.reverse)).stepJunction t
    else .ok (r.expect (.value name c (t :: tokens) (depthAfter depth t)))
  | .junction => r.stepJunction t

/-! ## The end of the input -/

/-- The condition, if no group is open. -/
def finishJunction (r : Reader) : Except Cause Expression :=
  match r.outer with
  | [] => .ok r.group.close
  | _ :: _ => .error (.groupEnd none)

/-- Reads the end of the input. -/
def finish (r : Reader) : Except Cause Expression :=
  match r.phase with
  | .factor => .error (.column none)
  | .operator name => .error (.operator name none)
  | .list _ => .error (.list none)
  | .entry _ _ => .error .unclosedList
  | .separator _ _ => .error .unclosedList
  | .value name c tokens depth =>
    if depth ≠ 0 then .error .unbalancedValue
    else if tokens = [] then .error (.value c)
    else (r.addClause (.ofComparison name c tokens.reverse)).finishJunction
  | .junction => r.finishJunction

/-! ## All tokens -/

/-- Reads the tokens from the given index on, and the end of the input after them. -/
def run (r : Reader) (index : Nat) : List Token → Except ReadError Expression
  | [] =>
    match r.finish with
    | .ok e => .ok e
    | .error cause => .error (.atIndex cause index)
  | t :: ts =>
    match r.step t with
    | .ok r => r.run (index + 1) ts
    | .error cause => .error (.atIndex cause index)

/-- The largest number of groups that are open at once while the tokens are read. -/
def deepest (r : Reader) : List Token → Nat
  | [] => r.outer.length
  | t :: ts =>
    match r.step t with
    | .ok s => max r.outer.length (s.deepest ts)
    | .error _ => r.outer.length

theorem length_outer_le_deepest (r : Reader) (ts : List Token) :
    r.outer.length ≤ r.deepest ts := by
  cases ts with
  | nil => exact Nat.le_refl _
  | cons t ts =>
    rw [deepest]
    split
    · exact Nat.le_max_left _ _
    · exact Nat.le_refl _

end Reader

namespace Expression

/-- The condition that a list of tokens is. -/
def ofTokens (tokens : List Token) : Except ReadError Expression := Reader.start.run 0 tokens

/-- The condition that a text is. -/
def read (condition : String) : Except ReadError Expression := ofTokens (Token.scan condition)

/-- How deep the groups of a text are nested: the largest number of them that are open at once
while it is read. -/
def groupDepth (condition : String) : Nat := Reader.start.deepest (Token.scan condition)

end Expression

end DecisionTable
