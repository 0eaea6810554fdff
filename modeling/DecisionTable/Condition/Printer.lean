import DecisionTable.Condition.Expression
import DecisionTable.Condition.Token

/-!
# Writing conditions

A condition as tokens and as text. Parentheses stand around the terms that need them: every
conjunction or disjunction within a conjunction, every disjunction within a disjunction.
Only conditions in normal form, which are those that reading brings forth, can be written
so that they read back the same.
-/

namespace DecisionTable.Expression

/-! ## Normal form -/

/-- The text in front of the value of a tag. -/
def tagPrefix (c : Comparison) : List Char := c.symbol.toList ++ [' ']

/-- Whether a clause is one that reading can bring forth: its column has no qualifier, an
equation has one value, a tag begins with its symbol and a blank. -/
def normalClause (c : Clause) : Bool :=
  !c.column.toList.contains '.' &&
    match c.operator, c.values with
    | .equal, [_] => true
    | .oneOf, _ => true
    | .tagged cmp, [v] => cmp ≠ .equal && (tagPrefix cmp).isPrefixOf v.toList
    | _, _ => false

mutual

/-- Whether every conjunction and disjunction has two terms at least and every clause is
normal. -/
def isNormal : Expression → Bool
  | clause c => normalClause c
  | all ts => 2 ≤ ts.length && areNormal ts
  | any ts => 2 ≤ ts.length && areNormal ts

/-- Whether all terms are in normal form. -/
def areNormal : List Expression → Bool
  | [] => true
  | t :: ts => isNormal t && areNormal ts

end

/-! ## Nesting -/

/-- Whether a term of a conjunction stands in parentheses. -/
def isGroupInAll : Expression → Bool
  | clause _ => false
  | _ => true

/-- Whether a term of a disjunction stands in parentheses. -/
def isGroupInAny : Expression → Bool
  | any _ => true
  | _ => false

mutual

/-- How deep parentheses are nested when the condition is written. -/
def nesting : Expression → Nat
  | clause _ => 0
  | all ts => nestingIn isGroupInAll ts
  | any ts => nestingIn isGroupInAny ts

/-- How deep parentheses are nested in terms of which some stand in parentheses themselves. -/
def nestingIn (group : Expression → Bool) : List Expression → Nat
  | [] => 0
  | t :: ts => max (nesting t + if group t then 1 else 0) (nestingIn group ts)

end

mutual

/-- The number of nodes on a longest path from the root to a leaf. -/
def height : Expression → Nat
  | clause _ => 1
  | all ts => heightOf ts + 1
  | any ts => heightOf ts + 1

/-- The height of the highest term. -/
def heightOf : List Expression → Nat
  | [] => 0
  | t :: ts => max (height t) (heightOf ts)

end

/-! ## Tokens -/

/-- A value with a quote added on either side. -/
def quotedText (v : String) : String := "'" ++ v ++ "'"

/-- A value as a literal. -/
def literalOf (v : String) : Token := .literal (quotedText v)

/-- Values as literals with commas between them. -/
def entryTokens : List String → List Token
  | [] => []
  | [v] => [literalOf v]
  | v :: vs => literalOf v :: .comma :: entryTokens vs

/-- What a tag holds after its symbol and the blank. -/
def tagRest (c : Comparison) (v : String) : String := .ofList (v.toList.drop (tagPrefix c).length)

/-- A clause as tokens. -/
def clauseTokens (c : Clause) : List Token :=
  .word c.column ::
    match c.operator with
    | .equal => .comparison .equal :: c.values.map literalOf
    | .oneOf => .inKw :: .openParen :: entryTokens c.values ++ [.closeParen]
    | .tagged cmp => .comparison cmp :: c.values.map fun v => .word (tagRest cmp v)

/-- Tokens in parentheses, if they have to be. -/
def grouped (group : Bool) (ts : List Token) : List Token :=
  if group then .openParen :: ts ++ [.closeParen] else ts

section

variable (leaf : Clause → List Token)

mutual

/-- A condition as tokens, given those of its clauses. -/
def tokensBy : Expression → List Token
  | clause c => leaf c
  | all [] => []
  | all (t :: ts) => grouped (isGroupInAll t) (tokensBy t) ++ tokensIn .andKw isGroupInAll ts
  | any [] => []
  | any (t :: ts) => grouped (isGroupInAny t) (tokensBy t) ++ tokensIn .orKw isGroupInAny ts

/-- Further terms as tokens, each after a keyword, and some of them in parentheses. -/
def tokensIn (keyword : Token) (group : Expression → Bool) : List Expression → List Token
  | [] => []
  | t :: ts => keyword :: grouped (group t) (tokensBy t) ++ tokensIn keyword group ts

end

end

/-- A condition as tokens. -/
def tokens (e : Expression) : List Token := tokensBy clauseTokens e

/-! ## Text -/

/-- A column as text: a parameter as it is, any other with a qualifier, so that it is a name
whatever it looks like. -/
def columnText (column : String) : String :=
  if column.toList.head? = some '@' then column else "x." ++ column

/-- A value of an equation as text: in quotes, or as it is where it has quotes of its own. -/
def valueText (v : String) : String := if v.toList.contains '\'' then v else quotedText v

/-- A clause as text. -/
def clauseText (c : Clause) : String :=
  columnText c.column ++
    match c.operator with
    | .equal => " = " ++ " ".intercalate (c.values.map valueText)
    | .oneOf => " IN (" ++ ", ".intercalate (c.values.map quotedText) ++ ")"
    | .tagged _ => " " ++ " ".intercalate c.values

/-- A text in parentheses, if it has to be. -/
def groupedText (group : Bool) (s : String) : String := if group then "(" ++ s ++ ")" else s

mutual

/-- A condition as text. -/
def text : Expression → String
  | clause c => clauseText c
  | all [] => ""
  | all (t :: ts) => groupedText (isGroupInAll t) (text t) ++ textIn .andKw isGroupInAll ts
  | any [] => ""
  | any (t :: ts) => groupedText (isGroupInAny t) (text t) ++ textIn .orKw isGroupInAny ts

/-- Further terms as text, each after a keyword, and some of them in parentheses. -/
def textIn (keyword : Token) (group : Expression → Bool) : List Expression → String
  | [] => ""
  | t :: ts =>
    " " ++ keyword.text ++ " " ++ groupedText (group t) (text t) ++ textIn keyword group ts

end

@[simp] theorem areNormal_iff {ts : List Expression} :
    areNormal ts = true ↔ ∀ t ∈ ts, isNormal t = true := by
  induction ts with
  | nil => simp [areNormal]
  | cons t ts ih => simp [areNormal, ih]

theorem height_le_heightOf {t : Expression} {ts : List Expression} (h : t ∈ ts) :
    height t ≤ heightOf ts := by
  induction ts with
  | nil => simp at h
  | cons u us ih =>
    rw [heightOf]
    rcases List.mem_cons.1 h with rfl | h
    · exact Nat.le_max_left _ _
    · exact Nat.le_trans (ih h) (Nat.le_max_right _ _)

end DecisionTable.Expression
