import DecisionTable.Distinct
import DecisionTable.Condition.Comparison

/-!
# Conditions as trees

A condition is a clause on one column, or a conjunction or disjunction of conditions.
`Expression.columns` lists the columns that a condition mentions.
-/

namespace DecisionTable

/-- How the values of a clause came about. -/
inductive Operator where
  /-- Written `column = value`. -/
  | equal
  /-- Written `column IN (value, …)`. -/
  | oneOf
  /-- Any other comparison. Its value is a tag such as `>= 30` that nothing looks into. -/
  | tagged (c : Comparison)
  deriving DecidableEq, Repr

/-- A column and the values that satisfy the clause. -/
structure Clause where
  column : String
  operator : Operator
  values : List String
  deriving DecidableEq, Repr

/-- The part of a name after its last point: `trd.c2` names the column `c2`. -/
def unqualified (name : List Char) : List Char := (name.reverse.takeWhile (· ≠ '.')).reverse

/-- The column that a name stands for, without its qualifier. -/
def columnOf (name : String) : String := .ofList (unqualified name.toList)

/-- The clause on the column that a name stands for. -/
def Clause.on (name : String) (operator : Operator) (values : List String) : Clause :=
  ⟨columnOf name, operator, values⟩

namespace Clause

variable (name : String) (operator : Operator) (values : List String)

@[simp] theorem column_on : (on name operator values).column = columnOf name := rfl

@[simp] theorem operator_on : (on name operator values).operator = operator := rfl

@[simp] theorem values_on : (on name operator values).values = values := rfl

end Clause

/-- A condition. A conjunction or a disjunction keeps its terms in one list, in the order in
which they were written. -/
inductive Expression where
  | clause (c : Clause)
  | all (terms : List Expression)
  | any (terms : List Expression)
  deriving Repr

namespace Expression

/-- Induction over a condition: for a node, the statement is at hand for each of its terms. -/
@[elab_as_elim, induction_eliminator]
theorem induction {motive : Expression → Prop} (clause : ∀ c, motive (clause c))
    (all : ∀ ts, (∀ t ∈ ts, motive t) → motive (all ts))
    (any : ∀ ts, (∀ t ∈ ts, motive t) → motive (any ts)) : ∀ e, motive e
  | .clause c => clause c
  | .all ts => all ts fun t _ => induction clause all any t
  | .any ts => any ts fun t _ => induction clause all any t

/-! ## Equality -/

mutual

/-- Whether two conditions are the same tree. -/
def same : Expression → Expression → Bool
  | clause c, clause d => c = d
  | all ts, all us => sameTerms ts us
  | any ts, any us => sameTerms ts us
  | _, _ => false

/-- Whether two lists of terms are the same trees in the same order. -/
def sameTerms : List Expression → List Expression → Bool
  | [], [] => true
  | t :: ts, u :: us => same t u && sameTerms ts us
  | _, _ => false

end

mutual

theorem same_iff : ∀ a b : Expression, same a b = true ↔ a = b
  | clause c, b => by cases b <;> simp [same]
  | all ts, b => by cases b <;> simp [same, sameTerms_iff ts]
  | any ts, b => by cases b <;> simp [same, sameTerms_iff ts]

theorem sameTerms_iff : ∀ ts us : List Expression, sameTerms ts us = true ↔ ts = us
  | [], us => by cases us <;> simp [sameTerms]
  | t :: ts, us => by cases us <;> simp [sameTerms, same_iff t, sameTerms_iff ts]

end

instance : DecidableEq Expression := fun a b => decidable_of_iff _ (same_iff a b)

/-! ## Clauses -/

mutual

/-- The clauses from left to right. -/
def clauses : Expression → List Clause
  | clause c => [c]
  | all ts => clausesOf ts
  | any ts => clausesOf ts

/-- The clauses of the terms, from left to right. -/
def clausesOf : List Expression → List Clause
  | [] => []
  | t :: ts => clauses t ++ clausesOf ts

end

theorem clausesOf_eq_flatMap (ts : List Expression) : clausesOf ts = ts.flatMap clauses := by
  induction ts with
  | nil => rw [clausesOf, List.flatMap_nil]
  | cons t ts ih => rw [clausesOf, List.flatMap_cons, ih]

@[simp] theorem clauses_clause (c : Clause) : clauses (clause c) = [c] := by rw [clauses]

theorem clauses_all (ts : List Expression) : clauses (all ts) = ts.flatMap clauses := by
  rw [clauses, clausesOf_eq_flatMap]

theorem clauses_any (ts : List Expression) : clauses (any ts) = ts.flatMap clauses := by
  rw [clauses, clausesOf_eq_flatMap]

theorem mem_clauses_all {c : Clause} {ts : List Expression} :
    c ∈ clauses (all ts) ↔ ∃ t ∈ ts, c ∈ clauses t := by
  rw [clauses_all, List.mem_flatMap]

theorem mem_clauses_any {c : Clause} {ts : List Expression} :
    c ∈ clauses (any ts) ↔ ∃ t ∈ ts, c ∈ clauses t := by
  rw [clauses_any, List.mem_flatMap]

/-! ## Columns -/

/-- The columns of the clauses from left to right, each as often as it is mentioned. -/
def mentions (e : Expression) : List String := e.clauses.map Clause.column

/-- The columns that a condition mentions, each once, in the order of first mention. -/
def columns (e : Expression) : List String := e.mentions.eraseDups

@[simp] theorem mentions_clause (c : Clause) : mentions (clause c) = [c.column] := by
  simp [mentions]

theorem mentions_all (ts : List Expression) : mentions (all ts) = ts.flatMap mentions := by
  rw [mentions, clauses_all, List.map_flatMap]
  rfl

theorem mentions_any (ts : List Expression) : mentions (any ts) = ts.flatMap mentions := by
  rw [mentions, clauses_any, List.map_flatMap]
  rfl

theorem mem_columns {e : Expression} {column : String} :
    column ∈ e.columns ↔ column ∈ e.mentions := List.mem_eraseDups

/-- No column is listed twice. -/
theorem nodup_columns (e : Expression) : e.columns.Nodup := nodup_eraseDups e.mentions

end Expression

end DecisionTable
