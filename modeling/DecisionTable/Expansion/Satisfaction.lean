import DecisionTable.Row
import DecisionTable.Condition.Expression

/-!
# When a condition holds

The meaning of a condition without any expansion: whether it holds when every column has a
value. Tags count as values like any other.
-/

namespace DecisionTable

/-- A value for every column. -/
abbrev Valuation := String → String

namespace Expression

mutual

/-- Whether a condition holds. A conjunction needs one term at least. -/
def holds (σ : Valuation) : Expression → Bool
  | clause c => c.values.contains (σ c.column)
  | all ts => !ts.isEmpty && holdsForAll σ ts
  | any ts => holdsForAny σ ts

/-- Whether all terms hold. -/
def holdsForAll (σ : Valuation) : List Expression → Bool
  | [] => true
  | t :: ts => holds σ t && holdsForAll σ ts

/-- Whether a term holds. -/
def holdsForAny (σ : Valuation) : List Expression → Bool
  | [] => false
  | t :: ts => holds σ t || holdsForAny σ ts

end

@[simp] theorem holds_clause (σ : Valuation) (c : Clause) :
    holds σ (clause c) = c.values.contains (σ c.column) := by rw [holds]

theorem holds_all (σ : Valuation) (ts : List Expression) :
    holds σ (all ts) = (!ts.isEmpty && ts.all (holds σ)) := by
  have h : ∀ us : List Expression, holdsForAll σ us = us.all (holds σ) := by
    intro us
    induction us with
    | nil => rw [holdsForAll, List.all_nil]
    | cons u us ih => rw [holdsForAll, List.all_cons, ih]
  rw [holds, h]

theorem holds_any (σ : Valuation) (ts : List Expression) :
    holds σ (any ts) = ts.any (holds σ) := by
  rw [holds]
  induction ts with
  | nil => rw [holdsForAny, List.any_nil]
  | cons t ts ih => rw [holdsForAny, List.any_cons, ih]

end Expression

/-- Whether a row gives every column that it assigns the value that the column has. -/
def Row.agreesWith (σ : Valuation) (row : Row) : Bool := row.entries.all fun e => σ e.1 = e.2

theorem Row.agreesWith_iff {σ : Valuation} {row : Row} :
    row.agreesWith σ = true ↔ ∀ k v, row.get? k = some v → σ k = v := by
  simp only [agreesWith, List.all_eq_true, decide_eq_true_eq, OrderedMap.get?_eq_some_iff]
  exact ⟨fun h k v hk => h (k, v) hk, fun h e he => h e.1 e.2 he⟩

end DecisionTable
