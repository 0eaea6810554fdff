import DecisionTable.Expansion

/-!
# Choices

Expansion seen from its result: a *choice* picks a value for every clause that takes part
and writes the pairs down from left to right, whether they go together or not. The rows of
a condition are its choices less those that give a column two values, each with its pairs
at their first occurrence.
-/

namespace DecisionTable

/-- Values for the clauses that take part, from left to right. -/
abbrev Choice := List (String × String)

namespace Choice

/-- Whether no column has two values. -/
def consistent (c : Choice) : Bool := c.all fun e => c.all fun f => e.1 ≠ f.1 || e.2 = f.2

/-- The pairs of a choice, each at its first occurrence. -/
def pairs (c : Choice) : List (String × String) := c.eraseDups

theorem consistent_iff {c : Choice} :
    c.consistent = true ↔ ∀ k v w, (k, v) ∈ c → (k, w) ∈ c → v = w := by
  simp only [consistent, List.all_eq_true, Bool.or_eq_true, decide_eq_true_eq]
  constructor
  · intro h k v w hv hw
    simpa using h (k, v) hv (k, w) hw
  · intro h e he f hf
    by_cases hk : e.1 = f.1
    · exact .inr (h e.1 e.2 f.2 he (hk ▸ hf))
    · exact .inl (by simpa using hk)

end Choice

namespace Expression

mutual

/-- The choices of a condition, the first clause varying slowest. A conjunction of nothing
has none. -/
def choices : Expression → List Choice
  | clause c => c.values.map fun v => [(c.column, v)]
  | all [] => []
  | all (t :: ts) => (choices t).flatMap fun a => (choicesOfAll ts).map (a ++ ·)
  | any ts => choicesOfAny ts

/-- A choice of every term, one after the other. -/
def choicesOfAll : List Expression → List Choice
  | [] => [[]]
  | t :: ts => (choices t).flatMap fun a => (choicesOfAll ts).map (a ++ ·)

/-- The choices of the terms, one term after the other. -/
def choicesOfAny : List Expression → List Choice
  | [] => []
  | t :: ts => choices t ++ choicesOfAny ts

end

@[simp] theorem choices_clause (c : Clause) :
    choices (clause c) = c.values.map fun v => [(c.column, v)] := by rw [choices]

theorem choices_all_cons (t : Expression) (ts : List Expression) :
    choices (all (t :: ts)) = choicesOfAll (t :: ts) := by rw [choices, choicesOfAll]

theorem choices_any (ts : List Expression) : choices (any ts) = ts.flatMap choices := by
  rw [choices]
  induction ts with
  | nil => rw [choicesOfAny, List.flatMap_nil]
  | cons t ts ih => rw [choicesOfAny, List.flatMap_cons, ih]

end Expression

end DecisionTable
