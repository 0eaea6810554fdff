import DecisionTable.Condition.Grammar
import DecisionTable.Proofs.Condition.Column
import DecisionTable.Proofs.Condition.Scanning
import DecisionTable.Proofs.Numeral.Characters

/-!
# What a text can make of a clause

A condition that was read from a text has clauses of a special kind (`Clause.Scanned`): their
columns come from names, and their values from tokens that have a text. A value of one token
has no quote; a value with a quote is the text of a run.
-/

namespace DecisionTable

open Token Grammar

/-! ## Values -/

namespace Token

@[simp] theorem unquote_quoted (v : List Char) : unquote ('\'' :: v ++ ['\'']) = v := by
  simp [unquote]

/-- The value of one token has no quote: a literal lost its two, and nothing else has any. -/
theorem Scannable.not_mem_value {t : Token} (h : t.Scannable) : '\'' ∉ t.value.toList := by
  cases t with
  | literal text =>
    obtain ⟨v, hv, htext⟩ := h
    rwa [value, htext, unquote_quoted, String.toList_ofList]
  | word text =>
    -- a numeral is written anew, any other word is its own value
    rw [value, Numeral.canonical]
    split
    · next cs hcs =>
      rw [String.toList_ofList]
      intro hq
      exact absurd (Numeral.isNumeral_of_mem_canonical? hcs hq) (by decide)
    · exact NameText.not_mem h
  | comparison c => cases c <;> decide
  | _ => decide

end Token

/-! ## Clauses that were read -/

/-- A clause that was read from tokens which all have a text. -/
inductive Clause.Scanned : Clause → Prop where
  | oneOf {name : String} {values : List String} :
      NameText name.toList → (∀ v ∈ values, '\'' ∉ v.toList) →
      Scanned (.on name .oneOf values)
  | equation {name value : String} :
      NameText name.toList → '\'' ∉ value.toList → Scanned (.on name .equal [value])
  | joined {name : String} {ts : List Token} :
      NameText name.toList → IsRun ts → 2 ≤ ts.length → (∀ t ∈ ts, t.Scannable) →
      Scanned (.on name .equal [Token.join ts])
  | tagged {name : String} {c : Comparison} {ts : List Token} :
      NameText name.toList → c ≠ .equal → IsRun ts → (∀ t ∈ ts, t.Scannable) →
      Scanned (.on name (.tagged c) [c.symbol ++ " " ++ Token.join ts])

/-- A column that was read has the characters of its name. -/
theorem Clause.Scanned.isName_or_eq_at {c : Clause} (h : c.Scanned) :
    ∀ d ∈ c.column.toList, isName d = true ∨ d = '@' := by
  have hcolumn : ∃ name : String, NameText name.toList ∧ c.column = columnOf name := by
    cases h with
    | oneOf hname | equation hname | joined hname | tagged hname => exact ⟨_, hname, rfl⟩
  obtain ⟨name, hname, hcolumn⟩ := hcolumn
  intro d hd
  rw [hcolumn, toList_columnOf] at hd
  exact hname.isName_or_eq_at d ((unqualified_suffix _).mem hd)

namespace Grammar

theorem Entries.not_mem_values {ts : List Token} {values : List String}
    (h : Entries ts values) (hts : ∀ t ∈ ts, t.Scannable) : ∀ v ∈ values, '\'' ∉ v.toList := by
  induction h with
  | nil => nofun
  | last =>
    intro v hv
    obtain rfl := List.mem_singleton.1 hv
    exact (hts _ List.mem_cons_self).not_mem_value
  | cons _ _ ih =>
    simp only [List.forall_mem_cons] at hts ⊢
    exact ⟨hts.1.not_mem_value, ih hts.2.2⟩

theorem Chain.clauses_eq {node : List Expression → Expression} {es : List Expression}
    {e : Expression} (h : Chain node es e)
    (hnode : ∀ es, (node es).clauses = es.flatMap Expression.clauses) :
    e.clauses = es.flatMap Expression.clauses := by
  cases h with
  | one => exact (List.flatMap_singleton _ _).symm
  | several => exact hnode _

mutual

theorem Alternatives.scanned {n : Nat} {ts : List Token} {es : List Expression} :
    Alternatives n ts es → (∀ t ∈ ts, t.Scannable) →
      ∀ c ∈ es.flatMap Expression.clauses, c.Scanned
  | .single h he, hts => by
    rw [List.flatMap_singleton, he.clauses_eq Expression.clauses_all]
    exact h.scanned hts
  | .cons h he hs, hts => by
    simp only [List.forall_mem_append, List.forall_mem_cons] at hts
    rw [List.flatMap_cons, he.clauses_eq Expression.clauses_all, List.forall_mem_append]
    exact ⟨h.scanned hts.1, hs.scanned hts.2.2⟩

theorem Factors.scanned {n : Nat} {ts : List Token} {es : List Expression} :
    Factors n ts es → (∀ t ∈ ts, t.Scannable) →
      ∀ c ∈ es.flatMap Expression.clauses, c.Scanned
  | .single h, hts => by
    rw [List.flatMap_singleton]
    exact h.scanned hts
  | .cons h hs, hts => by
    simp only [List.forall_mem_append, List.forall_mem_cons] at hts
    rw [List.flatMap_cons, List.forall_mem_append]
    exact ⟨h.scanned hts.1, hs.scanned hts.2.2⟩

theorem Factor.scanned {n : Nat} {ts : List Token} {e : Expression} :
    Factor n ts e → (∀ t ∈ ts, t.Scannable) → ∀ c ∈ e.clauses, c.Scanned
  | .group h he, hts => by
    simp only [List.cons_append, List.forall_mem_append, List.forall_mem_cons] at hts
    rw [he.clauses_eq Expression.clauses_any]
    exact h.scanned hts.2.1
  | .oneOf h, hts => by
    simp only [List.cons_append, List.forall_mem_append, List.forall_mem_cons] at hts
    rw [Expression.clauses_clause, List.forall_mem_singleton]
    exact .oneOf hts.1 (h.not_mem_values hts.2.2.2.1)
  | .equation h, hts => by
    simp only [List.forall_mem_cons] at hts
    rw [Expression.clauses_clause, List.forall_mem_singleton]
    exact .equation hts.1 hts.2.2.1.not_mem_value
  | .joined h hlen, hts => by
    simp only [List.forall_mem_cons] at hts
    rw [Expression.clauses_clause, List.forall_mem_singleton]
    exact .joined hts.1 h hlen hts.2.2
  | .tagged hc h, hts => by
    simp only [List.forall_mem_cons] at hts
    rw [Expression.clauses_clause, List.forall_mem_singleton]
    exact .tagged hts.1 hc h hts.2.2

end

/-- The clauses of a condition that was read from a text. -/
theorem Derives.scanned {n : Nat} {ts : List Token} {e : Expression} (h : Derives n ts e)
    (hts : ∀ t ∈ ts, t.Scannable) : ∀ c ∈ e.clauses, c.Scanned := by
  obtain ⟨es, hes, he⟩ := h
  rw [he.clauses_eq Expression.clauses_any]
  exact hes.scanned hts

end Grammar

end DecisionTable
