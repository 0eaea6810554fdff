import DecisionTable.Condition.Grammar
import DecisionTable.Proofs.Condition.Shape

/-!
# Trees in normal form are derived

The parentheses that `Expression.tokensBy` writes are those that the grammar asks for: a tree
in normal form is derived from its tokens, whatever the clauses are written as, if only each
clause is (`Expression.derived_tokensBy`).
-/

namespace DecisionTable.Expression

open Grammar

/-- The tokens are each clause, as a factor. -/
def Spells (leaf : Clause → List Token) (cs : List Clause) : Prop :=
  ∀ c ∈ cs, ∀ n, Factor n (leaf c) (.clause c)

/-- What a tree in normal form is derived as: as a condition; as factors, unless a disjunction
puts it in parentheses; as a factor, unless a conjunction does. -/
structure Derived (leaf : Clause → List Token) (n : Nat) (e : Expression) : Prop where
  derives : Derives n (tokensBy leaf e) e
  factors : e.isGroupInAny = false → ∃ es, Factors n (tokensBy leaf e) es ∧ Chain .all es e
  factor : e.isGroupInAll = false → Factor n (tokensBy leaf e) e

variable {leaf : Clause → List Token} {group : Expression → Bool} {n : Nat} {e : Expression}
  {ts : List Expression}

theorem Derived.of_factor (h : Factor n (tokensBy leaf e) e) : Derived leaf n e where
  derives := .of_factor h
  factors _ := ⟨[e], .single h, .one⟩
  factor _ := h

/-- A term with the parentheses that it needs in a conjunction. -/
theorem factor_grouped (h : ∀ m, e.nesting ≤ m → Derived leaf m e)
    (hn : e.nesting + (if e.isGroupInAll then 1 else 0) ≤ n) :
    Factor n (grouped e.isGroupInAll (tokensBy leaf e)) e := by
  cases hgroup : e.isGroupInAll with
  | false => exact (h n (by omega)).factor hgroup
  | true =>
    rw [hgroup, if_pos rfl] at hn
    -- the parentheses take one level, and leave the rest for what is within
    obtain ⟨m, rfl⟩ : ∃ m, n = m + 1 := Nat.exists_eq_add_one.2 (by omega)
    have hm : e.nesting ≤ m := by omega
    exact (h m hm).derives.parenthesised

/-- A term with the parentheses that it needs in a disjunction. -/
theorem factors_grouped (h : ∀ m, e.nesting ≤ m → Derived leaf m e)
    (hn : e.nesting + (if e.isGroupInAny then 1 else 0) ≤ n) :
    ∃ es, Factors n (grouped e.isGroupInAny (tokensBy leaf e)) es ∧ Chain .all es e := by
  cases hgroup : e.isGroupInAny with
  | false => exact (h n (by omega)).factors hgroup
  | true =>
    rw [hgroup, if_pos rfl] at hn
    obtain ⟨m, rfl⟩ : ∃ m, n = m + 1 := Nat.exists_eq_add_one.2 (by omega)
    have hm : e.nesting ≤ m := by omega
    exact ⟨[e], .single (h m hm).derives.parenthesised, .one⟩

theorem factors_tokensIn (h : ∀ t ∈ e :: ts, Factor n (grouped (group t) (tokensBy leaf t)) t) :
    Factors n (grouped (group e) (tokensBy leaf e) ++ tokensIn leaf .andKw group ts)
      (e :: ts) := by
  induction ts generalizing e with
  | nil =>
    rw [tokensIn, List.append_nil]
    exact .single (h e List.mem_cons_self)
  | cons t ts ih =>
    rw [tokensIn, List.cons_append]
    exact .cons (h e List.mem_cons_self) (ih fun u hu => h u (List.mem_cons_of_mem _ hu))

theorem alternatives_tokensIn
    (h : ∀ t ∈ e :: ts,
      ∃ es, Factors n (grouped (group t) (tokensBy leaf t)) es ∧ Chain .all es t) :
    Alternatives n (grouped (group e) (tokensBy leaf e) ++ tokensIn leaf .orKw group ts)
      (e :: ts) := by
  induction ts generalizing e with
  | nil =>
    obtain ⟨es, hes, he⟩ := h e List.mem_cons_self
    rw [tokensIn, List.append_nil]
    exact .single hes he
  | cons t ts ih =>
    obtain ⟨es, hes, he⟩ := h e List.mem_cons_self
    rw [tokensIn, List.cons_append]
    exact .cons hes he (ih fun u hu => h u (List.mem_cons_of_mem _ hu))

theorem exists_cons_cons (h : 2 ≤ ts.length) : ∃ t u us, ts = t :: u :: us := by
  match ts, h with
  | t :: u :: us, _ => exact ⟨t, u, us, rfl⟩

/-- A tree in normal form is derived from its tokens. -/
theorem derived_tokensBy (hleaf : Spells leaf e.clauses) (hnormal : e.isNormal = true)
    (hn : e.nesting ≤ n) : Derived leaf n e := by
  induction e generalizing n with
  | clause c =>
    apply Derived.of_factor
    rw [tokensBy]
    exact hleaf c (by simp) n
  | all ts ih =>
    rw [isNormal, Bool.and_eq_true, decide_eq_true_iff, areNormal_iff] at hnormal
    rw [nesting, nestingIn_le_iff] at hn
    obtain ⟨t, u, us, rfl⟩ := exists_cons_cons hnormal.1
    have hterm : ∀ v ∈ t :: u :: us, Factor n (grouped v.isGroupInAll (tokensBy leaf v)) v := by
      intro v hv
      have hterms : Spells leaf v.clauses := fun c hc => hleaf c (mem_clauses_all.2 ⟨v, hv, hc⟩)
      exact factor_grouped (fun m hm => ih v hv hterms (hnormal.2 v hv) hm) (hn v hv)
    have hfactors := factors_tokensIn hterm
    rw [← tokensBy] at hfactors
    refine ⟨⟨[.all (t :: u :: us)], .single hfactors .several, .one⟩, ?_, ?_⟩
    · intro _
      exact ⟨t :: u :: us, hfactors, .several⟩
    · intro hgroup
      exact absurd hgroup (by simp [isGroupInAll])
  | any ts ih =>
    rw [isNormal, Bool.and_eq_true, decide_eq_true_iff, areNormal_iff] at hnormal
    rw [nesting, nestingIn_le_iff] at hn
    obtain ⟨t, u, us, rfl⟩ := exists_cons_cons hnormal.1
    have hterm : ∀ v ∈ t :: u :: us,
        ∃ es, Factors n (grouped v.isGroupInAny (tokensBy leaf v)) es ∧ Chain .all es v := by
      intro v hv
      have hterms : Spells leaf v.clauses := fun c hc => hleaf c (mem_clauses_any.2 ⟨v, hv, hc⟩)
      exact factors_grouped (fun m hm => ih v hv hterms (hnormal.2 v hv) hm) (hn v hv)
    have halternatives := alternatives_tokensIn hterm
    rw [← tokensBy] at halternatives
    refine ⟨⟨t :: u :: us, halternatives, .several⟩, ?_, ?_⟩
    · intro hgroup
      exact absurd hgroup (by simp [isGroupInAny])
    · intro hgroup
      exact absurd hgroup (by simp [isGroupInAll])

end DecisionTable.Expression
