import DecisionTable.Proofs.Condition.RoundTrip

/-!
# Canonical forms of texts and trees

A text can be written anew from its tokens, and a tree as tokens of its own.

* The tokens of a text, with single spaces between them, are found again
  (`Token.scan_join_scan`): each of them has a text, and a space ends whatever stands before it.
* The trees that tokens can be read as are those in normal form whose parentheses are nested at
  most `maxDepth` deep, and each of these is read from the tokens that it is written as
  (`Expression.ofTokens_tokens_iff`).
-/

namespace DecisionTable

/-! ## Texts -/

/-- The tokens of a text, written with single spaces between them, are found again. So the
text that is written comes to the same condition as the first one, or to the same error. -/
theorem Token.scan_join_scan (t : String) :
    scan (join (scan t)) = scan t ∧ Expression.read (join (scan t)) = Expression.read t := by
  have hscannable : ∀ u ∈ scan t, u.Scannable := fun _ => scannable_of_mem_ofChars
  have hscan : scan (join (scan t)) = scan t := by
    have hjoin := ofChars_join_append hscannable startsApart_nil
    rwa [List.append_nil, ofChars_nil, List.append_nil] at hjoin
  refine ⟨hscan, ?_⟩
  rw [Expression.read, hscan, Expression.read]

example : Token.join (Token.scan "in.x<>'a b' ;@p=!'") = "IN .x != 'a b' @p =" := by
  decide +kernel

/-! ## Trees -/

namespace Expression

open Grammar

/-- The clauses of a tree in normal form are normal. -/
theorem normalClause_of_mem_clauses {e : Expression} (h : e.isNormal = true) :
    ∀ c ∈ e.clauses, normalClause c = true := by
  induction e with
  | clause c =>
    rw [isNormal] at h
    rw [clauses_clause, List.forall_mem_singleton]
    exact h
  | all ts ih =>
    rw [isNormal, Bool.and_eq_true, areNormal_iff] at h
    intro c hc
    obtain ⟨t, ht, hc⟩ := mem_clauses_all.1 hc
    exact ih t ht (h.2 t ht) c hc
  | any ts ih =>
    rw [isNormal, Bool.and_eq_true, areNormal_iff] at h
    intro c hc
    obtain ⟨t, ht, hc⟩ := mem_clauses_any.1 hc
    exact ih t ht (h.2 t ht) c hc

/-- A normal clause is an equation with one value, a list, or a tag after its symbol. -/
theorem normalClause_cases {c : Clause} (h : normalClause c = true) :
    '.' ∉ c.column.toList ∧
      ((∃ v, c = ⟨c.column, .equal, [v]⟩) ∨ (∃ values, c = ⟨c.column, .oneOf, values⟩) ∨
        ∃ cmp v, c = ⟨c.column, .tagged cmp, [v]⟩ ∧ cmp ≠ .equal ∧
          (tagPrefix cmp).isPrefixOf v.toList = true) := by
  obtain ⟨column, operator, values⟩ := c
  simp only [normalClause, Bool.and_eq_true] at h
  obtain ⟨hcolumn, hvalues⟩ := h
  refine ⟨by simpa using hcolumn, ?_⟩
  split at hvalues
  · next v => exact .inl ⟨v, rfl⟩
  · exact .inr (.inl ⟨values, rfl⟩)
  · next cmp v =>
    rw [Bool.and_eq_true, decide_eq_true_iff] at hvalues
    exact .inr (.inr ⟨cmp, v, rfl, hvalues⟩)
  · cases hvalues

/-- A column without a point is the column of the name that it is. -/
theorem on_of_not_mem {column : String} (h : '.' ∉ column.toList) (operator : Operator)
    (values : List String) : Clause.on column operator values = ⟨column, operator, values⟩ := by
  have hcolumn : columnOf column = column := by
    rw [← String.toList_inj, toList_columnOf, unqualified_of_not_mem h]
  rw [Clause.on, hcolumn]

/-- What a tag is made of: its symbol, a blank and the rest. -/
theorem tag_eq_append_tagRest {c : Comparison} {v : String}
    (h : (tagPrefix c).isPrefixOf v.toList = true) :
    c.symbol ++ " " ++ Token.join [.word (tagRest c v)] = v := by
  have hjoin : Token.join [.word (tagRest c v)] = tagRest c v := by
    rw [Token.join, List.map_singleton, String.intercalate_singleton, Token.text]
  have hrest : (tagRest c v).toList = v.toList.drop (tagPrefix c).length := String.toList_ofList
  rw [hjoin, ← String.toList_inj, String.toList_append, String.toList_append, hrest]
  exact List.prefix_iff_eq_append.1 (List.isPrefixOf_iff_prefix.1 h)

/-- The tokens that a normal clause is written as are a factor. -/
theorem factor_clauseTokens {c : Clause} (h : normalClause c = true) (n : Nat) :
    Factor n (clauseTokens c) (.clause c) := by
  obtain ⟨hpoint, ⟨v, hc⟩ | ⟨values, hc⟩ | ⟨cmp, v, hc, hcmp, htag⟩⟩ := normalClause_cases h
  · have hfactor := @Factor.equation n c.column _ (isRun_literalOf v)
    rw [value_literalOf, on_of_not_mem hpoint] at hfactor
    rw [hc]
    exact hfactor
  · have hfactor := @Factor.oneOf n c.column _ _ (entries_entryTokens values)
    rw [on_of_not_mem hpoint] at hfactor
    rw [hc]
    exact hfactor
  · have hrun : IsRun [.word (tagRest cmp v)] := isRun_of_isValue rfl
    have hfactor := @Factor.tagged n c.column cmp _ hcmp hrun
    rw [tag_eq_append_tagRest htag, on_of_not_mem hpoint] at hfactor
    rw [hc]
    exact hfactor

/-- A tree in normal form is read from its tokens, if they are not nested too deep. -/
theorem ofTokens_tokens {e : Expression} (hnormal : e.isNormal = true)
    (hnesting : e.nesting ≤ maxDepth) : ofTokens e.tokens = .ok e := by
  have hspells : Spells clauseTokens e.clauses := fun c hc =>
    factor_clauseTokens (normalClause_of_mem_clauses hnormal c hc)
  exact (derived_tokensBy hspells hnormal hnesting).derives.ofTokens

/-- Some tokens are read as a tree if and only if it is in normal form and its parentheses are
nested at most `maxDepth` deep; the tokens that it is written as are then read as it. -/
theorem ofTokens_tokens_iff (e : Expression) :
    ((∃ ts, ofTokens ts = .ok e) ↔ e.isNormal = true ∧ e.nesting ≤ maxDepth) ∧
      (ofTokens e.tokens = .ok e ↔ e.isNormal = true ∧ e.nesting ≤ maxDepth) := by
  have hnormal : ∀ ts, ofTokens ts = .ok e → e.isNormal = true ∧ e.nesting ≤ maxDepth :=
    fun ts h => (Derives.of_ofTokens h).isNormal
  have hread : e.isNormal = true ∧ e.nesting ≤ maxDepth → ofTokens e.tokens = .ok e :=
    fun h => ofTokens_tokens h.1 h.2
  refine ⟨⟨?_, ?_⟩, hnormal e.tokens, hread⟩
  · rintro ⟨ts, h⟩
    exact hnormal ts h
  · intro h
    exact ⟨e.tokens, hread h⟩

end Expression

end DecisionTable
