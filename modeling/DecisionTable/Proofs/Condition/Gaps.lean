import DecisionTable.Proofs.Condition.Scanning

/-!
# What scanning leaves out

A text is its lexemes with gaps between them, and the tokens are those of the lexemes
(`scan_between_gaps`). What can be lost that way is little: `rule_eq_none_iff` says exactly which
characters start no lexeme, given the text behind them. So names, symbols and quoted stretches are
never lost, and a single quote at most once, since the first one that is lost is the last of the
text.
-/

namespace DecisionTable.Token

open Text

variable {c d : Char} {cs : List Char}

/-! ## Characters that start no lexeme -/

/-- The character can be left out in front of the rest of its text: it belongs to no name and is
no symbol of its own, and the rest does not make it the first character of a lexeme. -/
structure Skippable (c : Char) (rest : List Char) : Prop where
  notWord : isWord c = false
  notMark : c ∉ ['.', '(', ')', ',', '=', '<', '>']
  noSymbol : c = '!' → ∀ d, rest.head? = some d → d ≠ '='
  noParameter : c = '@' → ∀ d, rest.head? = some d → isWord d = false ∧ d ≠ '.'
  noLiteral : c = '\'' → '\'' ∉ rest

theorem isName_eq_false_iff : isName c = false ↔ isWord c = false ∧ c ≠ '.' := by
  simp [isName]

theorem ofSymbol?_singleton_eq_none_iff :
    ofSymbol? [c] = none ↔ c ∉ ['(', ')', ',', '=', '<', '>'] := by
  simp only [List.mem_cons, List.not_mem_nil, or_false, not_or]
  constructor
  · intro h
    refine ⟨?_, ?_, ?_, ?_, ?_, ?_⟩ <;> (rintro rfl; cases h)
  · rintro ⟨h₁, h₂, h₃, h₄, h₅, h₆⟩
    simp [ofSymbol?, Comparison.ofSymbol?, *]

/-- Of the characters that are no symbols, only the exclamation mark begins one. -/
theorem ofSymbol?_pair_eq_none_iff (hc : ofSymbol? [c] = none) :
    ofSymbol? [c, d] = none ↔ (c = '!' → d ≠ '=') := by
  constructor
  · rintro h rfl rfl
    cases h
  · intro h
    cases hs : ofSymbol? [c, d] with
    | none => rfl
    | some t =>
      have hsymbols := mem_symbolChars hs
      have hmark : c = '!' := by
        have hsymbol := hsymbols c (by simp)
        have hnone := ofSymbol?_singleton_eq_none_iff.1 hc
        simp_all [symbolChars]
      subst hmark
      have hsecond := hsymbols d (by simp)
      simp only [symbolChars, List.mem_cons, List.not_mem_nil, or_false] at hsecond
      rcases hsecond with rfl | rfl | rfl | rfl | rfl | rfl | rfl
      case inr.inr.inr.inl => exact absurd rfl (h rfl)
      all_goals cases hs

theorem twoCharSymbol_eq_none_iff (hc : ofSymbol? [c] = none) :
    twoCharSymbol c cs = none ↔ (c = '!' → ∀ d, cs.head? = some d → d ≠ '=') := by
  cases cs with
  | nil => simp [twoCharSymbol]
  | cons d ds => simp [twoCharSymbol, ofSymbol?_pair_eq_none_iff hc]

theorem name_eq_none_iff :
    name c cs = none ↔
      isName c = false ∧ (c = '@' → ∀ d, cs.head? = some d → isName d = false) := by
  rw [name, ← takeWhile_eq_nil_iff_head?]
  simp

/-- The rule passes over a character exactly where it can be left out. -/
theorem rule_eq_none_iff : rule c cs = none ↔ Skippable c cs := by
  simp only [rule, Option.orElse_eq_orElse, Option.orElse_eq_or, Option.or_eq_none_iff]
  constructor
  · rintro ⟨htwo, -, hone, hquoted, hname⟩
    have hsymbol : ofSymbol? [c] = none := Option.map_eq_none_iff.1 hone
    obtain ⟨hfirst, hparameter⟩ := name_eq_none_iff.1 hname
    have hpoint := isName_eq_false_iff.1 hfirst
    exact {
      notWord := hpoint.1
      notMark := List.not_mem_cons_of_ne_of_not_mem hpoint.2
        (ofSymbol?_singleton_eq_none_iff.1 hsymbol)
      noSymbol := (twoCharSymbol_eq_none_iff hsymbol).1 htwo
      noParameter := fun hc d hd => isName_eq_false_iff.1 (hparameter hc d hd)
      noLiteral := by
        rintro rfl
        exact quoted_eq_none_iff.1 hquoted }
  · intro h
    obtain ⟨hpoint, hmark⟩ := List.ne_and_not_mem_of_not_mem_cons h.notMark
    have hsymbol := ofSymbol?_singleton_eq_none_iff.2 hmark
    refine ⟨(twoCharSymbol_eq_none_iff hsymbol).2 h.noSymbol,
      keyword_of_not_isWord h.notWord cs, Option.map_eq_none_iff.2 hsymbol, ?_,
      name_eq_none_iff.2 ⟨isName_eq_false_iff.2 ⟨h.notWord, hpoint⟩,
        fun hc d hd => isName_eq_false_iff.2 (h.noParameter hc d hd)⟩⟩
    by_cases hc : c = '\''
    · subst hc
      exact quoted_eq_none_iff.2 (h.noLiteral rfl)
    · exact quoted_of_ne hc cs

/-! ## Gaps -/

/-- A lost quote is the last quote of its text, so no other one is lost behind it. -/
theorem count_quote_cons_le {gaps : List Char} (h : Skippable c cs) (hgaps : gaps ⊆ cs)
    (hcount : gaps.count '\'' ≤ 1) : (c :: gaps).count '\'' ≤ 1 := by
  by_cases hc : c = '\''
  · have hnone : '\'' ∉ gaps := fun hmem => h.noLiteral hc (hgaps hmem)
    rw [hc, List.count_cons_self, List.count_eq_zero.2 hnone]
  · rwa [List.count_cons_of_ne hc]

/-- A text is lexemes, none of them empty, with gaps before, between and behind them, and its
tokens are those of the lexemes, in order. Every character of a gap can be left out in front of
what follows it in the text, and the gaps have one single quote together at most. -/
theorem scan_between_gaps (text : String) :
    ∃ (gap : List Char) (parts : List (List Char × List Char)),
      text.toList = gap ++ parts.flatMap (fun p => p.1 ++ p.2) ∧
      scan text = parts.map (fun p => ofLexeme p.1) ∧
      (∀ p ∈ parts, p.1 ≠ []) ∧
      (∀ i before c after, (gap :: parts.map Prod.snd)[i]? = some (before ++ c :: after) →
        Skippable c (after ++ (parts.drop i).flatMap fun p => p.1 ++ p.2)) ∧
      (gap ++ parts.flatMap Prod.snd).count '\'' ≤ 1 := by
  rw [scan]
  generalize text.toList = cs
  induction cs using pieces_induction rule with
  | nil =>
    refine ⟨[], [], rfl, rfl, by simp, ?_, by simp⟩
    intro i before d after hi
    cases i <;> simp at hi
  | lexeme c cs n hrule ih =>
    obtain ⟨gap, parts, htext, hscan, hne, hskip, hcount⟩ := ih
    refine ⟨[], (c :: cs.take n, gap) :: parts, ?_, ?_, ?_, ?_, ?_⟩
    · rw [List.nil_append, List.flatMap_cons, List.append_assoc, ← htext, List.cons_append,
        List.take_append_drop]
    · rw [ofChars_cons_of_some hrule, hscan, List.map_cons]
    · exact List.forall_mem_cons.2 ⟨List.cons_ne_nil c _, hne⟩
    · intro i before d after hi
      cases i with
      | zero => simp at hi
      | succ i => exact hskip i before d after hi
    · simpa using hcount
  | gap c cs hrule ih =>
    obtain ⟨gap, parts, htext, hscan, hne, hskip, hcount⟩ := ih
    have hfirst : Skippable c cs := rule_eq_none_iff.1 hrule
    refine ⟨c :: gap, parts, ?_, ?_, hne, ?_, ?_⟩
    · rw [List.cons_append, ← htext]
    · rw [ofChars_cons_of_none hrule, hscan]
    · intro i before d after hi
      cases i with
      | zero =>
        -- the new character, or one further on in the same gap
        cases before with
        | nil =>
          obtain ⟨rfl, rfl⟩ := List.cons.inj (Option.some.inj hi)
          rwa [List.drop_zero, ← htext]
        | cons b before =>
          have htail := (List.cons.inj (Option.some.inj hi)).2
          exact hskip 0 before d after (congrArg some htail)
      | succ i => exact hskip (i + 1) before d after hi
    · refine count_quote_cons_le hfirst (fun b hb => ?_) hcount
      rw [htext]
      rcases List.mem_append.1 hb with hb | hb
      · exact List.mem_append_left _ hb
      · obtain ⟨p, hp, hb⟩ := List.mem_flatMap.1 hb
        exact List.mem_append_right _ (List.mem_flatMap.2 ⟨p, hp, List.mem_append_right _ hb⟩)

/-- Names and literals are written as their lexemes. -/
theorem toList_text_ofLexeme {lexeme : List Char} (h : (ofLexeme lexeme).isValue = true) :
    (ofLexeme lexeme).text.toList = lexeme := by
  cases hs : ofSymbol? lexeme with
  | some t =>
    rw [ofLexeme_of_symbol hs] at h
    obtain rfl | rfl | rfl | ⟨c, rfl⟩ := symbol_cases hs <;> cases h
  | none =>
    cases hk : ofKeyword? lexeme with
    | some t =>
      have hvalues : keywordSpellings.all (fun p => !p.2.isValue) = true := by decide
      have hvalue := List.all_eq_true.1 hvalues _ (mem_keywordSpellings hk)
      rw [ofLexeme_of_keyword hk] at h
      simp [h] at hvalue
    | none =>
      simp only [ofLexeme, hs, hk, Option.getD_none]
      split <;> exact String.toList_ofList

/-- The lexemes of names and literals are the texts of these. -/
theorem map_fst_eq_of_isValue {tokens : List Token} {parts : List (List Char × List Char)}
    (h : tokens = parts.map fun p => ofLexeme p.1) (hvalues : ∀ t ∈ tokens, t.isValue = true) :
    parts.map Prod.fst = tokens.map fun t => t.text.toList := by
  subst h
  rw [List.map_map]
  exact List.map_congr_left fun p hp =>
    (toList_text_ofLexeme (hvalues _ (List.mem_map_of_mem hp))).symm

/-- Two names and a literal, with all that can be left out around them. The text has no other parts
with these tokens. -/
theorem scan_between_gaps_dropped :
    let text := "#a? '(b)' ! @ $t.d'"
    let gap := "#".toList
    let parts := [("a".toList, "? ".toList), ("'(b)'".toList, " ! @ $".toList),
      ("t.d".toList, "'".toList)]
    scan text = [.word "a", .literal "'(b)'", .word "t.d"] ∧
      text.toList = gap ++ parts.flatMap (fun p => p.1 ++ p.2) ∧
      scan text = parts.map (fun p => ofLexeme p.1) ∧
      (∀ i before c after, (gap :: parts.map Prod.snd)[i]? = some (before ++ c :: after) →
        Skippable c (after ++ (parts.drop i).flatMap fun p => p.1 ++ p.2)) ∧
      ∀ gap' parts', text.toList = gap' ++ parts'.flatMap (fun p => p.1 ++ p.2) →
        scan text = parts'.map (fun p => ofLexeme p.1) → gap' = gap ∧ parts' = parts := by
  intro text gap parts
  have hscan : scan text = [.word "a", .literal "'(b)'", .word "t.d"] := by decide +kernel
  have hunique : ∀ gap' parts', text.toList = gap' ++ parts'.flatMap (fun p => p.1 ++ p.2) →
      scan text = parts'.map (fun p => ofLexeme p.1) → gap' = gap ∧ parts' = parts := by
    intro gap' parts' htext htokens
    -- the tokens say what the lexemes are, and these can be found in one place only
    rw [hscan] at htokens
    have hlexemes := map_fst_eq_of_isValue htokens (by simp [isValue])
    simp only [List.map_cons, List.map_nil, Token.text, List.map_eq_cons_iff,
      List.map_eq_nil_iff] at hlexemes
    obtain ⟨⟨_, g₁⟩, _, rfl, rfl, ⟨_, g₂⟩, _, rfl, rfl, ⟨_, g₃⟩, _, rfl, rfl, rfl⟩ := hlexemes
    have hgaps : gap' = gap ∧ g₁ = "? ".toList ∧ g₂ = " ! @ $".toList ∧ g₃ = "'".toList := by
      simp only [List.flatMap_cons, List.flatMap_nil, List.append_nil] at htext
      simp [text, gap, List.cons_eq_append_iff, List.append_eq_cons_iff] at htext ⊢
      grind
    obtain ⟨rfl, rfl, rfl, rfl⟩ := hgaps
    exact ⟨rfl, rfl⟩
  obtain ⟨gap', parts', htext, htokens, -, hskip, -⟩ := scan_between_gaps text
  obtain ⟨rfl, rfl⟩ := hunique gap' parts' htext htokens
  exact ⟨hscan, htext, htokens, hskip, hunique⟩

end DecisionTable.Token
