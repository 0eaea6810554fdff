import DecisionTable.Expansion
import DecisionTable.Proofs.Condition.Completeness
import DecisionTable.Proofs.Condition.Scanning
import DecisionTable.Proofs.Condition.Soundness

/-!
# Conditions compose as texts

Two conditions that were read from texts make a disjunction or a conjunction when their texts
are put into parentheses with `OR` or `AND` between them (`Expression.read_composed`). What
carries this is that scanning is local: a text scans in front of another as it scans alone
(`Token.ofChars_append`), unless a quote that it leaves open finds its partner there.
-/

namespace DecisionTable

open Text

namespace Token

/-! ## Scanning by parts -/

/-- A lexeme of a condition takes a quote for the end of a quoted stretch and for nothing
else. -/
theorem pairsQuotes_rule : rule.PairsQuotes where
  length_le := by
    intro c cs n h
    rcases rule_cases h with ⟨d, ds, rfl, -, rfl⟩ | ⟨-, rfl⟩ | ⟨-, rfl⟩ | ⟨-, hq⟩ | ⟨-, -, rfl⟩
    · simp
    · have hrun : (run (c :: cs)).length ≤ (c :: cs).length :=
        (List.takeWhile_prefix isWord).length_le
      rw [List.length_cons] at hrun
      omega
    · exact Nat.zero_le _
    · obtain ⟨v, w, -, rfl, rfl⟩ := quoted_eq_some_iff.1 hq
      rw [List.length_append, List.length_cons]
      omega
    · exact (List.takeWhile_prefix isName).length_le
  quote_eq := by
    intro cs
    have hname : name '\'' cs = none := by
      have hquote : isName '\'' = false := by decide
      simp [name, hquote]
    have hsymbol : '\'' ∉ symbolChars := by decide
    simp [rule, twoCharSymbol_of_not_mem hsymbol, keyword_of_not_isWord (c := '\'') (by decide),
      oneCharSymbol_of_not_mem hsymbol, hname]
  not_mem := by
    intro c cs n hc h
    rcases rule_cases h with ⟨d, ds, rfl, hs, rfl⟩ | ⟨hk, rfl⟩ | ⟨-, rfl⟩ | ⟨hq, -⟩ | ⟨-, -, rfl⟩
    · rw [List.take_succ_cons, List.take_zero, List.mem_singleton]
      rintro rfl
      rw [ofSymbol?_pair_eq_none (by decide) (by decide)] at hs
      cases hs
    · intro hmem
      have hrun := List.mem_cons_of_mem c hmem
      rw [cons_take_run (isWord_of_ofKeyword?_run hk)] at hrun
      exact ne_quote_of_isName (isName_of_isWord (isWord_of_mem_run hrun)) rfl
    · simp
    · exact absurd hq hc
    · rw [← List.prefix_iff_eq_take.1 (List.takeWhile_prefix isName)]
      intro hmem
      exact ne_quote_of_isName (List.mem_takeWhile_imp hmem) rfl

/-- What stands apart changes no lexeme before it, quoted stretches aside. -/
theorem rule_append_of_apart {rest : List Char} (hrest : StartsApart rest) (c : Char)
    (cs : List Char) (hc : c ≠ '\'') : rule c (cs ++ rest) = rule c cs := by
  have htwo : twoCharSymbol c (cs ++ rest) = twoCharSymbol c cs := by
    cases cs with
    | nil => exact twoCharSymbol_of_apart hrest c
    | cons d ds => rfl
  have hkeyword : keyword c (cs ++ rest) = keyword c cs := by
    rw [keyword, ← List.cons_append, run_append_of_apart _ hrest]
    rfl
  have hname : name c (cs ++ rest) = name c cs := by
    rw [name, takeWhile_isName_append cs hrest]
    rfl
  simp only [rule, htwo, hkeyword, hname, quoted_of_ne hc, oneCharSymbol]

/-- A text scans in front of another as it scans alone. -/
theorem ofChars_append {cs rest : List Char} (hrest : StartsApart rest)
    (hquotes : QuotesApart rest cs) : ofChars (cs ++ rest) = ofChars cs ++ ofChars rest := by
  have hpieces := pairsQuotes_rule.pieces_append (rule_append_of_apart hrest) hquotes
  simp only [ofChars, lexemes, hpieces, List.filterMap_append, List.map_append]

/-- A text in parentheses. -/
theorem ofChars_parenthesised {cs rest : List Char} (hquotes : QuotesApart (')' :: rest) cs) :
    ofChars ('(' :: (cs ++ ')' :: rest)) =
      .openParen :: ofChars cs ++ .closeParen :: ofChars rest := by
  have hparen : StartsApart (')' :: rest) := startsApart_cons (by decide) rest
  rw [ofChars_openParen, ofChars_append hparen hquotes, ofChars_closeParen, List.cons_append]

/-- Two texts in parentheses with a keyword between them. An open quote of the second has
nothing to pair with. -/
theorem scan_composed {l : String} (hquotes : Even (l.toList.count '\'')) (r : String)
    (keyword : Token) (hkeyword : keyword.Scannable) :
    scan ("(" ++ l ++ ") " ++ keyword.text ++ " (" ++ r ++ ")") =
      .openParen :: scan l ++ [.closeParen] ++
        keyword :: (.openParen :: scan r ++ [.closeParen]) := by
  have htext : ("(" ++ l ++ ") " ++ keyword.text ++ " (" ++ r ++ ")").toList =
      '(' :: (l.toList ++ ')' :: ' ' :: (keyword.text.toList ++ ' ' :: '(' ::
        (r.toList ++ [')']))) := by simp
  have hlast : QuotesApart [')'] r.toList := .inr (by simp)
  have hright : ofChars ('(' :: (r.toList ++ [')'])) = .openParen :: scan r ++ [.closeParen] :=
    ofChars_parenthesised hlast
  rw [scan, htext, ofChars_parenthesised (.inl hquotes), ofChars_space,
    ofChars_text_append hkeyword (startsApart_space _), ofChars_space, hright]
  simp [scan]

end Token

/-! ## Conditions -/

namespace Expression

open Grammar Token

variable {l r : String} {e f : Expression}

/-- Two conditions in parentheses with `OR` between them. -/
theorem derives_any {n : Nat} {ts us : List Token} (he : Derives n ts e) (hf : Derives n us f) :
    Derives (n + 1) (.openParen :: ts ++ [.closeParen] ++
      .orKw :: (.openParen :: us ++ [.closeParen])) (.any [e, f]) :=
  ⟨[e, f], .cons (.single he.parenthesised) .one (.single (.single hf.parenthesised) .one),
    .several⟩

/-- Two conditions in parentheses with `AND` between them. -/
theorem derives_all {n : Nat} {ts us : List Token} (he : Derives n ts e) (hf : Derives n us f) :
    Derives (n + 1) (.openParen :: ts ++ [.closeParen] ++
      .andKw :: (.openParen :: us ++ [.closeParen])) (.all [e, f]) :=
  ⟨[.all [e, f]], .single (.cons he.parenthesised (.single hf.parenthesised)) .several, .one⟩

/-- The rows of a disjunction of two. -/
theorem rows_any_pair (e f : Expression) : rows (.any [e, f]) = e.rows ++ f.rows := by
  simp [rows_any]

/-- The rows of a conjunction of two. -/
theorem rows_all_pair (e f : Expression) : rows (.all [e, f]) = mergeRows e.rows f.rows := by
  rw [rows_all_cons, List.foldl_cons, List.foldl_nil]

/-- Texts that are read as conditions, put into parentheses with `OR` or `AND` between them,
are read as the disjunction and the conjunction of the two. So the rows of the one are the rows
of both, one after the other, and the rows of the other are their merges. -/
theorem read_composed (hl : read l = .ok e) (hr : read r = .ok f) (hlDepth : groupDepth l ≤ 127)
    (hrDepth : groupDepth r ≤ 127) (hquotes : Even (l.toList.count '\'')) :
    read ("(" ++ l ++ ") OR (" ++ r ++ ")") = .ok (.any [e, f]) ∧
      read ("(" ++ l ++ ") AND (" ++ r ++ ")") = .ok (.all [e, f]) ∧
      (read ("(" ++ l ++ ") OR (" ++ r ++ ")")).map rows = .ok (e.rows ++ f.rows) ∧
      (read ("(" ++ l ++ ") AND (" ++ r ++ ")")).map rows = .ok (mergeRows e.rows f.rows) := by
  have he : Derives 127 (scan l) e := .of_ofTokens_within hl hlDepth
  have hf : Derives 127 (scan r) f := .of_ofTokens_within hr hrDepth
  have hor : "(" ++ l ++ ") OR (" ++ r ++ ")" =
      "(" ++ l ++ ") " ++ orKw.text ++ " (" ++ r ++ ")" := by
    simp [← String.toList_inj, Token.text]
  have hand : "(" ++ l ++ ") AND (" ++ r ++ ")" =
      "(" ++ l ++ ") " ++ andKw.text ++ " (" ++ r ++ ")" := by
    simp [← String.toList_inj, Token.text]
  have hany : read ("(" ++ l ++ ") OR (" ++ r ++ ")") = .ok (.any [e, f]) := by
    rw [read, hor, scan_composed hquotes r .orKw trivial]
    exact (derives_any he hf).ofTokens
  have hall : read ("(" ++ l ++ ") AND (" ++ r ++ ")") = .ok (.all [e, f]) := by
    rw [read, hand, scan_composed hquotes r .andKw trivial]
    exact (derives_all he hf).ofTokens
  refine ⟨hany, hall, ?_, ?_⟩
  · rw [hany, Except.map, rows_any_pair]
  · rw [hall, Except.map, rows_all_pair]

/-- On the left a literal with a parenthesis in it, on the right a quote that stays open. -/
theorem read_composed_quotes :
    let l := "a = 'p)' OR (b > 1 AND c IN ('q',))"
    let r := "t.d = 02 ' AND @p <> u"
    let e : Expression :=
      .any [.clause ⟨"a", .equal, ["p)"]⟩,
        .all [.clause ⟨"b", .tagged .greater, ["> 1"]⟩, .clause ⟨"c", .oneOf, ["q"]⟩]]
    let f : Expression :=
      .all [.clause ⟨"d", .equal, ["2"]⟩, .clause ⟨"@p", .tagged .notEqual, ["!= u"]⟩]
    read l = .ok e ∧ read r = .ok f ∧ groupDepth l = 1 ∧ groupDepth r = 0 ∧
      l.toList.count '\'' = 4 ∧ r.toList.count '\'' = 1 ∧
      read ("(" ++ l ++ ") OR (" ++ r ++ ")") = .ok (.any [e, f]) ∧
      read ("(" ++ l ++ ") AND (" ++ r ++ ")") = .ok (.all [e, f]) := by
  intro l r e f
  have hscanl : scan l =
      [.word "a", .comparison .equal, .literal "'p)'", .orKw, .openParen, .word "b",
        .comparison .greater, .word "1", .andKw, .word "c", .inKw, .openParen, .literal "'q'",
        .comma, .closeParen, .closeParen] := by
    decide +kernel
  have hscanr : scan r =
      [.word "t.d", .comparison .equal, .word "02", .andKw, .word "@p", .comparison .notEqual,
        .word "u"] := by
    decide +kernel
  have hl : read l = .ok e := by
    rw [read, hscanl]
    decide +kernel
  have hr : read r = .ok f := by
    rw [read, hscanr]
    decide +kernel
  have hlDepth : groupDepth l = 1 := by
    rw [groupDepth, hscanl]
    decide +kernel
  have hrDepth : groupDepth r = 0 := by
    rw [groupDepth, hscanr]
    decide +kernel
  have hlCount : l.toList.count '\'' = 4 := by decide +kernel
  have hrCount : r.toList.count '\'' = 1 := by decide +kernel
  have hboth := read_composed hl hr (by omega) (by omega) (hlCount ▸ by decide)
  exact ⟨hl, hr, hlDepth, hrDepth, hlCount, hrCount, hboth.1, hboth.2.1⟩

end Expression

end DecisionTable
