import DecisionTable.Proofs.Condition.Composition

/-!
# Spellings that make no difference

A keyword may be written in any letter case and `≠` with either symbol: wherever scanning finds
the one spelling, it finds the same tokens with the other one in its place, whatever stands around
it (`scan_respelled`). What stands before the two cannot tell them apart (`Alike`), because a
lexeme looks no further than to the first character behind it, and there only for its kind.
-/

namespace DecisionTable

open Text

namespace Token

variable {c : Char} {cs rest rest' : List Char}

/-! ## Texts that look alike from the left -/

/-- A lexeme that ends before the one text ends before the other as well. -/
structure Alike (rest rest' : List Char) : Prop where
  isName_head : rest'.head?.map isName = rest.head?.map isName
  isWord_head : rest'.head?.map isWord = rest.head?.map isWord
  closes : ∀ d, rest.head? = some d → d ≠ '=' ∧ d ≠ '>'
  closes' : ∀ d, rest'.head? = some d → d ≠ '=' ∧ d ≠ '>'
  quote : '\'' ∈ rest' ↔ '\'' ∈ rest

theorem rule_of_mem_symbolChars (h : c ∈ symbolChars) :
    rule c cs = (twoCharSymbol c cs).or (oneCharSymbol c cs) := by
  have hname := isName_eq_false_of_mem_symbolChars h
  have hquote : c ≠ '\'' := by
    rintro rfl
    exact absurd h (by decide)
  have hat : c ≠ '@' := by
    rintro rfl
    exact absurd h (by decide)
  simp [rule, keyword_of_not_isWord (isWord_eq_false hname), quoted_of_ne hquote, name, hname, hat]

theorem rule_of_not_mem_symbolChars (h : c ∉ symbolChars) (hquote : c ≠ '\'') :
    rule c cs = (keyword c cs).or (name c cs) := by
  simp [rule, twoCharSymbol_of_not_mem h, oneCharSymbol_of_not_mem h, quoted_of_ne hquote]

theorem keyword_of_isWord (h : isWord c = true) :
    keyword c cs =
      (ofKeyword? (c :: cs.takeWhile isWord)).map fun _ => (cs.takeWhile isWord).length := by
  simp only [keyword, run, List.takeWhile_cons_of_pos h, List.length_cons, Nat.add_sub_cancel]

theorem name_of_isName (h : isName c = true) : name c cs = some (cs.takeWhile isName).length := by
  simp [name, h]

/-- A run is part of the name that it begins. -/
theorem length_takeWhile_isWord_le (cs : List Char) :
    (cs.takeWhile isWord).length ≤ (cs.takeWhile isName).length := by
  induction cs with
  | nil => exact Nat.le_refl 0
  | cons c cs ih =>
    by_cases hc : isWord c = true
    · rw [List.takeWhile_cons_of_pos hc, List.takeWhile_cons_of_pos (isName_of_isWord hc)]
      exact Nat.succ_le_succ ih
    · rw [List.takeWhile_cons_of_neg hc]
      exact Nat.zero_le _

theorem twoCharSymbol_append_congr (h : Alike rest rest') (c : Char) (cs : List Char) :
    twoCharSymbol c (cs ++ rest') = twoCharSymbol c (cs ++ rest) := by
  cases cs with
  | nil => exact (twoCharSymbol_of_head h.closes' c).trans (twoCharSymbol_of_head h.closes c).symm
  | cons d ds => rfl

theorem keyword_append_congr (h : Alike rest rest')
    (hshort : isWord c = true → ((cs ++ rest).takeWhile isWord).length ≤ cs.length) :
    keyword c (cs ++ rest') = keyword c (cs ++ rest) := by
  by_cases hc : isWord c = true
  · rw [keyword_of_isWord hc, keyword_of_isWord hc,
      takeWhile_append_congr h.isWord_head (hshort hc)]
  · have hc' := Bool.not_eq_true _ ▸ hc
    rw [keyword_of_not_isWord hc', keyword_of_not_isWord hc']

theorem name_append_congr (h : Alike rest rest')
    (hshort : ∀ n, name c (cs ++ rest) = some n → n ≤ cs.length) :
    name c (cs ++ rest') = name c (cs ++ rest) := by
  by_cases hc : isName c = true ∨ c = '@'
  · have hlength : ((cs ++ rest).takeWhile isName).length ≤ cs.length := by
      by_cases hnil : (cs ++ rest).takeWhile isName = []
      · rw [hnil]
        exact Nat.zero_le _
      · exact hshort _ (if_pos (hc.imp_right fun hat => ⟨hat, hnil⟩))
    simp only [name, takeWhile_append_congr h.isName_head hlength]
  · rw [not_or] at hc
    simp [name, hc]

/-- A lexeme that ends before the rest is the same with an alike one. -/
theorem rule_append_congr (h : Alike rest rest') (c : Char) (cs : List Char) (hquote : c ≠ '\'')
    (hshort : ∀ n, rule c (cs ++ rest) = some n → n ≤ cs.length) :
    rule c (cs ++ rest') = rule c (cs ++ rest) := by
  by_cases hc : c ∈ symbolChars
  · rw [rule_of_mem_symbolChars hc, rule_of_mem_symbolChars hc, twoCharSymbol_append_congr h]
    rfl
  · simp only [rule_of_not_mem_symbolChars hc hquote] at hshort ⊢
    cases hk : keyword c (cs ++ rest) with
    | some n =>
      have hkeyword : keyword c (cs ++ rest') = keyword c (cs ++ rest) := by
        refine keyword_append_congr h fun hword => ?_
        have hn : n ≤ cs.length := hshort n (by rw [hk]; rfl)
        rw [keyword_of_isWord hword] at hk
        obtain ⟨t, -, hlength⟩ := Option.map_eq_some_iff.1 hk
        rwa [hlength]
      rw [hkeyword, hk]
      rfl
    | none =>
      have hname : ∀ n, name c (cs ++ rest) = some n → n ≤ cs.length :=
        fun n hn => hshort n (by rw [hk, hn]; rfl)
      -- a run that spells no keyword is part of a name, and that ends before the rest
      have hkeyword : keyword c (cs ++ rest') = keyword c (cs ++ rest) :=
        keyword_append_congr h fun hword => (length_takeWhile_isWord_le _).trans
          (hname _ (name_of_isName (isName_of_isWord hword)))
      rw [hkeyword, hk, name_append_congr h hname]

/-! ## Spellings -/

/-- The symbols for `≠`. -/
def notEqualSymbols : List (List Char) := [['<', '>'], ['!', '=']]

/-- Two spellings of one token: a keyword in two letter cases, or the symbols for `≠`. -/
inductive Respelled : List Char → List Char → Prop where
  | keyword {w w' : List Char} : (ofKeyword? w).isSome → w'.map Char.toUpper = w.map Char.toUpper →
      Respelled w w'
  | notEqual {w w' : List Char} : w ∈ notEqualSymbols → w' ∈ notEqualSymbols → Respelled w w'

variable {w w' : List Char}

theorem ofKeyword?_congr (h : w'.map Char.toUpper = w.map Char.toUpper) :
    ofKeyword? w' = ofKeyword? w := by
  simp only [ofKeyword?, h]

theorem exists_cons_of_ofKeyword? {t : Token} (h : ofKeyword? w = some t) :
    ∃ c cs, w = c :: cs ∧ isWord c = true ∧ '\'' ∉ w := by
  have hword := isWord_of_ofKeyword? h
  cases w with
  | nil => cases ofKeyword?_nil ▸ h
  | cons c cs =>
    exact ⟨c, cs, rfl, hword c List.mem_cons_self,
      fun hq => ne_quote_of_isName (isName_of_isWord (hword _ hq)) rfl⟩

theorem alike_cons {d : Char} (hname : isName d = isName c) (hword : isWord d = isWord c)
    (hc : c ≠ '=' ∧ c ≠ '>') (hd : d ≠ '=' ∧ d ≠ '>')
    (hquote : '\'' ∈ d :: rest' ↔ '\'' ∈ c :: rest) : Alike (c :: rest) (d :: rest') where
  isName_head := congrArg some hname
  isWord_head := congrArg some hword
  closes := by
    rintro e ⟨⟩
    exact hc
  closes' := by
    rintro e ⟨⟩
    exact hd
  quote := hquote

/-- Nothing that stands before it tells one spelling from the other. -/
theorem Respelled.alike (h : Respelled w w') (rest : List Char) :
    Alike (w ++ rest) (w' ++ rest) := by
  cases h with
  | keyword hk hupper =>
    obtain ⟨t, hk⟩ := Option.isSome_iff_exists.1 hk
    have hk' : ofKeyword? w' = some t := (ofKeyword?_congr hupper).trans hk
    have hapart : ∀ e, isWord e = true → e ≠ '=' ∧ e ≠ '>' := by
      intro e he
      constructor <;> (rintro rfl; exact absurd he (by decide))
    obtain ⟨c, cs, rfl, hc, hquote⟩ := exists_cons_of_ofKeyword? hk
    obtain ⟨d, ds, rfl, hd, hquote'⟩ := exists_cons_of_ofKeyword? hk'
    have hquotes : '\'' ∈ (d :: ds) ++ rest ↔ '\'' ∈ (c :: cs) ++ rest := by
      rw [List.mem_append, List.mem_append]
      simp only [hquote, hquote']
    have hname : isName d = isName c := by rw [isName_of_isWord hc, isName_of_isWord hd]
    exact alike_cons hname (hd.trans hc.symm) (hapart c hc) (hapart d hd) hquotes
  | notEqual hw hw' =>
    simp only [notEqualSymbols, List.mem_cons, List.not_mem_nil, or_false] at hw hw'
    have hquote : ('\'' ∈ w' ++ rest ↔ '\'' ∈ w ++ rest) := by
      rcases hw with rfl | rfl <;> rcases hw' with rfl | rfl <;> simp
    rcases hw with rfl | rfl <;> rcases hw' with rfl | rfl <;>
      exact alike_cons (by decide) (by decide) (by decide) (by decide) hquote

/-- Both spellings of a keyword are found where no word character follows, and both symbols
anywhere. -/
theorem Respelled.ofChars_append (h : Respelled w w')
    (hrest : (ofKeyword? w).isSome → ∀ d, rest.head? = some d → isWord d = false) :
    ofChars (w' ++ rest) = ofChars (w ++ rest) := by
  cases h with
  | keyword hk hupper =>
    obtain ⟨t, ht⟩ := Option.isSome_iff_exists.1 hk
    have ht' : ofKeyword? w' = some t := (ofKeyword?_congr hupper).trans ht
    rw [ofChars_keyword_of_head ht (hrest hk), ofChars_keyword_of_head ht' (hrest hk)]
  | notEqual hw hw' =>
    have hfound : ∀ v ∈ notEqualSymbols,
        ofChars (v ++ rest) = .comparison .notEqual :: ofChars rest := by
      intro v hv
      simp only [notEqualSymbols, List.mem_cons, List.not_mem_nil, or_false] at hv
      rcases hv with rfl | rfl <;> exact ofChars_twoChar rfl
    rw [hfound w hw, hfound w' hw']

/-! ## Scanning another spelling -/

/-- No word character follows a keyword that was found. -/
theorem isWord_of_follows_keyword {n : Nat} (h : rule c cs = some n)
    (hk : (ofKeyword? (c :: cs.take n)).isSome) :
    ∀ d, (cs.drop n).head? = some d → isWord d = false := by
  obtain ⟨t, hk⟩ := Option.isSome_iff_exists.1 hk
  have hword : isWord c = true := isWord_of_ofKeyword? hk c List.mem_cons_self
  have hname := isName_of_isWord hword
  rcases lexeme_cases h with ⟨u, hs⟩ | ⟨v, -, hquoted⟩ | ⟨-, hrest⟩
  · exact absurd (mem_symbolChars hs c List.mem_cons_self) (not_mem_symbolChars_of_isName hname)
  · exact absurd (List.cons.inj hquoted).1 (ne_quote_of_isName hname)
  · exact hrest

/-- Let scanning find a lexeme in a text, and write another spelling of it in its place. -/
theorem ofChars_respelled {before after : List Piece}
    (h : pieces rule cs = before ++ .lexeme w :: after) (hw : Respelled w w') :
    ofChars (before.flatMap Piece.text ++ (w' ++ after.flatMap Piece.text)) = ofChars cs := by
  have htext : cs = before.flatMap Piece.text ++ (w ++ after.flatMap Piece.text) := by
    rw [← flatMap_text_pieces rule cs, h, List.flatMap_append, List.flatMap_cons,
      Piece.text_lexeme]
  have hlater : pieces rule (w ++ after.flatMap Piece.text) = .lexeme w :: after :=
    pieces_flatMap_text h
  -- up to the lexeme, both texts are cut into the same pieces
  have halike := hw.alike (after.flatMap Piece.text)
  have hfront : pieces rule (before.flatMap Piece.text ++ (w ++ after.flatMap Piece.text)) =
      before ++ pieces rule (w ++ after.flatMap Piece.text) := by rw [← htext, h, hlater]
  have hpieces := pairsQuotes_rule.pieces_append_congr (rule_append_congr halike) halike.quote
    hfront
  -- from the lexeme on, they have the same tokens
  have hrest : (ofKeyword? w).isSome →
      ∀ d, (after.flatMap Piece.text).head? = some d → isWord d = false := by
    intro hk
    rcases pieces_eq_cons_cases hlater with ⟨c, ds, -, -, hgap, -⟩ | ⟨c, ds, n, -, hr, hl, hds⟩
    · cases hgap
    · obtain rfl : w = c :: ds.take n := Piece.lexeme.inj hl
      rw [← hds, flatMap_text_pieces]
      exact isWord_of_follows_keyword hr hk
  have htokens := hw.ofChars_append hrest
  simp only [ofChars, lexemes] at htokens ⊢
  rw [hpieces, h, ← hlater, List.filterMap_append, List.filterMap_append, List.map_append,
    List.map_append, htokens]

/-- Let scanning find a keyword or a symbol for `≠` in a text, and write another spelling of it in
its place. Whatever stands before and after it, the new text has the same tokens, so that it is
read as the same condition, with the same rows, or refused with the same error. -/
theorem scan_respelled {text respelled : String} {before after : List Piece} {w w' : List Char}
    (h : pieces rule text.toList = before ++ .lexeme w :: after) (hw : Respelled w w')
    (hrespelled : respelled.toList =
      before.flatMap Piece.text ++ w' ++ after.flatMap Piece.text) :
    scan respelled = scan text ∧ Expression.read respelled = Expression.read text ∧
      (Expression.read respelled).map Expression.rows =
        (Expression.read text).map Expression.rows := by
  have hscan : scan respelled = scan text := by
    rw [scan, hrespelled, List.append_assoc]
    exact ofChars_respelled h hw
  have hread : Expression.read respelled = Expression.read text := by
    rw [Expression.read, hscan, Expression.read]
  exact ⟨hscan, hread, by rw [hread]⟩

/-- A keyword between a literal and a parenthesis, and a symbol between two others that could be
taken for parts of it. -/
theorem scan_respelled_tight :
    scan "a='x'and(b<<>=1)" = scan "a='x'AnD(b<<>=1)" ∧
      scan "a='x'AnD(b<!==1)" = scan "a='x'AnD(b<<>=1)" := by
  have hword : pieces rule "a='x'AnD(b<<>=1)".toList =
      [.lexeme ['a'], .lexeme ['='], .lexeme ['\'', 'x', '\'']] ++ .lexeme ['A', 'n', 'D'] ::
        [.lexeme ['('], .lexeme ['b'], .lexeme ['<'], .lexeme ['<', '>'], .lexeme ['='],
          .lexeme ['1'], .lexeme [')']] := by decide +kernel
  have hsymbol : pieces rule "a='x'AnD(b<<>=1)".toList =
      [.lexeme ['a'], .lexeme ['='], .lexeme ['\'', 'x', '\''], .lexeme ['A', 'n', 'D'],
          .lexeme ['('], .lexeme ['b'], .lexeme ['<']] ++ .lexeme ['<', '>'] ::
        [.lexeme ['='], .lexeme ['1'], .lexeme [')']] := by decide +kernel
  have hcase : Respelled ['A', 'n', 'D'] ['a', 'n', 'd'] := .keyword (by decide) (by decide)
  have hsign : Respelled ['<', '>'] ['!', '='] := .notEqual (by decide) (by decide)
  exact ⟨(scan_respelled hword hcase (by decide +kernel)).1,
    (scan_respelled hsymbol hsign (by decide +kernel)).1⟩

end Token

end DecisionTable
