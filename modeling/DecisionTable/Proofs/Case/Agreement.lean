import DecisionTable.Proofs.Case.Keywords
import DecisionTable.Proofs.Condition.Composition

/-!
# The words of a block and the words of a condition

A block looks for its keywords in runs of word characters, and a condition is cut into longer
stretches: points join runs to a name. Both cut the same text, and this is what the one makes of
the other's pieces.

* The keywords of a text are those that its tokens hold (`keywords_eq_flatMap`). A name holds
  the keywords that its runs spell, so `t.end` holds one.
* The quoted stretches between two keywords of a block are the literals of the text between them,
  whatever quotes stand around it (`literals_between`).
-/

namespace DecisionTable

open Text

/-! ## Literals -/

namespace Token

/-- Whether a token is a literal. -/
def isLiteral : Token → Bool
  | literal _ => true
  | _ => false

/-- Literals are the tokens of lexemes that begin with a quote. -/
theorem isLiteral_ofLexeme (lexeme : List Char) :
    (ofLexeme lexeme).isLiteral = decide (lexeme.head? = some '\'') := by
  rw [ofLexeme]
  -- symbols are looked for before quotes, but none has a quote in it
  cases hs : ofSymbol? lexeme with
  | some t =>
    have hhead : lexeme.head? ≠ some '\'' := fun he =>
      absurd (mem_symbolChars hs _ (List.mem_of_mem_head? he)) (by decide)
    obtain rfl | rfl | rfl | ⟨c, rfl⟩ := symbol_cases hs <;> simp [isLiteral, hhead]
  | none =>
    by_cases hhead : lexeme.head? = some '\''
    · simp [isLiteral, hhead]
    · cases hk : ofKeyword? lexeme with
      | none => simp [isLiteral, hhead]
      | some t =>
        have hall : ∀ p ∈ keywordSpellings, p.2.isLiteral = false := by
          simp [keywordSpellings, isLiteral]
        simpa [hhead] using hall _ (mem_keywordSpellings hk)

/-- The literals of a text are its quoted stretches. -/
theorem filter_isLiteral_ofChars (cs : List Char) :
    (ofChars cs).filter isLiteral = (lexemes quoted cs).map fun q => .literal (.ofList q) := by
  have hfilter : (fun l => (ofLexeme l).isLiteral) = fun l => decide (l.head? = some '\'') :=
    funext isLiteral_ofLexeme
  rw [ofChars, List.filter_map, Function.comp_def, hfilter, pairsQuotes_rule.filter_lexemes]
  refine List.map_congr_left fun q hq => ?_
  obtain ⟨c, ds, n, hr, rfl⟩ := exists_rule_of_mem_lexemes hq
  obtain rfl : c = '\'' := by
    by_contra hne
    rw [quoted_of_ne hne] at hr
    cases hr
  exact ofLexeme_quoted _

end Token

namespace Case

variable {cs rest : List Char} {c : Char} {n : Nat}

/-! ## Keywords in tokens -/

/-- The keywords that a block finds in the text of a token. -/
def keywordsIn : Token → List Keyword
  | .thenKw => [.thenKw]
  | .word name => (lexemes wholeRun name.toList).filterMap Keyword.ofRun?
  | _ => []

theorem keywordsIn_of_ofSymbol? {t : Token} (h : Token.ofSymbol? cs = some t) :
    keywordsIn t = [] := by
  obtain rfl | rfl | rfl | ⟨c, rfl⟩ := Token.symbol_cases h <;> rfl

/-- A letter has one lower case, whichever case it is in. -/
theorem toLower_toUpper (c : Char) : c.toUpper.toLower = c.toLower := by
  by_cases hlt : c.toNat < 128
  · have hall : ∀ n : Fin 128, (Char.ofNat n).toUpper.toLower = (Char.ofNat n).toLower := by decide
    simpa only [Char.ofNat_toNat] using hall ⟨c.toNat, hlt⟩
  · have hupper : c.toUpper = c :=
      dif_neg fun h => hlt (Nat.lt_of_le_of_lt (UInt32.le_iff_toNat_le.1 h.2) (by decide))
    rw [hupper]

/-- A word in any letter case, as a block compares it. -/
theorem map_foldCase_of_toUpper {w upper : List Char} (h : w.map Char.toUpper = upper)
    (hlong : 'ſ' ∉ upper) :
    w.map foldCase = upper.map Char.toLower ∧ w.map Char.toLower = upper.map Char.toLower := by
  subst h
  simp only [List.map_map, List.map_inj_left, Function.comp_apply, toLower_toUpper]
  refine ⟨fun c hc => if_neg ?_, fun _ _ => trivial⟩
  rintro rfl
  exact hlong (List.mem_map_of_mem hc)

/-- `THEN` is the keyword that both know. -/
theorem toList_ofRun?_of_ofKeyword? {w : List Char} {t : Token} (h : Token.ofKeyword? w = some t) :
    (Keyword.ofRun? w).toList = keywordsIn t := by
  have hmem := Token.mem_keywordSpellings h
  simp only [Token.keywordSpellings, List.mem_cons, Prod.mk.injEq, List.not_mem_nil,
    or_false] at hmem
  obtain ⟨hupper, rfl⟩ | ⟨hupper, rfl⟩ | ⟨hupper, rfl⟩ | ⟨hupper, rfl⟩ := hmem
  all_goals
    obtain ⟨hfold, hlower⟩ := map_foldCase_of_toUpper hupper (by decide)
    rw [Keyword.ofRun?, hfold, hlower]
    decide

/-- Without quotes, there are only runs. -/
theorem lexemes_eq_wholeRun (h : '\'' ∉ cs) : lexemes rule cs = lexemes wholeRun cs := by
  induction cs using pieces_induction wholeRun with
  | nil => rfl
  | lexeme c cs n hr ih =>
    rw [List.mem_cons, not_or] at h
    have hrule : rule c cs = some n := by
      rw [rule, quoted_of_ne (Ne.symm h.1), hr]
      rfl
    rw [lexemes_cons_of_some hrule, lexemes_cons_of_some hr,
      ih fun hmem => h.2 (List.mem_of_mem_drop hmem)]
  | gap c cs hr ih =>
    rw [List.mem_cons, not_or] at h
    have hrule : rule c cs = none := by
      rw [rule, quoted_of_ne (Ne.symm h.1), hr]
      rfl
    rw [lexemes_cons_of_none hrule, lexemes_cons_of_none hr, ih h.2]

/-! ## Keywords in lexemes -/

theorem plain_of_mem_symbolChars (h : c ∈ Token.symbolChars) : isWord c = false ∧ c ≠ '\'' := by
  refine ⟨Token.isWord_eq_false (Token.isName_eq_false_of_mem_symbolChars h), ?_⟩
  rintro rfl
  exact absurd h (by decide)

/-- The keywords of a word of a condition are those of its token. -/
theorem keywords_word {w : List Char} (hne : w ≠ [])
    (h : (∃ t, Token.ofKeyword? w = some t) ∨ Token.NameText w) :
    keywords w = keywordsIn (Token.ofLexeme w) ∧ '\'' ∉ w := by
  rcases h with ⟨t, hk⟩ | hname
  · have hword := Token.isWord_of_ofKeyword? hk
    rw [keywords, lexemes_run hne hword, Token.ofLexeme_of_keyword hk,
      ← toList_ofRun?_of_ofKeyword? hk]
    refine ⟨?_, fun hmem => absurd (hword _ hmem) (by decide)⟩
    cases hrun : Keyword.ofRun? w <;> simp [hrun]
  · have hquote := hname.not_mem
    rw [keywords, lexemes_eq_wholeRun hquote, Token.ofLexeme_of_nameText hname, keywordsIn,
      String.toList_ofList]
    exact ⟨rfl, hquote⟩

/-- Where a condition has a lexeme, a block finds the keywords of its token. -/
theorem keywords_cons_of_some (h : Token.rule c cs = some n) :
    keywords (c :: cs) = keywordsIn (Token.ofLexeme (c :: cs.take n)) ++ keywords (cs.drop n) := by
  have hsplit : c :: cs = (c :: cs.take n) ++ cs.drop n :=
    congrArg _ (List.take_append_drop n cs).symm
  rcases Token.lexeme_cases h with ⟨t, hs⟩ | ⟨v, -, hquoted⟩ | ⟨hword, hrest⟩
  · have hplain : ∀ d ∈ c :: cs.take n, isWord d = false ∧ d ≠ '\'' := fun d hd =>
      plain_of_mem_symbolChars (Token.mem_symbolChars hs d hd)
    rw [Token.ofLexeme_of_symbol hs, keywordsIn_of_ofSymbol? hs, List.nil_append, keywords, hsplit,
      lexemes_append_of_plain hplain, keywords]
  · -- both rules take the same quoted stretch, and a word may stand right behind it
    obtain rfl : c = '\'' := (List.cons.inj hquoted).1
    rw [Token.pairsQuotes_rule.quote_eq, ← rule_quote] at h
    rw [Token.ofLexeme_quoted, keywords, lexemes_cons_of_some h,
      List.filterMap_cons_none (Keyword.ofRun?_quoted _)]
    rfl
  · obtain ⟨hkeywords, hquote⟩ := keywords_word (List.cons_ne_nil c _) hword
    have heven : Even ((c :: cs.take n).count '\'') := by
      rw [List.count_eq_zero.2 hquote]
      exact Even.zero
    rw [← hkeywords, keywords, hsplit, lexemes_append hrest (.inl heven), List.filterMap_append,
      keywords, keywords]

/-- Where a condition finds nothing, a block finds nothing. -/
theorem keywords_cons_of_none (h : Token.rule c cs = none) : keywords (c :: cs) = keywords cs := by
  have hrule : rule c cs = none := by
    by_cases hquote : c = '\''
    · subst hquote
      rwa [Token.pairsQuotes_rule.quote_eq, ← rule_quote] at h
    · -- a word character would begin a name
      refine rule_of_not_isWord hquote ?_ cs
      rw [← Bool.not_eq_true]
      intro hword
      simp [Token.rule, Token.name, Token.isName_of_isWord hword] at h
  rw [keywords, lexemes_cons_of_none hrule, keywords]

/-- The keywords of a text are those that its tokens hold. -/
theorem keywords_eq_flatMap (cs : List Char) :
    keywords cs = (Token.ofChars cs).flatMap keywordsIn := by
  induction cs using pieces_induction Token.rule with
  | nil => rfl
  | lexeme c cs n hr ih =>
    rw [keywords_cons_of_some hr, Token.ofChars_cons_of_some hr, List.flatMap_cons, ih]
  | gap c cs hr ih => rw [keywords_cons_of_none hr, Token.ofChars_cons_of_none hr, ih]

theorem keywords_eq_nil_iff : keywords cs = [] ↔ ∀ t ∈ Token.ofChars cs, keywordsIn t = [] := by
  rw [keywords_eq_flatMap, List.flatMap_eq_nil_iff]

/-! ## Quotes between keywords -/

/-- The quoted stretches that follow a keyword are the literals of the text that follows it. -/
theorem filter_isLiteral_text {s : Segment} (h : s ∈ (segments cs).2) :
    (Token.ofChars s.text).filter Token.isLiteral =
      s.quotes.map fun q => .literal (.ofList q) := by
  rw [Token.filter_isLiteral_ofChars, Segment.quotes, ← pieces_text h, ← lexemes,
    pairsQuotes_rule.filter_lexemes]

/-- No `THEN` stands where a block finds no keyword. -/
theorem thenKw_not_mem_of_keywords (h : keywords cs = []) : .thenKw ∉ Token.ofChars cs := by
  intro hmem
  have hnone := keywords_eq_nil_iff.1 h _ hmem
  cases hnone

/-- Let two keywords follow each other in a text. Scanned by itself, what stands between them has
the quoted stretches that were passed over there for its literals, in order, and it has no `THEN`.
The text around the two keywords may have any quotes in it, paired or not. -/
theorem literals_between {before after : List Segment} {w t : Segment}
    (h : (segments cs).2 = before ++ w :: t :: after) :
    (∃ front back, byteSize (front.flatMap Piece.text) = w.offset ∧
      pieces rule cs = front ++ .lexeme w.word :: (w.following ++ .lexeme t.word :: back)) ∧
    (Token.scan (.ofList w.text)).filter Token.isLiteral =
      w.quotes.map (fun q => .literal (.ofList q)) ∧
    .thenKw ∉ Token.scan (.ofList w.text) := by
  have hw : w ∈ (segments cs).2 := by simp [h]
  rw [Token.scan, String.toList_ofList]
  refine ⟨⟨(segments cs).1 ++ before.flatMap Segment.pieces,
    t.following ++ after.flatMap Segment.pieces, ?_, ?_⟩, filter_isLiteral_text hw,
    thenKw_not_mem_of_keywords (keywords_text hw)⟩
  · have hoffset := offset_of_locate_eq_append h
    rw [hoffset, List.flatMap_append, byteSize_append, List.flatMap_assoc]
    rfl
  · rw [pieces_eq_of_segments h]
    simp [Segment.pieces]

/-- Before the two keywords a third one stands in quotes, and behind them a quote stays open. -/
theorem literals_between_stray :
    let cs := "x' WHEN' WHEN a = 'then' OR b IN (''c, d) THEN it's END".toList
    ∃ w t closing, (segments cs).2 = [w, t, closing] ∧ w.keyword = .whenKw ∧ t.keyword = .thenKw ∧
      (Token.scan (.ofList w.text)).filter Token.isLiteral =
        [.literal "'then'", .literal "''"] ∧
      .thenKw ∉ Token.scan (.ofList w.text) := by
  intro cs
  have hkeywords : (segments cs).2.map Segment.keyword = [.whenKw, .thenKw, .endKw] := by
    decide +kernel
  have hquotes : (segments cs).2.map Segment.quotes =
      [[['\'', 't', 'h', 'e', 'n', '\''], ['\'', '\'']], [], []] := by
    decide +kernel
  obtain ⟨w, rest, hsegments, hw, hrest⟩ := List.map_eq_cons_iff.1 hkeywords
  obtain ⟨t, rest, rfl, ht, hrest⟩ := List.map_eq_cons_iff.1 hrest
  obtain ⟨closing, rest, rfl, -, hrest⟩ := List.map_eq_cons_iff.1 hrest
  obtain rfl := List.map_eq_nil_iff.1 hrest
  have hfollow : (segments cs).2 = [] ++ w :: t :: [closing] := hsegments
  obtain ⟨-, hliterals, hthen⟩ := literals_between hfollow
  rw [hsegments, List.map_cons] at hquotes
  refine ⟨w, t, closing, hsegments, hw, ht, ?_, hthen⟩
  rw [hliterals, (List.cons.inj hquotes).1]
  rfl

end Case

end DecisionTable
