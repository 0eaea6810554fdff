import DecisionTable.Proofs.Condition.Lexeme
import DecisionTable.Proofs.Text.Locality

/-!
# Scanning what was written

Scanning brings forth tokens that have a text (`scannable_of_mem_ofChars`), and each of them
is found again where its text is followed by something that cannot be taken for a part of it
(`ofChars_text_append`).
-/

namespace DecisionTable.Token

open Text

/-! ## Scanning by lexemes -/

theorem ofChars_cons_of_some {c : Char} {cs : List Char} {n : Nat} (h : rule c cs = some n) :
    ofChars (c :: cs) = ofLexeme (c :: cs.take n) :: ofChars (cs.drop n) := by
  rw [ofChars, lexemes_cons_of_some h]
  rfl

theorem ofChars_cons_of_none {c : Char} {cs : List Char} (h : rule c cs = none) :
    ofChars (c :: cs) = ofChars cs := by
  rw [ofChars, lexemes_cons_of_none h]
  rfl

@[simp] theorem ofChars_nil : ofChars [] = [] := rfl

/-- Every token of a text has a text. -/
theorem scannable_of_mem_ofChars {t : Token} {cs : List Char} (h : t ∈ ofChars cs) :
    t.Scannable := by
  induction cs using pieces_induction rule with
  | nil => cases h
  | lexeme c cs n hrule ih =>
    rw [ofChars_cons_of_some hrule] at h
    rcases List.mem_cons.1 h with rfl | h
    · exact scannable_of_rule hrule
    · exact ih h
  | gap c cs hrule ih =>
    rw [ofChars_cons_of_none hrule] at h
    exact ih h

/-! ## Scanning a token's text -/

/-- The text begins with nothing that could be taken for a part of the token before it. -/
def StartsApart (rest : List Char) : Prop :=
  ∀ c, rest.head? = some c → isName c = false ∧ c ≠ '=' ∧ c ≠ '>'

theorem startsApart_nil : StartsApart [] := nofun

theorem startsApart_cons {c : Char} (h : isName c = false ∧ c ≠ '=' ∧ c ≠ '>')
    (rest : List Char) : StartsApart (c :: rest) := by
  intro d hd
  obtain rfl : c = d := Option.some.inj hd
  exact h

theorem startsApart_space (rest : List Char) : StartsApart (' ' :: rest) :=
  startsApart_cons (by decide) rest

variable {rest : List Char}

theorem twoCharSymbol_of_head (h : ∀ d, rest.head? = some d → d ≠ '=' ∧ d ≠ '>') (c : Char) :
    twoCharSymbol c rest = none := by
  cases rest with
  | nil => rfl
  | cons d ds =>
    have hd := h d rfl
    rw [twoCharSymbol, ofSymbol?_pair_eq_none hd.1 hd.2]
    rfl

theorem twoCharSymbol_of_apart (h : StartsApart rest) (c : Char) :
    twoCharSymbol c rest = none := twoCharSymbol_of_head (fun d hd => (h d hd).2) c

/-- What stands apart does not lengthen a run. -/
theorem run_append_of_apart (cs : List Char) (h : StartsApart rest) :
    run (cs ++ rest) = run cs :=
  takeWhile_append_of_head (fun d hd => isWord_eq_false (h d hd).1) cs

/-- What stands apart does not lengthen a name. -/
theorem takeWhile_isName_append (cs : List Char) (h : StartsApart rest) :
    (cs ++ rest).takeWhile isName = cs.takeWhile isName :=
  takeWhile_append_of_head (fun d hd => (h d hd).1) cs

/-! ### Symbols -/

theorem ofChars_oneChar {c : Char} {t : Token} (h : ofSymbol? [c] = some t)
    (htwo : twoCharSymbol c rest = none) : ofChars (c :: rest) = t :: ofChars rest := by
  have hsymbol := mem_symbolChars h c List.mem_cons_self
  have hword := isWord_eq_false (isName_eq_false_of_mem_symbolChars hsymbol)
  have hrule : rule c rest = some 0 := by
    simp [rule, htwo, keyword, run_eq_nil hword, oneCharSymbol, h]
  rw [ofChars_cons_of_some hrule, List.take_zero, List.drop_zero, ofLexeme_of_symbol h]

theorem ofChars_twoChar {c d : Char} {t : Token} (h : ofSymbol? [c, d] = some t) :
    ofChars (c :: d :: rest) = t :: ofChars rest := by
  have hrule : rule c (d :: rest) = some 1 := by simp [rule, twoCharSymbol, h]
  rw [ofChars_cons_of_some hrule]
  simp [ofLexeme_of_symbol h]

@[simp] theorem ofChars_openParen : ofChars ('(' :: rest) = .openParen :: ofChars rest := by
  apply ofChars_oneChar rfl
  cases rest <;> rfl

@[simp] theorem ofChars_closeParen : ofChars (')' :: rest) = .closeParen :: ofChars rest := by
  apply ofChars_oneChar rfl
  cases rest <;> rfl

@[simp] theorem ofChars_comma : ofChars (',' :: rest) = .comma :: ofChars rest := by
  apply ofChars_oneChar rfl
  cases rest <;> rfl

/-! ### Words -/

theorem twoCharSymbol_of_not_mem {c : Char} (h : c ∉ symbolChars) (cs : List Char) :
    twoCharSymbol c cs = none := by
  cases cs with
  | nil => rfl
  | cons d ds =>
    rw [twoCharSymbol, ofSymbol?_eq_none h]
    rfl

theorem oneCharSymbol_of_not_mem {c : Char} (h : c ∉ symbolChars) (cs : List Char) :
    oneCharSymbol c cs = none := by
  rw [oneCharSymbol, ofSymbol?_eq_none h]
  rfl

theorem keyword_of_not_isWord {c : Char} (h : isWord c = false) (cs : List Char) :
    keyword c cs = none := by
  rw [keyword, run_eq_nil h]
  rfl

@[simp] theorem ofChars_space : ofChars (' ' :: rest) = ofChars rest := by
  have hname : name ' ' rest = none := by
    have hspace : isName ' ' = false := by decide
    simp [name, hspace]
  apply ofChars_cons_of_none
  rw [rule, twoCharSymbol_of_not_mem (by decide), keyword_of_not_isWord (by decide),
    oneCharSymbol_of_not_mem (by decide), quoted_of_ne (by decide), hname]
  rfl

/-- A keyword is found where no word character follows it. -/
theorem ofChars_keyword_of_head {w : List Char} {t : Token} (h : ofKeyword? w = some t)
    (hrest : ∀ d, rest.head? = some d → isWord d = false) :
    ofChars (w ++ rest) = t :: ofChars rest := by
  have hword := isWord_of_ofKeyword? h
  cases w with
  | nil => cases ofKeyword?_nil ▸ h
  | cons c cs =>
    have hname := isName_of_isWord (hword c List.mem_cons_self)
    have hsymbol := not_mem_symbolChars_of_isName hname
    -- no word character follows, so the run is the keyword and no more
    have hrun : run (c :: (cs ++ rest)) = c :: cs := takeWhile_append_of_all hword hrest
    have hrule : rule c (cs ++ rest) = some cs.length := by
      simp [rule, twoCharSymbol_of_not_mem hsymbol, keyword, hrun, h]
    rw [List.cons_append, ofChars_cons_of_some hrule, List.take_left, List.drop_left,
      ofLexeme_of_keyword h]

theorem ofChars_keyword {w : List Char} {t : Token} (h : ofKeyword? w = some t)
    (hrest : StartsApart rest) : ofChars (w ++ rest) = t :: ofChars rest :=
  ofChars_keyword_of_head h fun d hd => isWord_eq_false (hrest d hd).1

theorem ofChars_name {w : List Char} (h : NameText w) (hrest : StartsApart rest) :
    ofChars (w ++ rest) = .word (.ofList w) :: ofChars rest := by
  have hw := h
  obtain @⟨c, cs, hkeyword, hc, hcs⟩ := h
  obtain ⟨hsymbol, hquote⟩ := hw.head_cases
  have hnokeyword : keyword c (cs ++ rest) = none := by
    rw [keyword, ← List.cons_append, run_append_of_apart _ hrest, hkeyword]
    rfl
  have htake : (cs ++ rest).takeWhile isName = cs := by
    rw [takeWhile_isName_append cs hrest, List.takeWhile_eq_self_iff.2 hcs]
  have hname : name c (cs ++ rest) = some cs.length := by
    simp only [name, htake]
    exact if_pos hc
  have hrule : rule c (cs ++ rest) = some cs.length := by
    simp [rule, twoCharSymbol_of_not_mem hsymbol, hnokeyword, oneCharSymbol_of_not_mem hsymbol,
      quoted_of_ne hquote, hname]
  rw [List.cons_append, ofChars_cons_of_some hrule, List.take_left, List.drop_left,
    ofLexeme_of_nameText hw]

/-! ### Literals -/

theorem ofChars_literal {v : List Char} (hv : '\'' ∉ v) (rest : List Char) :
    ofChars ('\'' :: v ++ '\'' :: rest) =
      .literal (.ofList ('\'' :: v ++ ['\''])) :: ofChars rest := by
  have hquoted : quoted '\'' (v ++ '\'' :: rest) = some (v.length + 1) :=
    quoted_eq_some_iff.2 ⟨v, rest, hv, rfl, rfl⟩
  have hrule : rule '\'' (v ++ '\'' :: rest) = some (v.length + 1) := by
    have hsymbol : '\'' ∉ symbolChars := by decide
    simp [rule, twoCharSymbol_of_not_mem hsymbol, keyword_of_not_isWord (c := '\'') (by decide),
      oneCharSymbol_of_not_mem hsymbol, hquoted]
  have hsplit : v ++ '\'' :: rest = (v ++ ['\'']) ++ rest := by simp
  have hlength : v.length + 1 = (v ++ ['\'']).length := by simp
  rw [List.cons_append, ofChars_cons_of_some hrule, hsplit, hlength, List.take_left,
    List.drop_left, ofLexeme_quoted, List.cons_append]

/-! ## Tokens and their texts -/

/-- A token is found again in its text, where that is followed by something apart. -/
theorem ofChars_text_append {t : Token} (h : t.Scannable) (hrest : StartsApart rest) :
    ofChars (t.text.toList ++ rest) = t :: ofChars rest := by
  have happart := twoCharSymbol_of_apart hrest
  cases t with
  | comparison c =>
    cases c with
    | equal => exact ofChars_oneChar rfl (happart '=')
    | notEqual => exact ofChars_twoChar rfl
    | less => exact ofChars_oneChar rfl (happart '<')
    | greater => exact ofChars_oneChar rfl (happart '>')
    | lessEqual => exact ofChars_twoChar rfl
    | greaterEqual => exact ofChars_twoChar rfl
  | andKw => exact ofChars_keyword (w := ['A', 'N', 'D']) (by decide) hrest
  | orKw => exact ofChars_keyword (w := ['O', 'R']) (by decide) hrest
  | inKw => exact ofChars_keyword (w := ['I', 'N']) (by decide) hrest
  | thenKw => exact ofChars_keyword (w := ['T', 'H', 'E', 'N']) (by decide) hrest
  | openParen => exact ofChars_openParen
  | closeParen => exact ofChars_closeParen
  | comma => exact ofChars_comma
  | literal text =>
    obtain ⟨v, hv, htext⟩ := h
    have hscan := ofChars_literal hv rest
    rw [← htext, String.ofList_toList] at hscan
    rw [Token.text, htext, ← hscan]
    simp
  | word text =>
    have hscan := ofChars_name h hrest
    rwa [String.ofList_toList] at hscan

/-- Tokens written with spaces between them are found again. -/
theorem ofChars_join_append {ts : List Token} (h : ∀ t ∈ ts, t.Scannable)
    (hrest : StartsApart rest) : ofChars ((join ts).toList ++ rest) = ts ++ ofChars rest := by
  induction ts with
  | nil => rfl
  | cons t ts ih =>
    have ht := h t List.mem_cons_self
    have hts := ih fun u hu => h u (List.mem_cons_of_mem _ hu)
    cases ts with
    | nil =>
      rw [join, List.map_singleton, String.intercalate_singleton]
      exact ofChars_text_append ht hrest
    | cons u us =>
      have hjoin : (join (t :: u :: us)).toList =
          t.text.toList ++ ' ' :: (join (u :: us)).toList := by
        simp [join, String.intercalate_cons_cons]
      rw [hjoin, List.append_assoc, List.cons_append,
        ofChars_text_append ht (startsApart_space _), ofChars_space, hts]
      rfl

end DecisionTable.Token
