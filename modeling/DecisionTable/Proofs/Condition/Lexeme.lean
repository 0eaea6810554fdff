import DecisionTable.Condition.Lexer
import DecisionTable.Proofs.Text.Locality

/-!
# Lexemes

`rule_cases` lists what the rule can find, and `lexeme_cases` what that looks like: a symbol, a
quoted stretch, a keyword or a name. The token of a lexeme is not any token, since a literal or a
word could hold anything: `Token.Scannable` says which tokens have a text, and
`scannable_of_rule` that lexemes bring forth no others.
-/

namespace DecisionTable.Token

open Text

/-! ## Where symbols and names begin -/

/-- The characters of the symbols. -/
def symbolChars : List Char := ['(', ')', ',', '=', '!', '<', '>']

/-- A symbol is written with the characters of the symbols. -/
theorem mem_symbolChars {cs : List Char} {t : Token} (h : ofSymbol? cs = some t) :
    ∀ c ∈ cs, c ∈ symbolChars := by
  rw [ofSymbol?.eq_def] at h
  split at h
  · simp [symbolChars]
  · simp [symbolChars]
  · simp [symbolChars]
  · rw [Comparison.ofSymbol?.eq_def] at h
    split at h <;> first | (simp [symbolChars]; done) | simp at h

theorem isName_eq_false_of_mem_symbolChars {c : Char} (h : c ∈ symbolChars) : isName c = false := by
  simp only [symbolChars, List.mem_cons, List.not_mem_nil, or_false] at h
  rcases h with rfl | rfl | rfl | rfl | rfl | rfl | rfl <;> decide

theorem isName_of_isWord {c : Char} (h : isWord c = true) : isName c = true := by
  simp [isName, h]

theorem ofSymbol?_eq_none {c : Char} (h : c ∉ symbolChars) (cs : List Char) :
    ofSymbol? (c :: cs) = none := by
  cases hs : ofSymbol? (c :: cs) with
  | none => rfl
  | some t => exact absurd (mem_symbolChars hs c List.mem_cons_self) h

theorem not_mem_symbolChars_of_isName {c : Char} (h : isName c = true) : c ∉ symbolChars := by
  intro hc
  rw [isName_eq_false_of_mem_symbolChars hc] at h
  exact Bool.noConfusion h

/-- What follows a symbol of one character without making it one of two. -/
theorem ofSymbol?_pair_eq_none {c d : Char} (heq : d ≠ '=') (hgt : d ≠ '>') :
    ofSymbol? [c, d] = none := by
  rw [ofSymbol?.eq_def]
  split
  · next h => cases h
  · next h => cases h
  · next h => cases h
  · rw [Comparison.ofSymbol?.eq_def]
    split <;> first | rfl | (next h => cases h; contradiction) | (next h => cases h)

theorem run_eq_nil {c : Char} (h : isWord c = false) (cs : List Char) : run (c :: cs) = [] := by
  rw [run, List.takeWhile_cons_of_neg (by simp [h])]

theorem isWord_eq_false {c : Char} (h : isName c = false) : isWord c = false := by
  simp only [isName, Bool.or_eq_false_iff] at h
  exact h.1

/-- What ends a name ends a run. -/
theorem run_takeWhile_isName (c : Char) (cs : List Char) :
    run (c :: cs.takeWhile isName) = run (c :: cs) := by
  have htail : (cs.takeWhile isName).takeWhile isWord = cs.takeWhile isWord := by
    rw [List.takeWhile_takeWhile]
    congr 1
    funext d
    cases hd : isWord d with
    | true => simp [isName_of_isWord hd]
    | false => simp
  rw [run, run, List.takeWhile_cons, List.takeWhile_cons, htail]

@[simp] theorem ofKeyword?_nil : ofKeyword? [] = none := by decide

theorem ne_quote_of_isName {c : Char} (h : isName c = true) : c ≠ '\'' := by
  rintro rfl
  exact absurd h (by decide)

/-- Changing the case of a letter makes no word character of any other. -/
theorem isWord_of_isWord_toUpper {c : Char} (h : isWord c.toUpper = true) : isWord c = true := by
  unfold Char.toUpper at h
  split at h
  · next hlower =>
    have hlt : c.toNat < 0x80 :=
      Nat.lt_of_le_of_lt (UInt32.le_iff_toNat_le.1 hlower.2) (by decide)
    have hletter : c.isLower = true := by
      unfold Char.isLower
      rw [Bool.and_eq_true, decide_eq_true_iff, decide_eq_true_iff]
      exact hlower
    have halpha : c.isAlphanum = true := by
      unfold Char.isAlphanum Char.isAlpha
      rw [hletter, Bool.or_true, Bool.true_or]
    rw [isWord_of_lt hlt, halpha, Bool.true_or]
  · exact h

/-! ## Symbols and keywords -/

/-- The tokens that are written with symbols. -/
theorem symbol_cases {cs : List Char} {t : Token} (h : ofSymbol? cs = some t) :
    t = openParen ∨ t = closeParen ∨ t = comma ∨ ∃ c, t = comparison c := by
  rw [ofSymbol?.eq_def] at h
  split at h
  · exact .inl (Option.some.inj h).symm
  · exact .inr (.inl (Option.some.inj h).symm)
  · exact .inr (.inr (.inl (Option.some.inj h).symm))
  · obtain ⟨c, -, rfl⟩ := Option.map_eq_some_iff.1 h
    exact .inr (.inr (.inr ⟨c, rfl⟩))

/-- The keywords, each after its spelling in capitals. -/
def keywordSpellings : List (List Char × Token) :=
  [(['A', 'N', 'D'], andKw), (['O', 'R'], orKw), (['I', 'N'], inKw),
    (['T', 'H', 'E', 'N'], thenKw)]

theorem mem_keywordSpellings {w : List Char} {t : Token} (h : ofKeyword? w = some t) :
    (w.map Char.toUpper, t) ∈ keywordSpellings := by
  simp only [ofKeyword?] at h
  split at h
  · next he => cases h; simp [keywordSpellings, he]
  split at h
  · next he => cases h; simp [keywordSpellings, he]
  split at h
  · next he => cases h; simp [keywordSpellings, he]
  split at h
  · next he => cases h; simp [keywordSpellings, he]
  · cases h

/-- A keyword is spelled with word characters. -/
theorem isWord_of_ofKeyword? {w : List Char} {t : Token} (h : ofKeyword? w = some t) :
    ∀ c ∈ w, isWord c = true := by
  have hletters : keywordSpellings.all (fun p => p.1.all isWord) = true := by decide
  have hupper := List.all_eq_true.1 hletters _ (mem_keywordSpellings h)
  intro c hc
  exact isWord_of_isWord_toUpper (List.all_eq_true.1 hupper _ (List.mem_map_of_mem hc))

/-! ## Tokens that have a text -/

/-- A text that scans as one word: a name that does not begin with a keyword. -/
inductive NameText : List Char → Prop where
  | mk {c : Char} {cs : List Char} :
      ofKeyword? (run (c :: cs)) = none → isName c = true ∨ (c = '@' ∧ cs ≠ []) →
      (∀ d ∈ cs, isName d = true) → NameText (c :: cs)

/-- Some text scans as the token. -/
def Scannable : Token → Prop
  | literal text => ∃ v, '\'' ∉ v ∧ text.toList = '\'' :: v ++ ['\'']
  | word text => NameText text.toList
  | _ => True

theorem scannable_of_ofSymbol? {cs : List Char} {t : Token} (h : ofSymbol? cs = some t) :
    t.Scannable := by
  obtain rfl | rfl | rfl | ⟨c, rfl⟩ := symbol_cases h
  all_goals trivial

theorem scannable_of_ofKeyword? {cs : List Char} {t : Token} (h : ofKeyword? cs = some t) :
    t.Scannable := by
  have hall : ∀ p ∈ keywordSpellings, p.2.Scannable := by simp [keywordSpellings, Scannable]
  exact hall _ (mem_keywordSpellings h)

/-! ## Tokens of lexemes -/

theorem ofLexeme_of_symbol {lexeme : List Char} {t : Token} (h : ofSymbol? lexeme = some t) :
    ofLexeme lexeme = t := by
  rw [ofLexeme, h]

theorem ofLexeme_quoted (cs : List Char) :
    ofLexeme ('\'' :: cs) = literal (.ofList ('\'' :: cs)) := by
  rw [ofLexeme, ofSymbol?_eq_none (by decide)]
  rfl

theorem ofLexeme_of_keyword {w : List Char} {t : Token} (h : ofKeyword? w = some t) :
    ofLexeme w = t := by
  have hword := isWord_of_ofKeyword? h
  cases w with
  | nil => cases ofKeyword?_nil ▸ h
  | cons c cs =>
    have hname := isName_of_isWord (hword c List.mem_cons_self)
    have hquote : (c :: cs).head? ≠ some '\'' :=
      fun he => ne_quote_of_isName hname (Option.some.inj he)
    rw [ofLexeme, ofSymbol?_eq_none (not_mem_symbolChars_of_isName hname)]
    simp only [if_neg hquote, h, Option.getD_some]

/-- Were the whole name a keyword, it would be its own first run. -/
theorem NameText.ofKeyword?_eq_none {w : List Char} (h : NameText w) : ofKeyword? w = none := by
  obtain @⟨c, cs, hkeyword, -, -⟩ := h
  cases hk : ofKeyword? (c :: cs) with
  | none => rfl
  | some t =>
    rw [run, List.takeWhile_eq_self_iff.2 (isWord_of_ofKeyword? hk), hk] at hkeyword
    cases hkeyword

/-- A name begins with neither a symbol nor a quote. -/
theorem NameText.head_cases {c : Char} {cs : List Char} (h : NameText (c :: cs)) :
    c ∉ symbolChars ∧ c ≠ '\'' := by
  obtain ⟨-, hc | ⟨rfl, -⟩, -⟩ := h
  · exact ⟨not_mem_symbolChars_of_isName hc, ne_quote_of_isName hc⟩
  · decide

/-- The characters of a name. -/
theorem NameText.isName_or_eq_at {w : List Char} (h : NameText w) :
    ∀ c ∈ w, isName c = true ∨ c = '@' := by
  obtain @⟨c, cs, -, hc, hcs⟩ := h
  exact List.forall_mem_cons.2 ⟨hc.imp_right And.left, fun d hd => .inl (hcs d hd)⟩

theorem NameText.not_mem {w : List Char} (h : NameText w) : '\'' ∉ w := by
  intro hmem
  rcases h.isName_or_eq_at _ hmem with hname | hat
  · exact ne_quote_of_isName hname rfl
  · exact absurd hat (by decide)

theorem ofLexeme_of_nameText {w : List Char} (h : NameText w) : ofLexeme w = word (.ofList w) := by
  have hkeyword := h.ofKeyword?_eq_none
  cases h with
  | @mk c cs hrun hc hcs =>
    obtain ⟨hsymbol, hquote⟩ := (NameText.mk hrun hc hcs).head_cases
    have hhead : (c :: cs).head? ≠ some '\'' := fun he => hquote (Option.some.inj he)
    rw [ofLexeme, ofSymbol?_eq_none hsymbol]
    simp only [if_neg hhead, hkeyword, Option.getD_none]

/-- The cases of the rule for lexemes. -/
theorem rule_cases {c : Char} {cs : List Char} {n : Nat} (h : rule c cs = some n) :
    (∃ d ds, cs = d :: ds ∧ (ofSymbol? [c, d]).isSome ∧ n = 1) ∨
    ((ofKeyword? (run (c :: cs))).isSome ∧ n = (run (c :: cs)).length - 1) ∨
    ((ofSymbol? [c]).isSome ∧ n = 0) ∨
    (c = '\'' ∧ quoted '\'' cs = some n) ∨
    (ofKeyword? (run (c :: cs)) = none ∧ (isName c = true ∨ (c = '@' ∧ cs.takeWhile isName ≠ [])) ∧
      n = (cs.takeWhile isName).length) := by
  simp only [rule, Option.orElse_eq_orElse, Option.orElse_eq_or, Option.or_eq_some_iff] at h
  rcases h with h | ⟨-, h | ⟨hk, h | ⟨-, h | ⟨-, h⟩⟩⟩⟩
  · left
    cases cs with
    | nil => cases h
    | cons d ds =>
      obtain ⟨t, ht, rfl⟩ := Option.map_eq_some_iff.1 h
      exact ⟨d, ds, rfl, Option.isSome_iff_exists.2 ⟨t, ht⟩, rfl⟩
  · right; left
    obtain ⟨t, ht, rfl⟩ := Option.map_eq_some_iff.1 h
    exact ⟨Option.isSome_iff_exists.2 ⟨t, ht⟩, rfl⟩
  · right; right; left
    obtain ⟨t, ht, rfl⟩ := Option.map_eq_some_iff.1 h
    exact ⟨Option.isSome_iff_exists.2 ⟨t, ht⟩, rfl⟩
  · right; right; right; left
    have hc : c = '\'' := by
      by_contra hne
      rw [quoted_of_ne hne] at h
      cases h
    exact ⟨hc, hc ▸ h⟩
  · right; right; right; right
    simp only [name] at h
    split at h
    · next hn => exact ⟨Option.map_eq_none_iff.1 hk, hn, (Option.some.inj h).symm⟩
    · cases h

/-- A run that is not empty, from its first character and its length. -/
theorem cons_take_run {c : Char} {cs : List Char} (h : isWord c = true) :
    c :: cs.take ((run (c :: cs)).length - 1) = run (c :: cs) := by
  rw [run, List.takeWhile_cons_of_pos h, List.length_cons, Nat.add_sub_cancel]
  exact congrArg _ (List.prefix_iff_eq_take.1 (List.takeWhile_prefix _)).symm

/-- A run that spells a keyword is not empty. -/
theorem isWord_of_ofKeyword?_run {c : Char} {cs : List Char}
    (h : (ofKeyword? (run (c :: cs))).isSome) : isWord c = true := by
  by_contra hc
  rw [run_eq_nil (Bool.not_eq_true _ ▸ hc), ofKeyword?_nil] at h
  cases h

/-- What a lexeme looks like, and what can follow it. -/
theorem lexeme_cases {c : Char} {cs : List Char} {n : Nat} (h : rule c cs = some n) :
    (∃ t, ofSymbol? (c :: cs.take n) = some t) ∨
    (∃ v, '\'' ∉ v ∧ c :: cs.take n = '\'' :: (v ++ ['\''])) ∨
    ((∃ t, ofKeyword? (c :: cs.take n) = some t) ∨ NameText (c :: cs.take n)) ∧
      ∀ d, (cs.drop n).head? = some d → isWord d = false := by
  rcases rule_cases h with ⟨d, ds, rfl, hs, rfl⟩ | ⟨hk, rfl⟩ | ⟨hs, rfl⟩ | ⟨rfl, hq⟩ | ⟨hk, hc, rfl⟩
  · exact .inl (Option.isSome_iff_exists.1 hs)
  · -- a keyword is the whole run
    have hword := isWord_of_ofKeyword?_run hk
    refine .inr (.inr ⟨.inl ?_, fun d hd => ?_⟩)
    · rw [cons_take_run hword]
      exact Option.isSome_iff_exists.1 hk
    · rw [run, List.takeWhile_cons_of_pos hword, List.length_cons, Nat.add_sub_cancel] at hd
      exact head?_drop_takeWhile hd
  · exact .inl (Option.isSome_iff_exists.1 hs)
  · obtain ⟨v, w, hv, rfl, rfl⟩ := quoted_eq_some_iff.1 hq
    refine .inr (.inl ⟨v, hv, ?_⟩)
    rw [List.take_append, List.take_of_length_le (Nat.le_succ _), Nat.add_sub_cancel_left]
    rfl
  · have htake : cs.take (cs.takeWhile isName).length = cs.takeWhile isName :=
      (List.prefix_iff_eq_take.1 (List.takeWhile_prefix _)).symm
    refine .inr (.inr ⟨.inr ?_, fun d hd => isWord_eq_false (head?_drop_takeWhile hd)⟩)
    rw [htake]
    refine .mk ?_ hc fun d hd => List.mem_takeWhile_imp hd
    rwa [run_takeWhile_isName]

/-- Scanning brings forth no token but those that have a text. -/
theorem scannable_of_rule {c : Char} {cs : List Char} {n : Nat} (h : rule c cs = some n) :
    (ofLexeme (c :: cs.take n)).Scannable := by
  rcases lexeme_cases h with ⟨t, hs⟩ | ⟨v, hv, hquoted⟩ | ⟨⟨t, hk⟩ | hname, -⟩
  · rw [ofLexeme_of_symbol hs]
    exact scannable_of_ofSymbol? hs
  · rw [hquoted, ofLexeme_quoted]
    exact ⟨v, hv, by simp⟩
  · rw [ofLexeme_of_keyword hk]
    exact scannable_of_ofKeyword? hk
  · rw [ofLexeme_of_nameText hname]
    simpa [Scannable] using hname

end DecisionTable.Token
