import DecisionTable.Expansion
import DecisionTable.Numeral.Integer
import DecisionTable.Proofs.Condition.Gaps
import DecisionTable.Proofs.Condition.RoundTrip
import DecisionTable.Proofs.Numeral.Digits
import DecisionTable.Proofs.Text.Words

/-!
# Integers in conditions

A minus sign starts no lexeme, so it is left out like any other character that starts none, and
what remains of an integer is a word of its digits (`WrittenInteger.prints`). The word stands for
the number that they denote, whatever its size. So integers that differ by more than their sign
stay different (`Expression.rows_integers`), and those that do not become one value
(`Expression.rows_integers_collapse`).
-/

namespace DecisionTable

open Token Grammar Numeral

namespace Token

/-! ## Words of digits -/

/-- A digit has no other case. -/
theorem toUpper_of_isDigit {c : Char} (h : c.isDigit = true) : c.toUpper = c := by
  unfold Char.toUpper
  refine dif_neg fun hlower => ?_
  have hle : c.toNat ≤ 57 := (Char.isDigit_iff_toNat.1 h).2
  have hge : 97 ≤ c.toNat := UInt32.le_iff_toNat_le.1 hlower.1
  omega

/-- No digit stands in a keyword. -/
theorem ofKeyword?_of_isDigit {c : Char} (h : c.isDigit = true) (cs : List Char) :
    ofKeyword? (c :: cs) = none := by
  cases hk : ofKeyword? (c :: cs) with
  | none => rfl
  | some t =>
    have hletters : keywordSpellings.all (fun p => p.1.all fun d => !d.isDigit) = true := by decide
    have hspelt := List.all_eq_true.1 hletters _ (mem_keywordSpellings hk)
    rw [List.map_cons, toUpper_of_isDigit h, List.all_cons, h] at hspelt
    cases hspelt

theorem nameText_of_isDigit {ds : List Char} (hne : ds ≠ []) (h : ∀ c ∈ ds, c.isDigit = true) :
    NameText ds := by
  cases ds with
  | nil => exact absurd rfl hne
  | cons d ds =>
    rw [List.forall_mem_cons] at h
    have hfirst := Text.isWord_of_isDigit h.1
    refine .mk ?_ (.inl (isName_of_isWord hfirst))
      fun c hc => isName_of_isWord (Text.isWord_of_isDigit (h.2 c hc))
    rw [Text.run, List.takeWhile_cons_of_pos hfirst]
    exact ofKeyword?_of_isDigit h.1 _

theorem skippable_minus (rest : List Char) : Skippable '-' rest where
  notWord := by decide
  notMark := by decide
  noSymbol := nofun
  noParameter := nofun
  noLiteral := nofun

end Token

/-! ## Integers -/

/-- Of an integer, scanning keeps the digits. -/
theorem Numeral.WrittenInteger.prints (i : WrittenInteger) :
    Prints i.text [.word (.ofList i.digits)] := by
  intro rest hrest
  have hdigits := ofChars_name (nameText_of_isDigit i.digits_ne_nil i.isDigit_of_mem) hrest
  rw [WrittenInteger.text, String.toList_ofList]
  split
  · rw [List.cons_append, ofChars_cons_of_none (rule_eq_none_iff.2 (skippable_minus _)), hdigits]
    rfl
  · exact hdigits

/-- The value that is kept of an integer is its absolute value. -/
theorem Numeral.WrittenInteger.value_word (i : WrittenInteger) :
    (Token.word (.ofList i.digits)).value = .ofList (Numeral.digits i.value.natAbs) := by
  rw [Token.value, canonical_ofList i.digits_ne_nil i.isDigit_of_mem, i.natAbs_value]

namespace Expression

variable (m n : WrittenInteger)

theorem scan_integers :
    Token.scan ("c IN (" ++ m.text ++ ", " ++ n.text ++ ")") =
      [.word "c", .inKw, .openParen, .word (.ofList m.digits), .comma, .word (.ofList n.digits),
        .closeParen] := by
  have htext : ("c IN (" ++ m.text ++ ", " ++ n.text ++ ")").toList =
      (Token.word "c").text.toList ++ ' ' :: (Token.inKw.text.toList ++
        ' ' :: '(' :: (m.text.toList ++ ',' :: ' ' :: (n.text.toList ++ [')']))) := by
    simp [Token.text]
  have hname : (Token.word "c").Scannable := .mk (by decide) (.inl (by decide)) (by simp)
  have hcomma := startsApart_cons (c := ',') (by decide)
  have hparen := startsApart_cons (c := ')') (by decide)
  rw [Token.scan, htext, ofChars_text_append hname (startsApart_space _), ofChars_space,
    ofChars_text_append (t := .inKw) trivial (startsApart_space _), ofChars_space,
    ofChars_openParen, m.prints _ (hcomma _), ofChars_comma, ofChars_space, n.prints _ (hparen _),
    ofChars_closeParen, ofChars_nil]
  rfl

theorem read_integers :
    read ("c IN (" ++ m.text ++ ", " ++ n.text ++ ")") =
      .ok (.clause ⟨"c", .oneOf,
        [.ofList (digits m.value.natAbs), .ofList (digits n.value.natAbs)]⟩) := by
  have hcolumn : columnOf "c" = "c" := by decide
  have hentries : Entries [.word (.ofList m.digits), .comma, .word (.ofList n.digits)]
      [(Token.word (.ofList m.digits)).value, (Token.word (.ofList n.digits)).value] :=
    .cons rfl (.last rfl)
  have hfactor := @Factor.oneOf maxDepth "c" _ _ hentries
  rw [m.value_word, n.value_word, Clause.on, hcolumn] at hfactor
  rw [read, scan_integers]
  exact (Derives.of_factor hfactor).ofTokens

/-- Whatever their size, their signs and the zeros before them, two integers in a list give two
rows, and the rows are equal just if the integers are but for their signs. -/
theorem rows_integers :
    ∃ e r s, read ("c IN (" ++ m.text ++ ", " ++ n.text ++ ")") = .ok e ∧ e.rows = [r, s] ∧
      (r = s ↔ m.value = n.value ∨ m.value = -n.value) := by
  refine ⟨_, _, _, read_integers m n, rows_clause _, ?_⟩
  rw [← Int.natAbs_eq_natAbs_iff, ← digits_inj, ← String.ofList_inj]
  constructor
  · intro h
    have hget := congrArg (OrderedMap.get? · "c") h
    simpa using hget
  · exact congrArg (OrderedMap.single "c")

/-- Two integers that differ can give equal rows: five and minus five. -/
theorem rows_integers_collapse :
    ¬ ∀ m n : WrittenInteger,
      ∃ e r s, read ("c IN (" ++ m.text ++ ", " ++ n.text ++ ")") = .ok e ∧ e.rows = [r, s] ∧
        (r = s ↔ m.value = n.value) := by
  intro h
  let five : WrittenInteger := ⟨false, ['5'], nofun, by simp⟩
  let minusFive : WrittenInteger := ⟨true, ['5'], nofun, by simp⟩
  obtain ⟨e, r, s, hread, hrows, hiff⟩ := h five minusFive
  rw [read_integers] at hread
  obtain rfl := Except.ok.inj hread
  rw [rows_clause] at hrows
  obtain ⟨rfl, hrest⟩ := List.cons.inj hrows
  obtain ⟨rfl, -⟩ := List.cons.inj hrest
  have hvalue : five.value = minusFive.value := hiff.1 rfl
  exact absurd hvalue (by decide)

end Expression

end DecisionTable
