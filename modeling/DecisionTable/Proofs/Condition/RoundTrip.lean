import DecisionTable.Proofs.Condition.Completeness
import DecisionTable.Proofs.Condition.Printing
import DecisionTable.Proofs.Condition.Provenance
import DecisionTable.Proofs.Condition.Soundness

/-!
# A condition can be written and read again

The text of a clause that was read scans as tokens that are the clause again
(`Clause.Scanned.prints`). So the text of a condition that was read scans as the tokens of a
tree in normal form, with its groups nested no deeper than they were, and is read as that tree
(`Expression.read_text`).
-/

namespace DecisionTable

open Token Grammar

/-- The text scans as the tokens, if what follows it stands apart. -/
def Prints (s : String) (ts : List Token) : Prop :=
  ∀ rest, StartsApart rest → ofChars (s.toList ++ rest) = ts ++ ofChars rest

namespace Expression

/-! ## Values -/

@[simp] theorem toList_quotedText (v : String) :
    (quotedText v).toList = '\'' :: (v.toList ++ ['\'']) := by
  simp [quotedText]

@[simp] theorem value_literalOf (v : String) : (literalOf v).value = v := by
  rw [literalOf, value, toList_quotedText, ← List.cons_append, unquote_quoted,
    String.ofList_toList]

theorem isRun_literalOf (v : String) : IsRun [literalOf v] := isRun_of_isValue rfl

theorem ofChars_quotedText_append {v : String} (hv : '\'' ∉ v.toList) (rest : List Char) :
    ofChars ((quotedText v).toList ++ rest) = literalOf v :: ofChars rest := by
  have hscan := ofChars_literal hv rest
  have htext : String.ofList ('\'' :: v.toList ++ ['\'']) = quotedText v := by
    rw [← String.toList_inj, String.toList_ofList, toList_quotedText, List.cons_append]
  rw [htext] at hscan
  rw [toList_quotedText, literalOf, ← hscan]
  simp

/-- The entries of a list as tokens. -/
theorem entries_entryTokens (values : List String) : Entries (entryTokens values) values := by
  induction values with
  | nil => exact .nil
  | cons v values ih =>
    cases values with
    | nil => simpa [entryTokens] using Entries.last (t := literalOf v) rfl
    | cons w values => simpa [entryTokens] using Entries.cons (t := literalOf v) rfl ih

theorem ofChars_entries_append {values : List String} (h : ∀ v ∈ values, '\'' ∉ v.toList)
    (rest : List Char) :
    ofChars ((", ".intercalate (values.map quotedText)).toList ++ rest) =
      entryTokens values ++ ofChars rest := by
  induction values with
  | nil => rfl
  | cons v values ih =>
    have hv := h v List.mem_cons_self
    have hvs := ih fun w hw => h w (List.mem_cons_of_mem _ hw)
    cases values with
    | nil =>
      rw [List.map_singleton, String.intercalate_singleton]
      exact ofChars_quotedText_append hv rest
    | cons w values =>
      have htext : (", ".intercalate ((v :: w :: values).map quotedText)).toList ++ rest =
          (quotedText v).toList ++
            ',' :: ' ' :: ((", ".intercalate ((w :: values).map quotedText)).toList ++ rest) := by
        simp [String.intercalate_cons_cons]
      rw [htext, ofChars_quotedText_append hv, ofChars_comma, ofChars_space, hvs]
      rfl

/-! ## Clauses -/

theorem ofChars_columnText_append {name : String} (h : NameText name.toList) {rest : List Char}
    (hrest : StartsApart rest) :
    ofChars ((columnText (columnOf name)).toList ++ rest) =
      .word (columnText (columnOf name)) :: ofChars rest :=
  ofChars_text_append (t := .word _) (nameText_columnText h) hrest

theorem on_columnText (name : String) (operator : Operator) (values : List String) :
    Clause.on (columnText (columnOf name)) operator values = .on name operator values := by
  rw [Clause.on, columnOf_columnText, Clause.on]

/-- An equation with a value in quotes. -/
theorem prints_equation {name v : String} (h : NameText name.toList) (hv : '\'' ∉ v.toList) :
    Prints (columnText (columnOf name) ++ " = " ++ quotedText v)
      [.word (columnText (columnOf name)), .comparison .equal, literalOf v] := by
  intro rest hrest
  have htext : (columnText (columnOf name) ++ " = " ++ quotedText v).toList ++ rest =
      (columnText (columnOf name)).toList ++
        ' ' :: '=' :: ' ' :: ((quotedText v).toList ++ rest) := by simp
  rw [htext, ofChars_columnText_append h (startsApart_space _), ofChars_space,
    ofChars_oneChar (t := .comparison .equal) rfl (twoCharSymbol_of_apart (startsApart_space _) _),
    ofChars_space, ofChars_quotedText_append hv]
  rfl

theorem factor_quoted (n : Nat) (name v : String) :
    Factor n [.word (columnText (columnOf name)), .comparison .equal, literalOf v]
      (.clause (.on name .equal [v])) := by
  have hfactor := @Factor.equation n (columnText (columnOf name)) _ (isRun_literalOf v)
  rwa [on_columnText, value_literalOf] at hfactor

/-- A comparison with the text of a run. -/
theorem prints_comparison {name : String} {c : Comparison} {ts : List Token}
    (h : NameText name.toList) (hts : ∀ t ∈ ts, t.Scannable) :
    Prints (columnText (columnOf name) ++ (" " ++ (c.symbol ++ " " ++ Token.join ts)))
      (.word (columnText (columnOf name)) :: .comparison c :: ts) := by
  intro rest hrest
  have htext : (columnText (columnOf name) ++ (" " ++ (c.symbol ++ " " ++ Token.join ts))).toList
      ++ rest = (columnText (columnOf name)).toList ++
        ' ' :: ((Token.comparison c).text.toList ++ ' ' :: ((Token.join ts).toList ++ rest)) := by
    simp [Token.text]
  rw [htext, ofChars_columnText_append h (startsApart_space _), ofChars_space,
    ofChars_text_append (t := .comparison c) trivial (startsApart_space _), ofChars_space,
    ofChars_join_append hts hrest]
  rfl

/-- A list of values. -/
theorem prints_oneOf {name : String} {values : List String} (h : NameText name.toList)
    (hvalues : ∀ v ∈ values, '\'' ∉ v.toList) :
    Prints (columnText (columnOf name) ++ (" IN (" ++ ", ".intercalate (values.map quotedText)
        ++ ")"))
      (.word (columnText (columnOf name)) :: .inKw :: .openParen :: entryTokens values
        ++ [.closeParen]) := by
  intro rest hrest
  have htext : (columnText (columnOf name) ++ (" IN (" ++ ", ".intercalate (values.map quotedText)
        ++ ")")).toList ++ rest =
      (columnText (columnOf name)).toList ++ ' ' :: (Token.inKw.text.toList ++
        ' ' :: '(' :: ((", ".intercalate (values.map quotedText)).toList ++ ')' :: rest)) := by
    simp [Token.text]
  rw [htext, ofChars_columnText_append h (startsApart_space _), ofChars_space,
    ofChars_text_append (t := .inKw) trivial (startsApart_space _), ofChars_space,
    ofChars_openParen, ofChars_entries_append hvalues, ofChars_closeParen]
  simp

end Expression

open Expression

theorem clauseText_quoted (name : String) {v : String} (hv : '\'' ∉ v.toList) :
    clauseText (.on name .equal [v]) = columnText (columnOf name) ++ " = " ++ quotedText v := by
  simp [clauseText, valueText, hv, String.append_assoc]

/-- The text of a clause that was read scans as tokens that are the clause. -/
theorem Clause.Scanned.prints {c : Clause} (h : c.Scanned) :
    ∃ ts, Prints (clauseText c) ts ∧ ∀ n, Factor n ts (.clause c) := by
  cases h with
  | @oneOf name values hname hvalues =>
    have htext : clauseText (.on name .oneOf values) =
        columnText (columnOf name) ++ (" IN (" ++ ", ".intercalate (values.map quotedText)
          ++ ")") := by
      simp [clauseText]
    rw [htext]
    refine ⟨_, prints_oneOf hname hvalues, fun n => ?_⟩
    rw [← on_columnText]
    exact .oneOf (entries_entryTokens values)
  | @equation name v hname hv =>
    rw [clauseText_quoted name hv]
    exact ⟨_, prints_equation hname hv, fun n => factor_quoted n name v⟩
  | @joined name ts hname hrun hlen hts =>
    by_cases hv : '\'' ∈ (Token.join ts).toList
    · -- the value has quotes of its own, so it stands as the run that it came from
      have htext : clauseText (.on name .equal [Token.join ts]) =
          columnText (columnOf name) ++
            (" " ++ (Comparison.equal.symbol ++ " " ++ Token.join ts)) := by
        rw [← String.toList_inj]
        simp [clauseText, valueText, hv, Comparison.symbol]
      rw [htext]
      refine ⟨_, prints_comparison hname hts, fun n => ?_⟩
      rw [← on_columnText]
      exact .joined hrun hlen
    · rw [clauseText_quoted name hv]
      exact ⟨_, prints_equation hname hv, fun n => factor_quoted n name _⟩
  | @tagged name cmp ts hname hcmp hrun hts =>
    have htext : clauseText (.on name (.tagged cmp) [cmp.symbol ++ " " ++ Token.join ts]) =
        columnText (columnOf name) ++ (" " ++ (cmp.symbol ++ " " ++ Token.join ts)) := by
      simp [clauseText]
    rw [htext]
    refine ⟨_, prints_comparison hname hts, fun n => ?_⟩
    rw [← on_columnText]
    exact .tagged hcmp hrun

/-! ## Conditions -/

theorem Prints.scan_eq {s : String} {ts : List Token} (h : Prints s ts) : Token.scan s = ts := by
  have hscan := h [] startsApart_nil
  rwa [List.append_nil, ofChars_nil, List.append_nil] at hscan

/-- The tokens of a clause that was read are those of its text. -/
theorem Clause.Scanned.prints_scan {c : Clause} (h : c.Scanned) :
    Prints (clauseText c) (Token.scan (clauseText c)) := by
  obtain ⟨ts, hts, -⟩ := h.prints
  rwa [hts.scan_eq]

theorem Clause.Scanned.factor_scan {c : Clause} (h : c.Scanned) (n : Nat) :
    Factor n (Token.scan (clauseText c)) (.clause c) := by
  obtain ⟨ts, hts, hfactor⟩ := h.prints
  rw [hts.scan_eq]
  exact hfactor n

theorem prints_empty : Prints "" [] := fun _ _ => rfl

theorem Prints.append {s u : String} {ts us : List Token} (hs : Prints s ts) (hu : Prints u us)
    (hapart : ∀ rest, StartsApart rest → StartsApart (u.toList ++ rest)) :
    Prints (s ++ u) (ts ++ us) := by
  intro rest hrest
  rw [String.toList_append, List.append_assoc, hs _ (hapart rest hrest), hu rest hrest,
    List.append_assoc]

theorem Prints.grouped {s : String} {ts : List Token} (h : Prints s ts) (group : Bool) :
    Prints (groupedText group s) (Expression.grouped group ts) := by
  cases group with
  | false => exact h
  | true =>
    intro rest _
    have htext : (groupedText true s).toList ++ rest = '(' :: (s.toList ++ ')' :: rest) := by
      simp [groupedText]
    have hparen : StartsApart (')' :: rest) := startsApart_cons (by decide) rest
    rw [htext, ofChars_openParen, h _ hparen, ofChars_closeParen]
    simp [Expression.grouped]

/-- A keyword with spaces around it. -/
theorem prints_keyword (keyword : Token) (h : keyword.Scannable) {s : String} {ts : List Token}
    (hs : Prints s ts) : Prints (" " ++ keyword.text ++ " " ++ s) (keyword :: ts) := by
  intro rest hrest
  have htext : (" " ++ keyword.text ++ " " ++ s).toList ++ rest =
      ' ' :: (keyword.text.toList ++ ' ' :: (s.toList ++ rest)) := by simp
  rw [htext, ofChars_space, ofChars_text_append h (startsApart_space _), ofChars_space,
    hs rest hrest]
  rfl

namespace Expression

/-- Further terms begin with a space or are none. -/
theorem startsApart_textIn (keyword : Token) (group : Expression → Bool) (ts : List Expression)
    {rest : List Char} (h : StartsApart rest) :
    StartsApart ((textIn keyword group ts).toList ++ rest) := by
  cases ts with
  | nil => exact h
  | cons t ts =>
    rw [textIn]
    simpa using startsApart_space _

variable {leaf : Clause → List Token} {keyword : Token} {group : Expression → Bool}
  {t : Expression} {ts : List Expression}

theorem prints_textIn (hkeyword : keyword.Scannable)
    (h : ∀ t ∈ ts, Prints (text t) (tokensBy leaf t)) :
    Prints (textIn keyword group ts) (tokensIn leaf keyword group ts) := by
  induction ts with
  | nil =>
    rw [textIn, tokensIn]
    exact prints_empty
  | cons t ts ih =>
    have ht := (h t List.mem_cons_self).grouped (group t)
    have hts := ih fun u hu => h u (List.mem_cons_of_mem _ hu)
    rw [textIn, tokensIn]
    exact (prints_keyword keyword hkeyword ht).append hts fun _ =>
      startsApart_textIn keyword group ts

/-- The terms of a node, the first of them without a keyword. -/
theorem prints_terms (hkeyword : keyword.Scannable)
    (h : ∀ u ∈ t :: ts, Prints (text u) (tokensBy leaf u)) :
    Prints (groupedText (group t) (text t) ++ textIn keyword group ts)
      (Expression.grouped (group t) (tokensBy leaf t) ++ tokensIn leaf keyword group ts) := by
  obtain ⟨ht, hts⟩ := List.forall_mem_cons.1 h
  exact (ht.grouped _).append (prints_textIn hkeyword hts) fun _ =>
    startsApart_textIn keyword group ts

/-- If the text of every clause scans as its tokens, so does the text of the condition. -/
theorem prints_text {e : Expression}
    (h : ∀ c ∈ e.clauses, Prints (clauseText c) (leaf c)) : Prints (text e) (tokensBy leaf e) := by
  induction e with
  | clause c =>
    rw [text, tokensBy]
    exact h c (by simp)
  | all ts ih =>
    have hterms : ∀ t ∈ ts, Prints (text t) (tokensBy leaf t) := by
      intro t ht
      exact ih t ht fun c hc => h c (mem_clauses_all.2 ⟨t, ht, hc⟩)
    cases ts with
    | nil =>
      rw [text, tokensBy]
      exact prints_empty
    | cons t ts =>
      rw [text, tokensBy]
      exact prints_terms trivial hterms
  | any ts ih =>
    have hterms : ∀ t ∈ ts, Prints (text t) (tokensBy leaf t) := by
      intro t ht
      exact ih t ht fun c hc => h c (mem_clauses_any.2 ⟨t, ht, hc⟩)
    cases ts with
    | nil =>
      rw [text, tokensBy]
      exact prints_empty
    | cons t ts =>
      rw [text, tokensBy]
      exact prints_terms trivial hterms

/-- A condition that was read from a text is read again from the text it is written as. -/
theorem read_text {t : String} {e : Expression} (h : read t = .ok e) : read e.text = .ok e := by
  have hderives := Derives.of_ofTokens h
  have hclauses := hderives.scanned fun _ => scannable_of_mem_ofChars
  obtain ⟨hnormal, hnesting⟩ := hderives.isNormal
  -- the text scans as the tokens of the tree, every clause as the tokens of its own text
  have hscan := (prints_text fun c hc => (hclauses c hc).prints_scan).scan_eq
  have hspells : Spells (fun c => Token.scan (clauseText c)) e.clauses :=
    fun c hc n => (hclauses c hc).factor_scan n
  rw [read, hscan]
  exact (derived_tokensBy hspells hnormal hnesting).derives.ofTokens

/-- A column that looks like a keyword, one without a name, a value with quotes of its own, a
parameter, and a tag with a keyword in parentheses. -/
theorem read_text_nested :
    let t := "t.in = 007 AND (t. = 'x' 'y' OR @p >= (u OR v) AND c IN ('a', b,))"
    let e : Expression :=
      .all [.clause ⟨"in", .equal, ["7"]⟩,
        .any [.clause ⟨"", .equal, ["'x' 'y'"]⟩,
          .all [.clause ⟨"@p", .tagged .greaterEqual, [">= ( u OR v )"]⟩,
            .clause ⟨"c", .oneOf, ["a", "b"]⟩]]]
    read t = .ok e ∧ read e.text = .ok e := by
  intro t e
  have hscan : Token.scan t =
      [.word "t.in", .comparison .equal, .word "007", .andKw, .openParen, .word "t.",
        .comparison .equal, .literal "'x'", .literal "'y'", .orKw, .word "@p",
        .comparison .greaterEqual, .openParen, .word "u", .orKw, .word "v", .closeParen, .andKw,
        .word "c", .inKw, .openParen, .literal "'a'", .comma, .word "b", .comma, .closeParen,
        .closeParen] := by
    decide +kernel
  have hread : read t = .ok e := by
    rw [read, hscan]
    decide +kernel
  exact ⟨hread, read_text hread⟩

end Expression

end DecisionTable
