import DecisionTable.Proofs.Case.Agreement
import DecisionTable.Proofs.Case.RoundTrip
import DecisionTable.Rule.Table

/-!
# Conditions as rules and as branches

Where can the text of a condition stand without being taken for something else? As a rule it must
not begin like a block; as the condition of a branch it must not be divided by keywords of its
own. A text that leaves no quote open is safe in both places if none of its tokens holds a
keyword of a block, and in a branch only then (`Block.read_branch_eq_ok_iff`). It is not enough
that no token is a keyword: a qualified name such as `t.end` is one word of a condition, and for
a block it ends with a keyword.
-/

namespace DecisionTable.Case

open Text

variable {c output : String} {e : Expression}

/-! ## A block of one branch -/

/-- A block of one branch. -/
def branchBlock (condition output : String) : String :=
  "CASE " ++ branchText (condition, output) ++ "END"

theorem toList_branchBlock (c output : String) :
    (branchBlock c output).toList = Keyword.caseKw.word ++
      ' ' :: ((branchText (c, output)).toList ++ Keyword.endKw.word) := by
  simp [branchBlock, Keyword.word]

theorem trim_branchBlock (c output : String) :
    trim (branchBlock c output).toList = (branchBlock c output).toList := by
  rw [toList_branchBlock]
  refine strip_eq_self (fun d hd => ?_) fun d hd => ?_
  · cases hd
    decide
  · rw [← List.cons_append, ← List.append_assoc,
      List.getLast?_append_of_ne_nil _ Keyword.endKw.word_ne_nil] at hd
    cases hd
    decide

/-- A condition of which no token holds a keyword can be the condition of a branch. -/
theorem isConditionText_of_keywordsIn (h : Expression.read c = .ok e)
    (hquotes : Even (c.toList.count '\'')) (hkeywords : ∀ t ∈ Token.scan c, keywordsIn t = []) :
    IsConditionText c e :=
  ⟨h, hquotes, snd_segments_eq_nil_iff_keywords.2 (keywords_eq_nil_iff.2 hkeywords)⟩

/-- A block of one branch is read as that branch. -/
theorem read_branchBlock (hcondition : IsConditionText c e) (houtput : IsOutput output) :
    Block.read (branchBlock c output) = .ok ⟨[⟨e, output⟩], none, defaultOutputColumn⟩ := by
  let p : String × Branch := (c, ⟨e, output⟩)
  have hbranches : ∀ q ∈ [p], IsConditionText q.1 q.2.condition ∧ IsOutput q.2.output :=
    List.forall_mem_singleton.2 ⟨hcondition, houtput⟩
  have hfallback : ∀ o ∈ (none : Option String), IsOutput o := nofun
  have hsegments : ∃ first last, segments (branchBlock c output).toList =
      ([], ⟨.caseKw, Keyword.caseKw.word, 0, [.gap ' ']⟩ ::
        (locate first (bodyParts [p] none) ++ [⟨.endKw, Keyword.endKw.word, last, []⟩])) := by
    have hend : cut Keyword.endKw.word = ([], [((.endKw, Keyword.endKw.word), [])]) := by decide
    have hcut := cut_branchText (p := p) hcondition houtput (congrArg Prod.fst hend)
    rw [segments_eq, toList_branchBlock, cut_keyword, cut_space, hcut, hend]
    exact ⟨_, _, rfl⟩
  obtain ⟨first, last, hsegments⟩ := hsegments
  let closing : Segment := ⟨.endKw, Keyword.endKw.word, last, []⟩
  have hclosing : closing.keyword = .endKw := rfl
  have hafter : ∀ s ∈ ([] : List Segment), s.keyword ≠ .endKw := nofun
  have hblank : ∀ c ∈ [' '], isBlank c = true := List.forall_mem_singleton.2 (by decide)
  have hname : aliasOf? (closing.text ++ [].flatMap Segment.chars) = none := rfl
  have hread : readAfterCase [' '] (locate first (bodyParts [p] none) ++ [closing]) =
      .ok ⟨[⟨e, output⟩], none, defaultOutputColumn⟩ := by
    rw [readAfterCase_append isOutermost_of_mem_locate hclosing hafter hblank,
      readBranches_locate hbranches hfallback, hname]
    rfl
  rw [Block.read, trim_branchBlock, hsegments]
  exact hread

/-! ## Its keywords -/

theorem keywords_append_space {cs rest : List Char} (hquotes : QuotesApart (' ' :: rest) cs) :
    keywords (cs ++ ' ' :: rest) = keywords cs ++ keywords rest := by
  rw [keywords, lexemes_append (not_isWord_of_head_space rest) hquotes,
    lexemes_cons_of_none (rule_of_not_isWord (by decide) (by decide) rest), List.filterMap_append]
  rfl

theorem keywords_keyword_append (k : Keyword) (rest : List Char) :
    keywords (k.word ++ ' ' :: rest) = k :: keywords rest := by
  have heven : Even (k.word.count '\'') := by cases k <;> decide
  rw [keywords_append_space (.inl heven), keywords, lexemes_run k.word_ne_nil k.isWord_of_mem_word,
    List.filterMap_cons_some k.ofRun?_word]
  rfl

theorem keywords_of_quiet {cs : List Char} (h : Quiet cs) : keywords cs = [] :=
  snd_segments_eq_nil_iff_keywords.1 (snd_segments_eq_nil_iff.2 h.keywords)

/-- The keywords of a block of one branch are those that were written and those of its
condition. -/
theorem keywords_branchBlock (hquotes : Even (c.toList.count '\'')) (houtput : IsOutput output) :
    keywords (branchBlock c output).toList =
      [.caseKw, .whenKw] ++ (keywords c.toList ++ [.thenKw, .endKw]) := by
  have htext : (branchBlock c output).toList = Keyword.caseKw.word ++
      ' ' :: (Keyword.whenKw.word ++ ' ' :: (c.toList ++ ' ' :: (Keyword.thenKw.word ++
        ' ' :: (quotedChars output ++ ' ' :: Keyword.endKw.word)))) := by
    simp [branchBlock, branchText, outputText, quotedChars, Keyword.word]
  have hend : keywords Keyword.endKw.word = [.endKw] := by decide
  have hquiet := quiet_quotedChars houtput
  rw [htext, keywords_keyword_append, keywords_keyword_append, keywords_append_space (.inl hquotes),
    keywords_keyword_append, keywords_append_space (.inl hquiet.quotes),
    keywords_of_quiet hquiet, hend]
  rfl

/-- A list that begins with its last two elements has nothing in front of them, if the second of
the two does not return. -/
theorem eq_nil_of_append_pair_eq {α : Type} {front back : List α} {x y : α}
    (h : front ++ [x, y] = x :: y :: back) (hy : y ∉ back) : front = [] := by
  rcases List.eq_nil_or_concat back with rfl | ⟨back, z, rfl⟩
  · have hlength := congrArg List.length h
    rw [List.length_append, Nat.add_eq_right] at hlength
    exact List.eq_nil_of_length_eq_zero hlength
  · have hlast : (front ++ [x]) ++ [y] = (x :: y :: back) ++ [z] := by
      simpa using h
    obtain ⟨-, hyz⟩ := List.append_inj' hlast rfl
    obtain rfl : y = z := (List.cons.inj hyz).1
    exact absurd (by simp) hy

/-- A block that is read with one branch has no other keywords, so none are in its condition. -/
theorem keywords_eq_nil_of_read {branch : Branch} {name : String}
    (hquotes : Even (c.toList.count '\'')) (houtput : IsOutput output)
    (h : Block.read (branchBlock c output) = .ok ⟨[branch], none, name⟩) :
    keywords c.toList = [] := by
  obtain ⟨o, hsegments, hshape, hnames⟩ := Block.exists_names h
  -- one branch and no fallback leave four keywords up to the `END` that closes the block
  obtain ⟨b, others, -, hothers, hb⟩ := List.forall₂_cons_right_iff.1 hnames.branches
  rw [List.forall₂_nil_right_iff.1 hothers] at hb
  have hfallback : o.fallback = none :=
    Option.map_eq_none_iff.1 (fallsBack_iff.1 hnames.fallback).symm
  obtain ⟨hw, ht⟩ := hshape.isBody.branch b (by rw [hb]; exact List.mem_cons_self)
  have hkeywords := congrArg (List.map Segment.keyword) hsegments
  rw [trim_branchBlock, map_keyword_segments, keywords_branchBlock hquotes houtput] at hkeywords
  simp only [Outline.segments, bodyOf, hb, hfallback, List.flatMap_cons, List.flatMap_nil,
    Option.toList_none, List.append_nil, List.cons_append, List.nil_append, List.map_cons,
    hshape.opening, hshape.closing, hw, ht, List.cons.injEq, true_and] at hkeywords
  -- the last of the keywords that were written is an `END` too, so it is that one
  refine eq_nil_of_append_pair_eq hkeywords fun hmem => ?_
  obtain ⟨s, hs, hend⟩ := List.mem_map.1 hmem
  exact hshape.after s hs hend

/-! ## Conditions by themselves -/

/-- A text without keywords does not begin like a block. -/
theorem isBlock_eq_false (h : keywords c.toList = []) : Block.isBlock c = false := by
  have hnone : (segments (trim c.toList)).2 = [] := by
    rw [snd_segments_eq_nil_iff_keywords, keywords, lexemes_trim]
    exact h
  rw [Block.isBlock]
  rcases hsegments : segments (trim c.toList) with ⟨front, found⟩
  rw [hsegments] at hnone
  obtain rfl : found = [] := hnone
  cases front <;> rfl

/-! ## Both -/

/-- Let a text be read as a condition and have its quotes in pairs. Between `WHEN` and `THEN` it is
read as that condition exactly if no token of it holds a keyword of a block. As a rule by itself
it is then no block but the bare condition. -/
theorem Block.read_branch_eq_ok_iff (h : Expression.read c = .ok e)
    (hquotes : Even (c.toList.count '\'')) :
    (read ("CASE WHEN " ++ c ++ " THEN 'x' END") =
        .ok ⟨[⟨e, "x"⟩], none, defaultOutputColumn⟩ ↔
      ∀ t ∈ Token.scan c, keywordsIn t = []) ∧
    ((∀ t ∈ Token.scan c, keywordsIn t = []) →
      isBlock c = false ∧ Table.ofRule c = .ok (.ofExpression e)) := by
  have houtput : IsOutput "x" := ⟨by decide, by decide, by decide⟩
  have htext : "CASE WHEN " ++ c ++ " THEN 'x' END" = branchBlock c "x" := by
    simp [← String.toList_inj, branchBlock, branchText, outputText]
  rw [htext]
  refine ⟨⟨fun hread => ?_, fun hkeywords => ?_⟩, fun hkeywords => ?_⟩
  · exact keywords_eq_nil_iff.1 (keywords_eq_nil_of_read hquotes houtput hread)
  · exact read_branchBlock (isConditionText_of_keywordsIn h hquotes hkeywords) houtput
  · have hblock : isBlock c = false := isBlock_eq_false (keywords_eq_nil_iff.2 hkeywords)
    refine ⟨hblock, ?_⟩
    rw [Table.ofRule, hblock, h]
    rfl

/-- Qualified names, with keywords in literals and at the front of a name. -/
theorem Block.read_branch_eq_ok_qualified :
    let c := "t.col IN ('case', x.ended) AND @p = 'END'"
    let e : Expression :=
      .all [.clause ⟨"col", .oneOf, ["case", "x.ended"]⟩, .clause ⟨"@p", .equal, ["END"]⟩]
    Expression.read c = .ok e ∧ c.toList.count '\'' = 4 ∧
      (∀ t ∈ Token.scan c, keywordsIn t = []) ∧
      read ("CASE WHEN " ++ c ++ " THEN 'x' END") =
        .ok ⟨[⟨e, "x"⟩], none, defaultOutputColumn⟩ ∧
      isBlock c = false ∧ Table.ofRule c = .ok (.ofExpression e) := by
  intro c e
  have hscan : Token.scan c =
      [.word "t.col", .inKw, .openParen, .literal "'case'", .comma, .word "x.ended", .closeParen,
        .andKw, .word "@p", .comparison .equal, .literal "'END'"] := by
    decide +kernel
  have hread : Expression.read c = .ok e := by
    rw [Expression.read, hscan]
    decide +kernel
  have hcount : c.toList.count '\'' = 4 := by decide +kernel
  have hnone : (Token.scan c).all (fun t => keywordsIn t = []) = true := by
    rw [hscan]
    decide +kernel
  have hkeywords : ∀ t ∈ Token.scan c, keywordsIn t = [] := by
    simpa only [List.all_eq_true, decide_eq_true_eq] using hnone
  have hboth := Block.read_branch_eq_ok_iff hread (hcount ▸ by decide)
  exact ⟨hread, hcount, hkeywords, hboth.1.2 hkeywords, hboth.2 hkeywords⟩

/-- A name need not be a keyword to hold one. With `t.end` in its condition a branch seems to end
there, and a condition that begins with `case.x` seems to be a block. -/
theorem Block.read_branch_of_keyword_in_name :
    let first := "t.end = 1"
    let second := "case.x = 1"
    (Expression.read first = .ok (.clause ⟨"end", .equal, ["1"]⟩) ∧
      Even (first.toList.count '\'') ∧
      (∀ name, .word name ∈ Token.scan first → Keyword.ofRun? name.toList = none) ∧
      read ("CASE WHEN " ++ first ++ " THEN 'x' END") = .error (.nested 12)) ∧
    Expression.read second = .ok (.clause ⟨"x", .equal, ["1"]⟩) ∧
      Even (second.toList.count '\'') ∧
      (∀ name, .word name ∈ Token.scan second → Keyword.ofRun? name.toList = none) ∧
      isBlock second = true ∧ Table.ofRule second = .error (.block .noEnd) := by
  intro first second
  have hfirst : Token.scan first = [.word "t.end", .comparison .equal, .word "1"] := by
    decide +kernel
  have hsecond : Token.scan second = [.word "case.x", .comparison .equal, .word "1"] := by
    decide +kernel
  have hwords (w name : String) (h : Token.word name ∈ [.word w, .comparison .equal, .word "1"]) :
      name = w ∨ name = "1" := by
    simpa using h
  have hblock : isBlock second = true := by decide +kernel
  have hread : read second = .error .noEnd := by decide +kernel
  refine ⟨⟨?_, by decide +kernel, fun name hname => ?_, by decide +kernel⟩, ?_, by decide +kernel,
    fun name hname => ?_, hblock, ?_⟩
  · rw [Expression.read, hfirst]
    decide +kernel
  · rw [hfirst] at hname
    rcases hwords _ _ hname with rfl | rfl <;> decide +kernel
  · rw [Expression.read, hsecond]
    decide +kernel
  · rw [hsecond] at hname
    rcases hwords _ _ hname with rfl | rfl <;> decide +kernel
  · rw [Table.ofRule, hblock, if_pos rfl, Table.ofBlock, hread]

end DecisionTable.Case
