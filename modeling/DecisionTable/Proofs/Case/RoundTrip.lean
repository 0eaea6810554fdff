import DecisionTable.Case.Printer
import DecisionTable.Proofs.Case.Keywords
import DecisionTable.Proofs.Case.Shape
import DecisionTable.Proofs.Condition.Composition
import DecisionTable.Proofs.Text.Words

/-!
# Reading undoes writing blocks

A block that was written from the texts of its conditions, its outputs and a name for the output
is read as the block with those conditions, outputs and name (`Block.read_blockText`). The keywords
of the text are those that were written, whatever stands in the outputs; the text of a condition
is read between spaces as it is read alone.
-/

namespace DecisionTable.Case

open Text

/-! ## What can be written -/

/-- A text for the condition of a branch: no keyword of a block stands in it outside quotes, and
it leaves no quote open. -/
structure IsConditionText (text : String) (e : Expression) : Prop where
  read : Expression.read text = .ok e
  quotes : Even (text.toList.count '\'')
  keywords : (segments text.toList).2 = []

/-- An output that keeps its ends in quotes. -/
structure IsOutput (output : String) : Prop where
  quote : '\'' ∉ output.toList
  head : output.toList.head? ≠ some '"'
  last : output.toList.getLast? ≠ some '"'

/-- A name for the output of a block: letters, digits and underscores of ASCII, other than
`END`. -/
structure IsAlias (name : String) : Prop where
  nonempty : name ≠ ""
  chars : ∀ c ∈ name.toList, c.isAlphanum ∨ c = '_'
  notEnd : name.toList.map Char.toLower ≠ ['e', 'n', 'd']

/-! ## The texts of conditions and outputs -/

/-- Spaces around a condition do not change it. -/
theorem read_spaced {text : String} {e : Expression} (h : Expression.read text = .ok e) :
    Expression.read (.ofList (' ' :: (text.toList ++ [' ']))) = .ok e := by
  have hspace : QuotesApart [' '] text.toList := .inr (by decide)
  have hscan : Token.scan (.ofList (' ' :: (text.toList ++ [' ']))) = Token.scan text := by
    rw [Token.scan, String.toList_ofList, Token.ofChars_space,
      Token.ofChars_append (Token.startsApart_space []) hspace, Token.ofChars_space,
      Token.ofChars_nil, List.append_nil, Token.scan]
  rw [Expression.read, hscan]
  exact h

/-- An output in quotes, as it stands in a block. -/
def quotedChars (output : String) : List Char := '\'' :: (output.toList ++ ['\''])

theorem quiet_quotedChars {output : String} (h : IsOutput output) : Quiet (quotedChars output) :=
  quiet_literal h.quote

/-- The output is what stands between the quotes and the spaces around them. -/
theorem hasOutput_quotedChars {output : String} (h : IsOutput output) :
    HasOutput (' ' :: (quotedChars output ++ [' '])) output := by
  have hspace : ∀ c ∈ [' '], isBlank c = true := List.forall_mem_singleton.2 (by decide)
  have hquote : ∀ c ∈ ['\''], (decide (c = '\'') || decide (c = '"')) = true :=
    List.forall_mem_singleton.2 (by decide)
  have hmark : ∀ d ∈ output.toList, d ≠ '"' → (decide (d = '\'') || decide (d = '"')) = false := by
    intro d hd hne
    have hne' : d ≠ '\'' := fun he => h.quote (he ▸ hd)
    simp [hne, hne']
  refine ⟨quotedChars output, ⟨⟨[' '], [' '], rfl, hspace, hspace⟩, fun d hd => ?_, fun d hd => ?_⟩,
    ⟨⟨['\''], ['\''], rfl, hquote, hquote⟩, fun d hd => ?_, fun d hd => ?_⟩⟩
  · cases hd
    decide
  · rw [quotedChars, ← List.cons_append, List.getLast?_concat] at hd
    cases hd
    decide
  · exact hmark d (List.mem_of_mem_head? hd) fun he => h.head (he ▸ hd)
  · exact hmark d (List.mem_of_mem_getLast? hd) fun he => h.last (he ▸ hd)

/-! ## Names -/

section Names

variable {name : List Char}

/-- `AS` and a name, as they stand after a block. -/
def aliasChars (name : List Char) : List Char := ' ' :: 'A' :: 'S' :: ' ' :: name

/-- A name that follows `AS` is found. -/
theorem aliasOf?_aliasChars (hne : name ≠ []) (hname : ∀ c ∈ name, c.isAlphanum ∨ c = '_') :
    aliasOf? (aliasChars name) = some (.ofList name) := by
  have hspace : ∀ c ∈ [' '], isBlank c = true := List.forall_mem_singleton.2 (by decide)
  have hword : ∀ c ∈ (String.ofList name).toList, isWord c = true := by
    intro c hc
    rw [String.toList_ofList] at hc
    exact isWord_of_isAlphanum_or (hname c hc)
  have hgives : GivesName ([' '] ++ 'A' :: 'S' :: ([' '] ++ ((String.ofList name).toList ++ [])))
      (.ofList name) :=
    .as hspace (by decide) (.inl (by decide)) (List.cons_ne_nil _ _) hspace (by simpa using hne)
      hword nofun
  rw [String.toList_ofList, List.append_nil] at hgives
  exact hgives.aliasOf?_eq

/-- A name may be a keyword, but not the one that closes a block. -/
theorem ne_endKw_of_ofRun? {k : Keyword} (hname : ∀ c ∈ name, c.isAlphanum ∨ c = '_')
    (hend : name.map Char.toLower ≠ ['e', 'n', 'd']) (h : Keyword.ofRun? name = some k) :
    k ≠ .endKw := by
  have hfold : name.map foldCase = name.map Char.toLower := by
    refine List.map_congr_left fun c hc => if_neg ?_
    rintro rfl
    exact absurd (hname _ hc) (by decide)
  rw [Keyword.ofRun?, hfold] at h
  split at h
  · next hmem =>
    cases h
    simp only [Keyword.spellings, List.mem_cons, List.not_mem_nil, or_false] at hmem
    rcases hmem with hmem | hmem | hmem | hmem | hmem
    · rw [hmem]; decide
    · rw [hmem]; decide
    · rw [hmem]; decide
    · rw [hmem]; decide
    · exact absurd hmem hend
  · cases h

/-- No `END` stands in what follows the block. -/
theorem ne_endKw_of_mem_cut_aliasChars (hne : name ≠ [])
    (hname : ∀ c ∈ name, c.isAlphanum ∨ c = '_')
    (hend : name.map Char.toLower ≠ ['e', 'n', 'd']) :
    ∀ f ∈ (cut (aliasChars name)).2, f.1.1 ≠ .endKw := by
  have hlast : pieces rule name = [.lexeme name] := by
    have hrun : pieces rule (name ++ []) = .lexeme name :: pieces rule [] :=
      pieces_run hne (fun c hc => isWord_of_isAlphanum_or (hname c hc)) nofun
    rwa [List.append_nil, pieces_nil] at hrun
  have has : pieces rule ('A' :: 'S' :: ' ' :: name) =
      .lexeme ['A', 'S'] :: .gap ' ' :: pieces rule name := by
    have hword : ['A', 'S'].all isWord = true := by decide
    have hrun : pieces rule (['A', 'S'] ++ ' ' :: name) =
        .lexeme ['A', 'S'] :: pieces rule (' ' :: name) :=
      pieces_run (List.cons_ne_nil _ _) (List.all_eq_true.1 hword) (not_isWord_of_head_space name)
    rwa [pieces_space] at hrun
  have hcut : (cut (aliasChars name)).2 = (sections mark [.lexeme name]).2 := by
    rw [aliasChars, cut_space, cut, has, sections_cons_of_none (by decide),
      sections_cons_of_none rfl, hlast]
  intro f hf
  rw [hcut] at hf
  cases hmark : mark (.lexeme name) with
  | none =>
    rw [sections_cons_of_none hmark] at hf
    cases hf
  | some m =>
    rw [sections_cons_of_some hmark] at hf
    obtain rfl := List.mem_singleton.1 hf
    rw [mark, Option.map_eq_some_iff] at hmark
    obtain ⟨k, hk, rfl⟩ := hmark
    exact ne_endKw_of_ofRun? hname hend hk

end Names

/-! ## The segments of a written block -/

/-- The section of a keyword and a text after it. -/
def part (k : Keyword) (cs : List Char) : (Keyword × List Char) × List Piece :=
  ((k, k.word), pieces rule (' ' :: (cs ++ [' '])))

/-- The sections of a branch. -/
def branchParts (p : String × Branch) : List ((Keyword × List Char) × List Piece) :=
  [part .whenKw p.1.toList, part .thenKw (quotedChars p.2.output)]

/-- The section of the fallback. -/
def fallbackParts (fallback : Option String) : List ((Keyword × List Char) × List Piece) :=
  (fallback.map fun output => part .elseKw (quotedChars output)).toList

/-- The sections of the branches and of the fallback. -/
def bodyParts (branches : List (String × Branch)) (fallback : Option String) :
    List ((Keyword × List Char) × List Piece) :=
  branches.flatMap branchParts ++ fallbackParts fallback

/-- The segment of a keyword and a text after it. -/
def partAt (offset : Nat) (k : Keyword) (cs : List Char) : Segment :=
  ⟨k, k.word, offset, pieces rule (' ' :: (cs ++ [' ']))⟩

@[simp] theorem text_partAt (offset : Nat) (k : Keyword) (cs : List Char) :
    (partAt offset k cs).text = ' ' :: (cs ++ [' ']) :=
  flatMap_text_pieces rule _

variable {branches : List (String × Branch)} {fallback : Option String} {rest : List Char}

theorem cut_branchText {p : String × Branch} (hcondition : IsConditionText p.1 p.2.condition)
    (houtput : IsOutput p.2.output) (hrest : (cut rest).1 = []) :
    cut ((branchText (p.1, p.2.output)).toList ++ rest) = ([], branchParts p ++ (cut rest).2) := by
  have htext : (branchText (p.1, p.2.output)).toList ++ rest =
      Keyword.whenKw.word ++ ' ' :: (p.1.toList ++ ' ' ::
        (Keyword.thenKw.word ++ ' ' :: (quotedChars p.2.output ++ ' ' :: rest))) := by
    simp [branchText, outputText, quotedChars, Keyword.word]
  have hquiet : Quiet p.1.toList :=
    ⟨snd_segments_eq_nil_iff.1 hcondition.keywords, hcondition.quotes⟩
  have hthen := cut_keyword_append .thenKw (quiet_quotedChars houtput) hrest
  rw [htext, cut_keyword_append .whenKw hquiet (by rw [hthen]), hthen]
  rfl

theorem cut_branchTexts
    (h : ∀ p ∈ branches, IsConditionText p.1 p.2.condition ∧ IsOutput p.2.output)
    (hrest : (cut rest).1 = []) :
    cut ((String.join (branches.map fun p => branchText (p.1, p.2.output))).toList ++ rest) =
      ([], branches.flatMap branchParts ++ (cut rest).2) := by
  induction branches with
  | nil => exact Prod.ext hrest rfl
  | cons p branches ih =>
    obtain ⟨⟨hcondition, houtput⟩, hbranches⟩ := List.forall_mem_cons.1 h
    have hrest' := ih hbranches
    have htext : (String.join
        ((p :: branches).map fun p => branchText (p.1, p.2.output))).toList ++ rest =
        (branchText (p.1, p.2.output)).toList ++
          ((String.join (branches.map fun p => branchText (p.1, p.2.output))).toList ++ rest) := by
      simp [String.toList_join]
    rw [htext, cut_branchText hcondition houtput (by rw [hrest']), hrest', List.flatMap_cons,
      List.append_assoc]

theorem cut_fallbackText (h : ∀ output ∈ fallback, IsOutput output) (hrest : (cut rest).1 = []) :
    cut ((fallbackText fallback).toList ++ rest) =
      ([], fallbackParts fallback ++ (cut rest).2) := by
  cases fallback with
  | none => exact Prod.ext hrest rfl
  | some output =>
    have htext : (fallbackText (some output)).toList ++ rest =
        Keyword.elseKw.word ++ ' ' :: (quotedChars output ++ ' ' :: rest) := by
      simp [fallbackText, outputText, quotedChars, Keyword.word]
    have helse := cut_keyword_append .elseKw (quiet_quotedChars (h output rfl)) hrest
    rw [htext, helse]
    rfl

/-- A written block: `CASE`, its parts, `END` and what follows. -/
theorem toList_blockText (branches : List (String × Branch)) (fallback : Option String)
    (name : String) :
    (blockText (branches.map fun p => (p.1, p.2.output)) fallback name).toList =
      Keyword.caseKw.word ++ ' ' ::
        ((String.join (branches.map fun p => branchText (p.1, p.2.output))).toList ++
          ((fallbackText fallback).toList ++
            (Keyword.endKw.word ++ aliasChars name.toList))) := by
  simp [blockText, Keyword.word, aliasChars, Function.comp_def]

/-- A written block has nothing around it. -/
theorem trim_blockText {name : String} (hname : IsAlias name) :
    let text := blockText (branches.map fun p => (p.1, p.2.output)) fallback name
    trim text.toList = text.toList := by
  intro text
  have hne : name.toList ≠ [] := by simpa using hname.nonempty
  refine strip_eq_self (fun d hd => ?_) fun d hd => ?_
  · rw [toList_blockText] at hd
    cases hd
    decide
  · have hsplit : text.toList =
        ("CASE " ++ String.join ((branches.map fun p => (p.1, p.2.output)).map branchText) ++
          fallbackText fallback ++ "END AS ").toList ++ name.toList := String.toList_append
    rw [hsplit, List.getLast?_append_of_ne_nil _ hne] at hd
    exact isBlank_of_isWord (isWord_of_isAlphanum_or (hname.chars d (List.mem_of_mem_getLast? hd)))

/-- The sections of a written block: `CASE`, those of its parts, `END`, and any keyword that is
the name of its output. -/
theorem cut_blockText
    (hbranches : ∀ p ∈ branches, IsConditionText p.1 p.2.condition ∧ IsOutput p.2.output)
    (hfallback : ∀ output ∈ fallback, IsOutput output) (name : String) :
    cut (blockText (branches.map fun p => (p.1, p.2.output)) fallback name).toList =
      ([], ((.caseKw, Keyword.caseKw.word), [.gap ' ']) :: (bodyParts branches fallback ++
        ((.endKw, Keyword.endKw.word), (cut (aliasChars name.toList)).1) ::
          (cut (aliasChars name.toList)).2)) := by
  have hend : cut (Keyword.endKw.word ++ aliasChars name.toList) =
      ([], ((.endKw, Keyword.endKw.word), (cut (aliasChars name.toList)).1) ::
        (cut (aliasChars name.toList)).2) := cut_keyword .endKw _
  have hfallbackCut := cut_fallbackText hfallback (congrArg Prod.fst hend)
  have hbranchesCut := cut_branchTexts hbranches (congrArg Prod.fst hfallbackCut)
  rw [toList_blockText, cut_keyword, cut_space, hbranchesCut, hfallbackCut, hend, bodyParts,
    List.append_assoc]

/-- The segments of a written block: `CASE`, those of its parts, the `END` that closes it, and
what follows. -/
theorem segments_blockText {name : String}
    (hbranches : ∀ p ∈ branches, IsConditionText p.1 p.2.condition ∧ IsOutput p.2.output)
    (hfallback : ∀ output ∈ fallback, IsOutput output) (hname : IsAlias name) :
    ∃ offset closing after,
      segments (blockText (branches.map fun p => (p.1, p.2.output)) fallback name).toList =
        ([], ⟨.caseKw, Keyword.caseKw.word, 0, [.gap ' ']⟩ ::
          (locate offset (bodyParts branches fallback) ++ closing :: after)) ∧
      closing.keyword = .endKw ∧ (∀ s ∈ after, s.keyword ≠ .endKw) ∧
        closing.text ++ after.flatMap Segment.chars = aliasChars name.toList := by
  rcases hcutName : cut (aliasChars name.toList) with ⟨front, found⟩
  have hsegments : ∃ offset,
      segments (blockText (branches.map fun p => (p.1, p.2.output)) fallback name).toList =
        ([], ⟨.caseKw, Keyword.caseKw.word, 0, [.gap ' ']⟩ :: locate offset
          (bodyParts branches fallback ++ ((.endKw, Keyword.endKw.word), front) :: found)) := by
    rw [segments_eq, cut_blockText hbranches hfallback name, hcutName]
    exact ⟨_, rfl⟩
  obtain ⟨offset, hsegments⟩ := hsegments
  obtain ⟨later, hlocate⟩ := locate_append offset (bodyParts branches fallback)
    (((.endKw, Keyword.endKw.word), front) :: found)
  rw [hlocate] at hsegments
  refine ⟨offset, _, _, hsegments, rfl, fun s hs => ?_, ?_⟩
  · have hfound := unplaced_mem_of_mem_locate hs
    exact ne_endKw_of_mem_cut_aliasChars (by simpa using hname.nonempty) hname.chars hname.notEnd
      s.unplaced (by rwa [hcutName])
  · have hall := flatMap_cut (aliasChars name.toList)
    rw [hcutName] at hall
    rw [flatMap_chars_locate]
    exact hall

theorem denotes_partAt {p : String × Branch} (hcondition : IsConditionText p.1 p.2.condition)
    (houtput : IsOutput p.2.output) (first second : Nat) :
    Denotes (partAt first .whenKw p.1.toList, partAt second .thenKw (quotedChars p.2.output))
      p.2 := by
  constructor
  · rw [text_partAt]
    exact read_spaced hcondition.read
  · rw [text_partAt]
    exact hasOutput_quotedChars houtput

/-- The branches and the fallback of a written block are read as they were. -/
theorem readBranches_locate
    (hbranches : ∀ p ∈ branches, IsConditionText p.1 p.2.condition ∧ IsOutput p.2.output)
    (hfallback : ∀ output ∈ fallback, IsOutput output) (offset : Nat) :
    readBranches (locate offset (bodyParts branches fallback)) =
      .ok (branches.map Prod.snd, fallback) := by
  induction branches generalizing offset with
  | nil =>
    cases fallback with
    | none => rfl
    | some output =>
      have hlocate : locate offset (bodyParts [] (some output)) =
          [partAt offset .elseKw (quotedChars output)] := rfl
      rw [hlocate, readBranches_fallback rfl, text_partAt,
        outputOf_eq_iff.2 (hasOutput_quotedChars (hfallback output rfl))]
      rfl
  | cons p branches ih =>
    obtain ⟨⟨hcondition, houtput⟩, hbranches⟩ := List.forall_mem_cons.1 hbranches
    exact (readBranches_pair_eq_ok_iff rfl rfl).2
      ⟨p.2, _, denotes_partAt hcondition houtput _ _, ih hbranches _, rfl⟩

theorem isOutermost_of_mem_locate {offset : Nat} :
    ∀ s ∈ locate offset (bodyParts branches fallback), isOutermost s.keyword = false := by
  intro s hs
  change isOutermost s.unplaced.1.1 = false
  rcases List.mem_append.1 (unplaced_mem_of_mem_locate hs) with hf | hf
  · obtain ⟨p, -, hf⟩ := List.mem_flatMap.1 hf
    rcases List.mem_pair.1 hf with hf | hf <;> rw [hf] <;> rfl
  · rw [fallbackParts, Option.mem_toList, Option.map_eq_some_iff] at hf
    obtain ⟨output, -, hf⟩ := hf
    rw [← hf]
    rfl

/-! ## The law -/

/-- A block is read from the text that it was written as: branch by branch, with its fallback,
and with the name of its output. -/
theorem Block.read_blockText {name : String}
    (hbranches : ∀ p ∈ branches, IsConditionText p.1 p.2.condition ∧ IsOutput p.2.output)
    (hfallback : ∀ output ∈ fallback, IsOutput output) (hname : IsAlias name) :
    Block.read (blockText (branches.map fun p => (p.1, p.2.output)) fallback name) =
      .ok ⟨branches.map Prod.snd, fallback, name⟩ := by
  obtain ⟨offset, closing, after, hsegments, hclosing, hafter, htail⟩ :=
    segments_blockText hbranches hfallback hname
  have hblank : ∀ c ∈ [' '], isBlank c = true := List.forall_mem_singleton.2 (by decide)
  have hread : readAfterCase [' '] (locate offset (bodyParts branches fallback) ++
      closing :: after) = .ok ⟨branches.map Prod.snd, fallback, name⟩ := by
    rw [readAfterCase_append isOutermost_of_mem_locate hclosing hafter hblank,
      readBranches_locate hbranches hfallback, htail,
      aliasOf?_aliasChars (by simpa using hname.nonempty) hname.chars, String.ofList_toList]
    rfl
  rw [Block.read, trim_blockText hname, hsegments]
  exact hread

/-- Keywords stand in a literal, in the outputs and as the name of the output. -/
theorem Block.read_blockText_keywords :
    let first : Branch :=
      ⟨.all [.clause ⟨"a", .equal, ["when"]⟩, .clause ⟨"b", .oneOf, ["x", "y"]⟩], " THEN END \n"⟩
    let second : Branch := ⟨.clause ⟨"c", .tagged .greater, ["> 1"]⟩, "so \"said\" Else"⟩
    let branches := [("a = 'when' AND (t.b IN ('x', y))", first), ("c > 1", second)]
    (∀ p ∈ branches, IsConditionText p.1 p.2.condition ∧ IsOutput p.2.output) ∧
      (∀ output ∈ some " end ", IsOutput output) ∧ IsAlias "Then" ∧
      Block.read ("CASE WHEN a = 'when' AND (t.b IN ('x', y)) THEN ' THEN END \n' " ++
          "WHEN c > 1 THEN 'so \"said\" Else' ELSE ' end ' END AS Then") =
        .ok ⟨[first, second], some " end ", "Then"⟩ := by
  intro first second branches
  have hfirst : Expression.read "a = 'when' AND (t.b IN ('x', y))" = .ok first.condition := by
    have hscan : Token.scan "a = 'when' AND (t.b IN ('x', y))" =
        [.word "a", .comparison .equal, .literal "'when'", .andKw, .openParen, .word "t.b", .inKw,
          .openParen, .literal "'x'", .comma, .word "y", .closeParen, .closeParen] := by
      decide +kernel
    rw [Expression.read, hscan]
    decide +kernel
  have hsecond : Expression.read "c > 1" = .ok second.condition := by
    have hscan : Token.scan "c > 1" = [.word "c", .comparison .greater, .word "1"] := by
      decide +kernel
    rw [Expression.read, hscan]
    decide +kernel
  have hbranches : ∀ p ∈ branches, IsConditionText p.1 p.2.condition ∧ IsOutput p.2.output := by
    intro p hp
    rcases List.mem_pair.1 hp with rfl | rfl
    · exact ⟨⟨hfirst, by decide +kernel, by decide +kernel⟩, by decide, by decide, by decide⟩
    · exact ⟨⟨hsecond, by decide +kernel, by decide +kernel⟩, by decide, by decide, by decide⟩
  have hfallback : ∀ output ∈ some " end ", IsOutput output := by
    rintro output ⟨⟩
    exact ⟨by decide, by decide, by decide⟩
  have hletters : "Then".toList.all (fun c => c.isAlphanum || c = '_') = true := by decide +kernel
  have hchars : ∀ c ∈ "Then".toList, c.isAlphanum ∨ c = '_' := by
    simpa only [List.all_eq_true, Bool.or_eq_true, decide_eq_true_eq] using hletters
  have hname : IsAlias "Then" := ⟨by decide, hchars, by decide⟩
  refine ⟨hbranches, hfallback, hname, ?_⟩
  have htext : blockText (branches.map fun p => (p.1, p.2.output)) (some " end ") "Then" =
      "CASE WHEN a = 'when' AND (t.b IN ('x', y)) THEN ' THEN END \n' " ++
        "WHEN c > 1 THEN 'so \"said\" Else' ELSE ' end ' END AS Then" := by
    decide +kernel
  rw [← htext]
  exact Block.read_blockText hbranches hfallback hname

end DecisionTable.Case
