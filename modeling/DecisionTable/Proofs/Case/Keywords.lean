import DecisionTable.Case.Keyword
import DecisionTable.Proofs.Text.Locality
import DecisionTable.Proofs.Text.Trimming
import DecisionTable.Proofs.Text.Words

/-!
# The keywords of a text made of parts

Where a text is made of keywords with quiet parts between them, each of them between spaces, its
keywords are those and no others (`cut_keyword_append`). A part is quiet if it has no keyword of
its own outside its quoted stretches and leaves no quote open.

Conversely, the text between two keywords is cut into the same pieces when it is taken by itself
(`pieces_text`), whatever stands around it.
-/

namespace DecisionTable.Case

open Text

variable {cs rest : List Char} {c : Char}

/-! ## The rule -/

theorem not_isWord_quote : isWord '\'' = false := by decide

theorem rule_of_isWord (h : isWord c = true) (cs : List Char) :
    rule c cs = some (run cs).length := by
  have hquote : c ≠ '\'' := by
    rintro rfl
    exact absurd h (by decide)
  simp [rule, wholeRun, quoted_of_ne hquote, h]

theorem rule_of_not_isWord (hquote : c ≠ '\'') (h : isWord c = false) (cs : List Char) :
    rule c cs = none := by
  simp [rule, wholeRun, quoted_of_ne hquote, h]

theorem rule_quote (cs : List Char) : rule '\'' cs = quoted '\'' cs := by
  simp [rule, wholeRun, not_isWord_quote]

/-- A keyword of a block is found apart from quotes, which only close quoted stretches. -/
theorem pairsQuotes_rule : rule.PairsQuotes where
  length_le := by
    intro c cs n h
    by_cases hquote : c = '\''
    · subst hquote
      rw [rule_quote] at h
      obtain ⟨v, w, -, rfl, rfl⟩ := quoted_eq_some_iff.1 h
      rw [List.length_append, List.length_cons]
      omega
    · cases hword : isWord c with
      | true =>
        rw [rule_of_isWord hword] at h
        cases h
        exact (List.takeWhile_prefix isWord).length_le
      | false =>
        rw [rule_of_not_isWord hquote hword] at h
        cases h
  quote_eq := rule_quote
  not_mem := by
    intro c cs n hquote h hmem
    cases hword : isWord c with
    | true =>
      rw [rule_of_isWord hword] at h
      cases h
      rw [run, ← List.prefix_iff_eq_take.1 (List.takeWhile_prefix isWord)] at hmem
      exact absurd (List.mem_takeWhile_imp hmem) (by decide)
    | false =>
      rw [rule_of_not_isWord hquote hword] at h
      cases h

/-! ## Pieces -/

theorem pieces_append (hrest : ∀ d, rest.head? = some d → isWord d = false)
    (hquotes : QuotesApart rest cs) :
    pieces rule (cs ++ rest) = pieces rule cs ++ pieces rule rest := by
  refine pairsQuotes_rule.pieces_append (fun c cs hc => ?_) hquotes
  simp only [rule, wholeRun, quoted_of_ne hc, run, takeWhile_append_of_head hrest]

theorem not_isWord_of_head_space (rest : List Char) :
    ∀ d, (' ' :: rest).head? = some d → isWord d = false := by
  intro d hd
  cases hd
  decide

theorem pieces_space (rest : List Char) :
    pieces rule (' ' :: rest) = .gap ' ' :: pieces rule rest :=
  pieces_cons_of_none (rule_of_not_isWord (by decide) (by decide) rest)

/-- A space ends whatever stands before it. -/
theorem pieces_append_space (hquotes : QuotesApart (' ' :: rest) cs) :
    pieces rule (cs ++ ' ' :: rest) = pieces rule cs ++ .gap ' ' :: pieces rule rest := by
  rw [pieces_append (not_isWord_of_head_space rest) hquotes, pieces_space]

/-- A run of word characters is one piece. -/
theorem pieces_run {word : List Char} (hne : word ≠ []) (hword : ∀ c ∈ word, isWord c = true)
    (hrest : ∀ d, rest.head? = some d → isWord d = false) :
    pieces rule (word ++ rest) = .lexeme word :: pieces rule rest := by
  cases word with
  | nil => exact absurd rfl hne
  | cons c cs =>
    obtain ⟨hc, hcs⟩ := List.forall_mem_cons.1 hword
    have hrun : run (cs ++ rest) = cs := takeWhile_append_of_all hcs hrest
    rw [List.cons_append, pieces_cons_of_some (rule_of_isWord hc _), hrun, List.take_left',
      List.drop_left'] <;> rfl

/-! ### Pieces of a part -/

/-- Where nothing starts in front of a longer text, nothing starts. -/
theorem rule_eq_none_of_append (h : rule c (cs ++ rest) = none) : rule c cs = none := by
  by_cases hquote : c = '\''
  · subst hquote
    rw [rule_quote, quoted_eq_none_iff, List.mem_append, not_or] at h
    rw [rule_quote, quoted_eq_none_iff]
    exact h.1
  · cases hword : isWord c with
    | true =>
      rw [rule_of_isWord hword] at h
      cases h
    | false => exact rule_of_not_isWord hquote hword cs

/-- What ends within the front of a text is found in the front alone. -/
theorem rule_eq_some_of_append {n : Nat} (h : rule c (cs ++ rest) = some n)
    (hn : n ≤ cs.length) : rule c cs = some n := by
  by_cases hquote : c = '\''
  · subst hquote
    rw [rule_quote, quoted_eq_some_iff] at h
    obtain ⟨v, w, hv, hsplit, rfl⟩ := h
    -- the stretch ends within the front, so its closing quote is there
    have hclosed : v ++ ['\''] <+: cs ++ rest := ⟨w, by rw [hsplit, List.append_assoc]; rfl⟩
    have hlength : (v ++ ['\'']).length ≤ cs.length := by simpa using hn
    obtain ⟨after, rfl⟩ := List.prefix_of_prefix_length_le hclosed (List.prefix_append cs rest)
      hlength
    rw [rule_quote, quoted_eq_some_iff]
    exact ⟨v, after, hv, by rw [List.append_assoc]; rfl, rfl⟩
  · cases hword : isWord c with
    | true =>
      rw [rule_of_isWord hword] at h ⊢
      rw [run, List.takeWhile_append] at h
      split at h
      · -- the run goes on to the end of the front, and the bound says no further
        next hall =>
        rw [Option.some_inj, List.length_append] at h
        rw [Option.some_inj, run, hall]
        omega
      · exact h
    | false =>
      rw [rule_of_not_isWord hquote hword] at h
      cases h

/-- Pieces at the front of a text are cut from the front alone. -/
theorem pieces_of_append {ps qs : List Piece}
    (h : pieces rule (ps.flatMap Piece.text ++ rest) = ps ++ qs) :
    pieces rule (ps.flatMap Piece.text) = ps := by
  induction ps with
  | nil => rfl
  | cons p ps ih =>
    have hne : p.text ≠ [] := text_ne_nil_of_mem_pieces (by rw [h]; exact List.mem_cons_self)
    obtain ⟨c, tail, htext⟩ := List.exists_cons_of_ne_nil hne
    rw [List.flatMap_cons, htext, List.cons_append] at h ⊢
    rw [List.cons_append, List.append_assoc] at h
    cases hr : rule c (tail ++ (ps.flatMap Piece.text ++ rest)) with
    | none =>
      rw [pieces_cons_of_none hr] at h
      obtain ⟨rfl, hps⟩ := List.cons.inj h
      obtain rfl : tail = [] := (List.cons.inj htext).2.symm
      rw [List.nil_append] at hr hps ⊢
      rw [pieces_cons_of_none (rule_eq_none_of_append hr), ih hps]
    | some n =>
      rw [pieces_cons_of_some hr] at h
      obtain ⟨rfl, hps⟩ := List.cons.inj h
      -- the lexeme is the text of the first piece, so it does not reach into what follows
      have htake : (tail ++ (ps.flatMap Piece.text ++ rest)).take n = tail :=
        (List.cons.inj htext).2
      have hlength := pairsQuotes_rule.length_le hr
      obtain rfl : n = tail.length := by
        rw [← congrArg List.length htake, List.length_take]
        omega
      rw [List.drop_left] at hps
      rw [← List.append_assoc] at hr
      have hfront : rule c (tail ++ ps.flatMap Piece.text) = some tail.length :=
        rule_eq_some_of_append hr (by simp)
      rw [pieces_cons_of_some hfront, List.take_left, List.drop_left, ih hps, htake]

/-! ### Words and literals -/

/-- A run of word characters by itself. -/
theorem lexemes_run {word : List Char} (hne : word ≠ []) (hword : ∀ c ∈ word, isWord c = true) :
    lexemes rule word = [word] := by
  have hpieces : pieces rule (word ++ []) = .lexeme word :: pieces rule [] :=
    pieces_run hne hword nofun
  rw [List.append_nil, pieces_nil] at hpieces
  rw [lexemes, hpieces]
  rfl

/-- A quoted stretch is one piece. -/
theorem pieces_literal {v : List Char} (hv : '\'' ∉ v) :
    pieces rule ('\'' :: (v ++ ['\''])) = [.lexeme ('\'' :: (v ++ ['\'']))] := by
  have hrule : rule '\'' (v ++ ['\'']) = some (v ++ ['\'']).length := by
    rw [rule_quote]
    exact quoted_eq_some_iff.2 ⟨v, [], hv, rfl, by simp⟩
  rw [pieces_cons_of_some hrule, List.take_length, List.drop_length, pieces_nil]

/-! ## Lexemes -/

theorem lexemes_append (hrest : ∀ d, rest.head? = some d → isWord d = false)
    (hquotes : QuotesApart rest cs) :
    lexemes rule (cs ++ rest) = lexemes rule cs ++ lexemes rule rest := by
  simp only [lexemes, pieces_append hrest hquotes, List.filterMap_append]

/-- Where there are neither words nor quotes, there is nothing to find. -/
theorem lexemes_append_of_plain (h : ∀ c ∈ cs, isWord c = false ∧ c ≠ '\'')
    (rest : List Char) : lexemes rule (cs ++ rest) = lexemes rule rest := by
  induction cs with
  | nil => rfl
  | cons c cs ih =>
    obtain ⟨⟨hword, hquote⟩, hcs⟩ := List.forall_mem_cons.1 h
    rw [List.cons_append, lexemes_cons_of_none (rule_of_not_isWord hquote hword _), ih hcs]

/-- A blank is neither a word character nor a quote. -/
theorem plain_of_isBlank (h : isBlank c = true) : isWord c = false ∧ c ≠ '\'' := by
  constructor
  · rw [← Bool.not_eq_true]
    intro hword
    rw [isBlank_of_isWord hword] at h
    cases h
  · rintro rfl
    exact absurd h (by decide)

/-- Blanks around a text make no difference. -/
theorem lexemes_trim (cs : List Char) : lexemes rule (trim cs) = lexemes rule cs := by
  obtain ⟨before, after, hcs, hbefore, hafter⟩ := exists_strip isBlank cs
  have hhead : ∀ d, after.head? = some d → isWord d = false := fun d hd =>
    (plain_of_isBlank (hafter d (List.mem_of_mem_head? hd))).1
  have hquote : '\'' ∉ after := fun hmem => (plain_of_isBlank (hafter _ hmem)).2 rfl
  have hnone : lexemes rule (after ++ []) = lexemes rule [] :=
    lexemes_append_of_plain (fun c hc => plain_of_isBlank (hafter c hc)) []
  rw [List.append_nil] at hnone
  conv => rhs; rw [hcs]
  rw [lexemes_append_of_plain (fun c hc => plain_of_isBlank (hbefore c hc)),
    lexemes_append hhead (.inr hquote), hnone, lexemes_nil, List.append_nil, trim]

/-- The keywords of a text, in order. -/
def keywords (cs : List Char) : List Keyword := (lexemes rule cs).filterMap Keyword.ofRun?

/-! ## Sections -/

/-- The pieces before the first keyword of a text, and each keyword with the pieces after it. -/
def cut (cs : List Char) : List Piece × List ((Keyword × List Char) × List Piece) :=
  sections mark (pieces rule cs)

theorem segments_eq (cs : List Char) :
    segments cs = ((cut cs).1, locate (byteSize ((cut cs).1.flatMap Piece.text)) (cut cs).2) := rfl

theorem snd_segments_eq_nil_iff : (segments cs).2 = [] ↔ (cut cs).2 = [] := by
  rw [segments_eq]
  cases (cut cs).2 <;> simp [locate]

/-- Sections are located one after the other. -/
theorem locate_append (offset : Nat) (found later : List ((Keyword × List Char) × List Piece)) :
    ∃ offset', locate offset (found ++ later) = locate offset found ++ locate offset' later := by
  induction found generalizing offset with
  | nil => exact ⟨offset, rfl⟩
  | cons f found ih =>
    obtain ⟨offset', h⟩ := ih (offset + byteSize (Segment.chars ⟨f.1.1, f.1.2, offset, f.2⟩))
    exact ⟨offset', congrArg _ h⟩

namespace Segment

/-- A segment without its place. -/
def unplaced (s : Segment) : (Keyword × List Char) × List Piece :=
  ((s.keyword, s.word), s.following)

/-- The pieces of a segment. -/
def pieces (s : Segment) : List Piece := .lexeme s.word :: s.following

end Segment

@[simp] theorem map_unplaced_locate (offset : Nat)
    (found : List ((Keyword × List Char) × List Piece)) :
    (locate offset found).map Segment.unplaced = found := by
  induction found generalizing offset with
  | nil => rfl
  | cons f found ih => exact congrArg _ (ih _)

theorem unplaced_mem_of_mem_locate {offset : Nat}
    {found : List ((Keyword × List Char) × List Piece)} {s : Segment}
    (h : s ∈ locate offset found) : s.unplaced ∈ found := by
  have hmem : s.unplaced ∈ (locate offset found).map Segment.unplaced := List.mem_map_of_mem h
  rwa [map_unplaced_locate] at hmem

theorem byteSize_append (cs ds : List Char) : byteSize (cs ++ ds) = byteSize cs + byteSize ds := by
  induction cs with
  | nil => simp [byteSize]
  | cons c cs ih =>
    rw [List.cons_append, byteSize, byteSize, ih]
    omega

/-- A segment has its place behind those before it. -/
theorem offset_of_locate_eq_append {offset : Nat}
    {found : List ((Keyword × List Char) × List Piece)} {before after : List Segment} {s : Segment}
    (h : locate offset found = before ++ s :: after) :
    s.offset = offset + byteSize (before.flatMap Segment.chars) := by
  induction before generalizing offset found with
  | nil => exact offset_of_locate h
  | cons b before ih =>
    cases found with
    | nil => cases h
    | cons f found =>
      obtain ⟨rfl, hrest⟩ := List.cons.inj h
      rw [ih hrest, List.flatMap_cons, byteSize_append, Nat.add_assoc]

/-- The pieces of a text are those before its first keyword and those of its segments. -/
theorem flatMap_pieces_segments (cs : List Char) :
    (segments cs).1 ++ (segments cs).2.flatMap Segment.pieces = pieces rule cs := by
  have hmark : ∀ p m, mark p = some m → [Piece.lexeme m.2] = [p] := by
    intro p m h
    cases p with
    | gap c => cases h
    | lexeme word => rw [text_of_mark h, Piece.text_lexeme]
  have hsections := flatMap_sections hmark (pieces rule cs)
  simp only [List.flatMap_singleton'] at hsections
  have hfound : (segments cs).2.flatMap Segment.pieces =
      (cut cs).2.flatMap fun f => [.lexeme f.1.2] ++ f.2 := by
    conv => rhs; rw [← map_unplaced_locate (byteSize ((cut cs).1.flatMap Piece.text)) (cut cs).2]
    rw [List.flatMap_map]
    rfl
  rw [hfound]
  exact hsections

/-- The keywords of the segments are those of the text. -/
theorem map_keyword_segments (cs : List Char) :
    (segments cs).2.map Segment.keyword = keywords cs := by
  have hmark : ∀ p, (mark p).map Prod.fst = p.lexeme?.bind Keyword.ofRun? := by
    intro p
    cases p with
    | gap c => rfl
    | lexeme word => simp [mark, Function.comp_def]
  have hmarks : (cut cs).2.map Prod.fst = (pieces rule cs).filterMap mark := map_fst_snd_sections _
  calc (segments cs).2.map Segment.keyword
      = ((segments cs).2.map Segment.unplaced).map fun f => f.1.1 := by rw [List.map_map]; rfl
    _ = ((cut cs).2.map Prod.fst).map Prod.fst := by
        rw [segments_eq, map_unplaced_locate, List.map_map]
        rfl
    _ = (pieces rule cs).filterMap fun p => p.lexeme?.bind Keyword.ofRun? := by
        simp only [hmarks, List.map_filterMap, hmark]
    _ = keywords cs := by rw [keywords, lexemes, List.filterMap_filterMap]

theorem snd_segments_eq_nil_iff_keywords : (segments cs).2 = [] ↔ keywords cs = [] := by
  rw [← map_keyword_segments, List.map_eq_nil_iff]

/-- A segment stands in the text as a stretch of its pieces. -/
theorem pieces_eq_of_segments {before after : List Segment} {s : Segment}
    (h : (segments cs).2 = before ++ s :: after) :
    pieces rule cs = ((segments cs).1 ++ before.flatMap Segment.pieces ++ [.lexeme s.word]) ++
      (s.following ++ after.flatMap Segment.pieces) := by
  rw [← flatMap_pieces_segments, h, List.flatMap_append, List.flatMap_cons]
  simp [Segment.pieces]

/-- The text between two keywords is cut as it is by itself. -/
theorem pieces_text {s : Segment} (h : s ∈ (segments cs).2) : pieces rule s.text = s.following := by
  obtain ⟨before, after, hsplit⟩ := List.append_of_mem h
  have hrest := pieces_flatMap_text (pieces_eq_of_segments hsplit)
  rw [List.flatMap_append] at hrest
  exact pieces_of_append hrest

/-- No keyword stands between two of them. -/
theorem keywords_text {s : Segment} (h : s ∈ (segments cs).2) : keywords s.text = [] := by
  have hmem : s.unplaced ∈ (cut cs).2 := unplaced_mem_of_mem_locate h
  rw [keywords, lexemes, pieces_text h, List.filterMap_eq_nil_iff]
  intro word hword
  obtain ⟨p, hp, hlexeme⟩ := List.mem_filterMap.1 hword
  have hnone := ((of_mem_snd_sections hmem).2 p hp).2
  cases p with
  | gap c => cases hlexeme
  | lexeme text =>
    cases hlexeme
    simpa [mark] using hnone

/-- The sections of a text put together are the text. -/
theorem flatMap_cut (cs : List Char) :
    (cut cs).1.flatMap Piece.text ++ (cut cs).2.flatMap (fun s => s.1.2 ++ s.2.flatMap Piece.text) =
      cs := by
  rw [cut, flatMap_sections (fun _ _ h => text_of_mark h), flatMap_text_pieces]

namespace Keyword

/-- A keyword in capitals. -/
def word : Keyword → List Char
  | caseKw => ['C', 'A', 'S', 'E']
  | whenKw => ['W', 'H', 'E', 'N']
  | thenKw => ['T', 'H', 'E', 'N']
  | elseKw => ['E', 'L', 'S', 'E']
  | endKw => ['E', 'N', 'D']

theorem word_ne_nil (k : Keyword) : k.word ≠ [] := by cases k <;> decide

theorem isWord_of_mem_word (k : Keyword) : ∀ c ∈ k.word, isWord c = true := by
  have hall : k.word.all isWord = true := by cases k <;> decide
  exact List.all_eq_true.1 hall

theorem ofRun?_word (k : Keyword) : ofRun? k.word = some k := by cases k <;> decide

theorem ofRun?_quoted (cs : List Char) : ofRun? ('\'' :: cs) = none := by
  have hfold : foldCase '\'' = '\'' := by decide
  simp [ofRun?, spellings, hfold]

end Keyword

theorem cut_space (rest : List Char) :
    cut (' ' :: rest) = (.gap ' ' :: (cut rest).1, (cut rest).2) := by
  rw [cut, pieces_space]
  exact sections_cons_of_none rfl _

/-- A keyword begins a section. -/
theorem cut_keyword (k : Keyword) (rest : List Char) :
    cut (k.word ++ ' ' :: rest) =
      ([], ((k, k.word), (cut (' ' :: rest)).1) :: (cut (' ' :: rest)).2) := by
  have hpieces : pieces rule (k.word ++ ' ' :: rest) =
      .lexeme k.word :: pieces rule (' ' :: rest) :=
    pieces_run k.word_ne_nil k.isWord_of_mem_word (not_isWord_of_head_space rest)
  have hmark : mark (.lexeme k.word) = some (k, k.word) := by
    rw [mark, k.ofRun?_word, Option.map_some]
  rw [cut, hpieces, sections_cons_of_some hmark]
  rfl

/-- A text without keywords of its own, in which every quote has its partner. -/
structure Quiet (cs : List Char) : Prop where
  keywords : (cut cs).2 = []
  quotes : Even (cs.count '\'')

theorem cut_append_space (hcs : Quiet cs) (rest : List Char) :
    cut (cs ++ ' ' :: rest) = (pieces rule cs ++ .gap ' ' :: (cut rest).1, (cut rest).2) := by
  rw [cut, pieces_append_space (.inl hcs.quotes), sections_append_of_unmarked hcs.keywords,
    sections_cons_of_none rfl]
  rfl

/-- Between spaces, a keyword and a quiet text after it make a section. -/
theorem cut_keyword_append (k : Keyword) (hcs : Quiet cs) (hrest : (cut rest).1 = []) :
    cut (k.word ++ ' ' :: (cs ++ ' ' :: rest)) =
      ([], ((k, k.word), pieces rule (' ' :: (cs ++ [' ']))) :: (cut rest).2) := by
  have hpart : pieces rule (' ' :: (cs ++ [' '])) = .gap ' ' :: (pieces rule cs ++ [.gap ' ']) := by
    rw [pieces_space, pieces_append_space (.inl hcs.quotes), pieces_nil]
  rw [cut_keyword, cut_space, cut_append_space hcs, hrest, hpart]

/-- A text in quotes is quiet, whatever it has in it. -/
theorem quiet_literal {v : List Char} (hv : '\'' ∉ v) : Quiet ('\'' :: (v ++ ['\''])) where
  keywords := by
    have hmark : mark (.lexeme ('\'' :: (v ++ ['\'']))) = none := by
      rw [mark, Keyword.ofRun?_quoted, Option.map_none]
    rw [cut, pieces_literal hv, sections_cons_of_none hmark]
    rfl
  quotes := by
    have hcount : ('\'' :: (v ++ ['\''])).count '\'' = 2 := by simp [List.count_eq_zero.2 hv]
    rw [hcount]
    decide

end DecisionTable.Case
