import DecisionTable.Proofs.Case.Keywords
import DecisionTable.Proofs.Case.Shape
import DecisionTable.Rule.Table

/-!
# How a block opens

Whether a rule is a block is asked twice: first to choose how to read it, and again when it is read
as a block. The answer is the same both times (`Block.read_eq_noCase_iff`), and it stands at the
front of the text: the word `case` in any letter case, with no word character behind it
(`Block.isBlock_iff`). So no rule is refused for not being a block, and all that a rule can lack of
one is its `END` (`Block.isBlock_agrees`).
-/

namespace DecisionTable.Case

open Text

variable {cs : List Char} {text : String}

/-! ## The word -/

/-- The word `case` with its letters in any case. -/
def IsCaseWord (word : List Char) : Prop := word.map Char.toLower = ['c', 'a', 's', 'e']

instance (word : List Char) : Decidable (IsCaseWord word) := inferInstanceAs (Decidable (_ = _))

/-- The text begins with `case` in any letter case, and there it ends or goes on with a character
that belongs to no word. -/
def BeginsWithCaseWord (cs : List Char) : Prop :=
  ∃ word rest, cs = word ++ rest ∧ IsCaseWord word ∧ ∀ c, rest.head? = some c → isWord c = false

theorem Keyword.ofLower_eq_caseKw_iff {word : List Char} :
    ofLower word = .caseKw ↔ word = ['c', 'a', 's', 'e'] := by
  rw [ofLower]
  split
  · next hcase => exact iff_of_true rfl hcase
  · next hcase =>
    refine iff_of_false ?_ hcase
    split
    · nofun
    split
    · nofun
    split <;> nofun

/-- No long s is in the word, so folding its case is no more than putting it in lower case. -/
theorem IsCaseWord.map_foldCase {word : List Char} (h : IsCaseWord word) :
    word.map foldCase = ['c', 'a', 's', 'e'] := by
  rw [← h]
  refine List.map_congr_left fun c hc => if_neg ?_
  rintro rfl
  have hmem : Char.toLower 'ſ' ∈ word.map Char.toLower := List.mem_map_of_mem hc
  rw [h] at hmem
  exact absurd hmem (by decide)

/-- A run is the keyword `CASE` just if it is the word. -/
theorem Keyword.ofRun?_eq_caseKw_iff {word : List Char} :
    ofRun? word = some .caseKw ↔ IsCaseWord word := by
  rw [ofRun?]
  constructor
  · intro h
    split at h
    · exact ofLower_eq_caseKw_iff.1 (Option.some.inj h)
    · cases h
  · intro h
    have hspelt : word.map foldCase ∈ spellings := by
      rw [h.map_foldCase]
      exact List.mem_cons_self
    rw [if_pos hspelt, ofLower_eq_caseKw_iff.2 h]

theorem IsCaseWord.isWord {word : List Char} (h : IsCaseWord word) :
    ∀ c ∈ word, isWord c = true := by
  intro c hc
  have hmem : c.toLower ∈ word.map Char.toLower := List.mem_map_of_mem hc
  have hletters : ['c', 'a', 's', 'e'].all Text.isWord = true := by decide
  rw [h] at hmem
  exact isWord_of_isWord_toLower (List.all_eq_true.1 hletters _ hmem)

/-- The word stands at the front of a text just if it is the run there. -/
theorem beginsWithCaseWord_iff : BeginsWithCaseWord cs ↔ IsCaseWord (run cs) := by
  constructor
  · rintro ⟨word, rest, rfl, hword, hrest⟩
    have hrun : run (word ++ rest) = word := takeWhile_append_of_all hword.isWord hrest
    rwa [hrun]
  · intro h
    exact ⟨run cs, afterRun cs, (run_append_afterRun cs).symm, h, fun _ => head?_afterRun⟩

/-! ## The first piece -/

/-- The first keyword is `CASE` at the front just if the first piece is. -/
theorem beginsWithCase_segments_of_pieces {p : Piece} {ps : List Piece}
    (h : pieces rule cs = p :: ps) :
    beginsWithCase (segments cs) = true ↔ p.lexeme?.bind Keyword.ofRun? = some .caseKw := by
  rw [segments_eq, cut, h]
  cases p with
  | gap c =>
    rw [sections_cons_of_none rfl]
    simp [beginsWithCase]
  | lexeme word =>
    cases hrun : Keyword.ofRun? word with
    | none =>
      have hmark : mark (.lexeme word) = none := by rw [mark, hrun, Option.map_none]
      rw [sections_cons_of_none hmark]
      simp [beginsWithCase, hrun]
    | some k =>
      have hmark : mark (.lexeme word) = some (k, word) := by rw [mark, hrun, Option.map_some]
      rw [sections_cons_of_some hmark]
      simp [beginsWithCase, locate, hrun]

/-- A word at the front of a text is its first piece. -/
theorem pieces_cons_of_isWord {c : Char} (h : isWord c = true) (cs : List Char) :
    pieces rule (c :: cs) = .lexeme (run (c :: cs)) :: pieces rule (afterRun (c :: cs)) := by
  have hne : run (c :: cs) ≠ [] := by
    rw [run, List.takeWhile_cons_of_pos h]
    exact List.cons_ne_nil _ _
  have hpieces : pieces rule (run (c :: cs) ++ afterRun (c :: cs)) =
      .lexeme (run (c :: cs)) :: pieces rule (afterRun (c :: cs)) :=
    pieces_run hne (fun _ => isWord_of_mem_run) fun _ => head?_afterRun
  rwa [run_append_afterRun] at hpieces

/-- No word begins with another character, so no keyword does. -/
theorem lexeme?_head_pieces {c : Char} (h : isWord c = false) (cs : List Char) :
    ∃ p ps, pieces rule (c :: cs) = p :: ps ∧ p.lexeme?.bind Keyword.ofRun? = none := by
  cases hrule : rule c cs with
  | none => exact ⟨.gap c, _, pieces_cons_of_none hrule, rfl⟩
  | some n =>
    refine ⟨_, _, pieces_cons_of_some hrule, ?_⟩
    -- only a quote is left to begin a lexeme
    by_cases hquote : c = '\''
    · subst hquote
      exact Keyword.ofRun?_quoted _
    · rw [rule_of_not_isWord hquote h] at hrule
      cases hrule

theorem beginsWithCase_segments_iff :
    beginsWithCase (segments cs) = true ↔ BeginsWithCaseWord cs := by
  rw [beginsWithCaseWord_iff]
  cases cs with
  | nil => exact iff_of_false (by decide) (by decide)
  | cons c cs =>
    cases hword : isWord c with
    | true =>
      rw [beginsWithCase_segments_of_pieces (pieces_cons_of_isWord hword cs)]
      exact Keyword.ofRun?_eq_caseKw_iff
    | false =>
      obtain ⟨p, ps, hpieces, hnone⟩ := lexeme?_head_pieces hword cs
      have hrun : run (c :: cs) = [] := by rw [run, List.takeWhile_cons_of_neg (by simp [hword])]
      rw [beginsWithCase_segments_of_pieces hpieces, hnone, hrun]
      exact iff_of_false (Option.some_ne_none _).symm (by decide)

/-! ## What is wrong without it -/

theorem BlockError.kind_eq_precondition_iff {error : BlockError} :
    error.kind = .precondition ↔ error = .noCase ∨ error = .noEnd := by
  cases error <;> simp [BlockError.kind]

theorem readAfterCase_ne_noCase (leading : List Char) (segs : List Segment) :
    readAfterCase leading segs ≠ .error .noCase := by
  intro h
  rcases readAfterCase_cases leading segs with ⟨hend, -⟩ | ⟨-, ⟨error, herror, hkind⟩ |
      ⟨block, -, -, -, -, hblock, -⟩⟩
  · rw [h] at hend
    cases hend
  · rw [h] at herror
    cases herror
    cases hkind
  · rw [h] at hblock
    cases hblock

namespace Block

theorem isBlock_iff : isBlock text = true ↔ BeginsWithCaseWord (trim text.toList) :=
  beginsWithCase_segments_iff

/-- A text that is no block is refused for just that, and no block is. -/
theorem read_eq_noCase_iff : read text = .error .noCase ↔ isBlock text = false := by
  rw [read, isBlock]
  split
  · next s rest hsegments =>
    rw [hsegments]
    by_cases hcase : s.keyword = .caseKw
    · rw [if_pos hcase]
      exact iff_of_false (readAfterCase_ne_noCase _ _) (by simp [beginsWithCase, hcase])
    · rw [if_neg hcase]
      exact iff_of_true rfl (by simp [beginsWithCase, hcase])
  · next hother =>
    refine iff_of_true rfl ?_
    rw [beginsWithCase.eq_def]
    split
    · next s rest hsegments => exact absurd hsegments (hother s rest)
    · rfl

end Block

/-! ## Rules -/

/-- What is wrong with a condition is nothing that a block lacks. -/
theorem kind_of_ofCondition {result : Except ReadError Expression} {error : Error}
    (h : Table.ofCondition result = .error error) : error.kind = .malformed := by
  cases result with
  | ok e => cases h
  | error cause =>
    cases h
    rfl

/-- A text that opens like a block may lack its `END`. -/
theorem eq_noEnd_of_ofBlock {body : String} {error : Error} (hblock : Block.isBlock body = true)
    (h : Table.ofBlock body = .error error) (hkind : error.kind = .precondition) :
    error = .block .noEnd := by
  rw [Table.ofBlock] at h
  cases hread : Block.read body with
  | ok b =>
    rw [hread] at h
    cases h
  | error cause =>
    rw [hread] at h
    cases h
    rcases BlockError.kind_eq_precondition_iff.1 hkind with rfl | rfl
    · rw [Block.read_eq_noCase_iff, hblock] at hread
      cases hread
    · rfl

/-- Of all that a block can lack, a rule is refused for its `END` only. -/
theorem eq_noEnd_of_tableOfRule {m : Memo} {body : String} {error : Error}
    (h : Table.ofRule body = .error error ∨ (m.tableOfRule body).1 = .error error)
    (hkind : error.kind = .precondition) : error = .block .noEnd := by
  rw [Table.ofRule, Memo.tableOfRule] at h
  by_cases hblock : Block.isBlock body = true
  · rw [if_pos hblock, if_pos hblock, or_self] at h
    exact eq_noEnd_of_ofBlock hblock h hkind
  · rw [if_neg hblock, if_neg hblock] at h
    have hmalformed : error.kind = .malformed := h.elim kind_of_ofCondition kind_of_ofCondition
    rw [hkind] at hmalformed
    cases hmalformed

/-- A text is taken for a block exactly if what is left of it without the blanks around it begins
with `case`, in any letter case, and ends there or goes on with a character of no word. Read as a
block, it is refused for not beginning with `CASE` exactly if it is not taken for one. So no rule
is refused for that, whatever memo it is read through, and the one precondition that it can fail
is that it has an `END`. -/
theorem Block.isBlock_agrees (text : String) :
    (isBlock text = true ↔ BeginsWithCaseWord (trim text.toList)) ∧
    ((∃ error, read text = .error error ∧ error.kind = .precondition ∧
        error.detail = "Must start with CASE") ↔ isBlock text = false) ∧
    ∀ (m : Memo) (error : Error),
      Table.ofRule text = .error error ∨ (m.tableOfRule text).1 = .error error →
        ¬ (error.kind = .precondition ∧ error.detail = "Must start with CASE") ∧
          (error.kind = .precondition → error.detail = "Missing END") := by
  refine ⟨isBlock_iff, ?_, fun m error h => ⟨?_, fun hkind => ?_⟩⟩
  · rw [← read_eq_noCase_iff]
    constructor
    · rintro ⟨error, hread, hkind, hdetail⟩
      rcases BlockError.kind_eq_precondition_iff.1 hkind with rfl | rfl
      · exact hread
      · exact absurd hdetail (by decide)
    · exact fun hread => ⟨.noCase, hread, rfl, rfl⟩
  · rintro ⟨hkind, hdetail⟩
    rw [eq_noEnd_of_tableOfRule h hkind] at hdetail
    exact absurd hdetail (by decide)
  · rw [eq_noEnd_of_tableOfRule h hkind]
    rfl

/-- Behind blanks, `case` in mixed letters before a character of no word: the rule is taken for a
block and has no `END`. With a long s in it the word is no `CASE`. -/
theorem Block.isBlock_agrees_mixed :
    let text := "\u3000cAsE'x'"
    let long := "caſe when"
    isBlock text = true ∧ BeginsWithCaseWord (trim text.toList) ∧
      Table.ofRule text = .error (.block .noEnd) ∧ (Error.block .noEnd).kind = .precondition ∧
      (Error.block .noEnd).detail = "Missing END" ∧ isBlock long = false ∧
      ∃ error, read long = .error error ∧ error.kind = .precondition ∧
        error.detail = "Must start with CASE" := by
  intro text long
  have hblock : isBlock text = true := by decide +kernel
  have hread : read text = .error .noEnd := by decide +kernel
  have hrule : Table.ofRule text = .error (.block .noEnd) := by
    rw [Table.ofRule, if_pos hblock, Table.ofBlock, hread]
  have hlong : isBlock long = false := by decide +kernel
  obtain ⟨hbegins, -, hrules⟩ := isBlock_agrees text
  have hdetail := (hrules Memo.default (.block .noEnd) (.inl hrule)).2 rfl
  exact ⟨hblock, hbegins.1 hblock, hrule, rfl, hdetail, hlong, (isBlock_agrees long).2.1.2 hlong⟩

end DecisionTable.Case
