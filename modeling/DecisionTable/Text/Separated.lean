import DecisionTable.Text.Pieces
import DecisionTable.Text.Sections

/-!
# Texts between separators

A text is split at every place where a separator stands as a whole, from left to right. Texts that
were joined come back (`split_intercalate`) if some character of the separator is in none of them:
then no separator can begin in a text, not even one that the next separator would complete.
-/

namespace DecisionTable.Text

/-- A separator is a lexeme where it stands as a whole; all else is gap. -/
def separator (sep : List Char) : Rule := fun c cs =>
  if sep.isPrefixOf (c :: cs) then some (sep.length - 1) else none

/-- The stretches of a text between the separators in it. -/
def split (sep cs : List Char) : List (List Char) :=
  let (front, found) := sections Piece.lexeme? (pieces (separator sep) cs)
  (front :: found.map Prod.snd).map fun gap => gap.flatMap Piece.text

variable {sep part rest : List Char} {m : Char}

/-! ## Finding separators -/

/-- A separator begins in no text that lacks a character of it, be it the last text or one in front
of a separator. -/
theorem separator_eq_none {c : Char} {cs : List Char} (hm : m ∈ sep) (h : m ∉ c :: cs)
    (hrest : rest = [] ∨ sep <+: rest) : separator sep c (cs ++ rest) = none := by
  rw [separator, if_neg]
  rw [List.isPrefixOf_iff_prefix]
  intro hprefix
  obtain ⟨before, after, rfl, hbefore⟩ := List.eq_append_cons_of_mem hm
  have hopening : before ++ [m] <+: before ++ m :: after := ⟨after, by simp⟩
  have hfirst := hopening.trans hprefix
  have hmem : m ∈ before ++ [m] := by simp
  rcases hrest with rfl | ⟨later, rfl⟩
  · rw [List.append_nil] at hfirst
    exact h (hfirst.mem hmem)
  · -- the first `m` of the separator would stand in the text or before the first `m` behind it
    have hfront : before ++ [m] <+: c :: cs ++ before := by
      refine List.prefix_of_prefix_length_le hfirst ⟨m :: after ++ later, by simp⟩ ?_
      simp only [List.length_append, List.length_cons, List.length_nil]
      omega
    rcases List.mem_append.1 (hfront.mem hmem) with htext | hsep
    · exact h htext
    · exact hbefore hsep

theorem separator_eq_some (c : Char) (cs rest : List Char) :
    separator (c :: cs) c (cs ++ rest) = some cs.length := by
  have hprefix : (c :: cs).isPrefixOf (c :: (cs ++ rest)) = true :=
    List.isPrefixOf_iff_prefix.2 (List.prefix_append (c :: cs) rest)
  rw [separator, if_pos hprefix, List.length_cons, Nat.add_sub_cancel]

theorem pieces_separator_append (hm : m ∈ sep) (h : m ∉ part)
    (hrest : rest = [] ∨ sep <+: rest) :
    pieces (separator sep) (part ++ rest) =
      part.map Piece.gap ++ pieces (separator sep) rest :=
  pieces_append_of_none fun _ _ hsuffix =>
    separator_eq_none hm (fun hmem => h (hsuffix.mem hmem)) hrest

theorem pieces_separator (hm : m ∈ sep) (rest : List Char) :
    pieces (separator sep) (sep ++ rest) = .lexeme sep :: pieces (separator sep) rest := by
  cases sep with
  | nil => cases hm
  | cons c cs =>
    rw [List.cons_append, pieces_cons_of_some (separator_eq_some c cs rest), List.take_left,
      List.drop_left]

/-! ## Splitting -/

theorem sections_gaps (cs : List Char) (ps : List Piece) :
    sections Piece.lexeme? (cs.map Piece.gap ++ ps) =
      (cs.map Piece.gap ++ (sections Piece.lexeme? ps).1, (sections Piece.lexeme? ps).2) := by
  refine sections_append_of_unmarked ?_ ps
  induction cs with
  | nil => rfl
  | cons c cs ih => rw [List.map_cons, sections_cons_of_none (Piece.lexeme?_gap c), ih]

theorem flatMap_text_gaps (cs : List Char) : (cs.map Piece.gap).flatMap Piece.text = cs := by
  induction cs with
  | nil => rfl
  | cons c cs ih => rw [List.map_cons, List.flatMap_cons, ih, Piece.text_gap, List.singleton_append]

/-- A text without a separator is not split. -/
theorem split_of_not_mem (hm : m ∈ sep) (h : m ∉ part) : split sep part = [part] := by
  have hpieces := pieces_separator_append hm h (.inl rfl)
  rw [List.append_nil] at hpieces
  rw [split, hpieces, sections_gaps]
  simp [flatMap_text_gaps]

/-- The text in front of the first separator is split off. -/
theorem split_append (hm : m ∈ sep) (h : m ∉ part) (rest : List Char) :
    split sep (part ++ (sep ++ rest)) = part :: split sep rest := by
  have hpieces := pieces_separator_append hm h (.inr (List.prefix_append sep rest))
  rw [split, hpieces, pieces_separator hm, sections_gaps,
    sections_cons_of_some (Piece.lexeme?_lexeme sep)]
  simp [flatMap_text_gaps, split]

/-- Texts that were joined come back. -/
theorem split_intercalate (hm : m ∈ sep) {parts : List (List Char)}
    (h : ∀ part ∈ parts, m ∉ part) (hne : parts ≠ []) :
    split sep (sep.intercalate parts) = parts := by
  induction parts with
  | nil => exact absurd rfl hne
  | cons part parts ih =>
    rw [List.forall_mem_cons] at h
    cases parts with
    | nil => rw [List.intercalate_singleton, split_of_not_mem hm h.1]
    | cons next parts =>
      rw [List.intercalate_cons_cons, List.append_assoc, split_append hm h.1,
        ih h.2 (List.cons_ne_nil next parts)]

end DecisionTable.Text
