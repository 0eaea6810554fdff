import DecisionTable.Text.Word
import DecisionTable.Text.Pieces
import DecisionTable.Text.Sections

/-!
# Keywords of a `CASE` block

The five keywords that divide a block, found as whole runs of word characters outside
quoted stretches. A `Segment` is a keyword with the text up to the next one.
-/

namespace DecisionTable.Case

open Text

/-- A keyword of a block. -/
inductive Keyword where
  | caseKw
  | whenKw
  | thenKw
  | elseKw
  | endKw
  deriving DecidableEq, Repr

/-- A character in lower case, with the long s as an s. -/
def foldCase (c : Char) : Char := if c = 'ſ' then 's' else c.toLower

namespace Keyword

/-- The words that spell a keyword. -/
def spellings : List (List Char) :=
  [['c', 'a', 's', 'e'], ['w', 'h', 'e', 'n'], ['t', 'h', 'e', 'n'], ['e', 'l', 's', 'e'],
    ['e', 'n', 'd']]

/-- The keyword of a spelling in lower case. Whatever is none of the other four closes the
block. -/
def ofLower (word : List Char) : Keyword :=
  if word = ['c', 'a', 's', 'e'] then caseKw
  else if word = ['w', 'h', 'e', 'n'] then whenKw
  else if word = ['t', 'h', 'e', 'n'] then thenKw
  else if word = ['e', 'l', 's', 'e'] then elseKw
  else endKw

/-- The keyword that a run of word characters spells. Letter case does not count, and a long
s may stand for an s; a word with one is recognised but closes the block. -/
def ofRun? (word : List Char) : Option Keyword :=
  if word.map foldCase ∈ spellings then some (ofLower (word.map Char.toLower)) else none

end Keyword

/-! ## Pieces -/

/-- A run of word characters. -/
def wholeRun : Rule := fun c cs => if isWord c then some (run cs).length else none

/-- The rule for the pieces of a block: quoted stretches, in which no keyword is looked for,
and runs of word characters. -/
def rule : Rule := fun c cs => quoted c cs <|> wholeRun c cs

/-- A keyword with its spelling. -/
def mark : Piece → Option (Keyword × List Char)
  | .gap _ => none
  | .lexeme word => (Keyword.ofRun? word).map fun k => (k, word)

/-! ## Segments -/

/-- A keyword of a block and what follows it. -/
structure Segment where
  keyword : Keyword
  /-- The keyword as it is spelt. -/
  word : List Char
  /-- The number of bytes before the keyword. -/
  offset : Nat
  /-- The pieces up to the next keyword. -/
  following : List Piece
  deriving DecidableEq, Repr

namespace Segment

/-- The text up to the next keyword. -/
def text (s : Segment) : List Char := s.following.flatMap Piece.text

/-- The keyword and the text up to the next one. -/
def chars (s : Segment) : List Char := s.word ++ s.text

/-- The quoted stretches up to the next keyword. -/
def quotes (s : Segment) : List (List Char) :=
  (s.following.filterMap Piece.lexeme?).filter fun l => l.head? = some '\''

end Segment

/-- The number of bytes that a text takes. -/
def byteSize : List Char → Nat
  | [] => 0
  | c :: cs => c.utf8Size + byteSize cs

theorem byteSize_eq_zero_iff {cs : List Char} : byteSize cs = 0 ↔ cs = [] := by
  cases cs with
  | nil => simp [byteSize]
  | cons c cs =>
    have hsize := c.utf8Size_pos
    simp only [byteSize, reduceCtorEq, iff_false]
    omega

/-- Sections as segments, the first of them at the given offset. -/
def locate (offset : Nat) : List ((Keyword × List Char) × List Piece) → List Segment
  | [] => []
  | ((keyword, word), following) :: rest =>
    let s : Segment := ⟨keyword, word, offset, following⟩
    s :: locate (offset + byteSize s.chars) rest

/-- The pieces before the first keyword, and the segments. -/
def segments (cs : List Char) : List Piece × List Segment :=
  let (front, found) := sections mark (pieces rule cs)
  (front, locate (byteSize (front.flatMap Piece.text)) found)

theorem text_of_mark {p : Piece} {m : Keyword × List Char} (h : mark p = some m) :
    m.2 = p.text := by
  cases p with
  | gap c => simp [mark] at h
  | lexeme word =>
    rw [mark, Option.map_eq_some_iff] at h
    obtain ⟨k, _, rfl⟩ := h
    rfl

theorem flatMap_chars_locate (offset : Nat)
    (found : List ((Keyword × List Char) × List Piece)) :
    (locate offset found).flatMap Segment.chars =
      found.flatMap fun s => s.1.2 ++ s.2.flatMap Piece.text := by
  induction found generalizing offset with
  | nil => rfl
  | cons s found ih =>
    rw [locate, List.flatMap_cons, ih, List.flatMap_cons]
    rfl

theorem offset_of_locate {offset : Nat} {found : List ((Keyword × List Char) × List Piece)}
    {s : Segment} {rest : List Segment} (h : locate offset found = s :: rest) :
    s.offset = offset := by
  cases found with
  | nil => cases h
  | cons f found => cases h; rfl

/-- Nothing stands before the first keyword exactly where it is at the start of the text. -/
theorem fst_segments_eq_nil_iff {cs : List Char} {s : Segment} {rest : List Segment}
    (h : (segments cs).2 = s :: rest) : (segments cs).1 = [] ↔ s.offset = 0 := by
  have hoffset : s.offset = byteSize ((segments cs).1.flatMap Piece.text) := offset_of_locate h
  rw [hoffset, byteSize_eq_zero_iff, List.flatMap_eq_nil_iff]
  constructor
  · intro hfront p hp
    rw [hfront] at hp
    cases hp
  · intro hall
    refine List.eq_nil_iff_forall_not_mem.2 fun p hp => ?_
    have hfront : (segments cs).1 <+: pieces rule cs := fst_sections_prefix_self _
    exact text_ne_nil_of_mem_pieces (hfront.mem hp) (hall p hp)

/-- The text is what stands before the first keyword, and the segments after it. -/
theorem flatMap_segments (cs : List Char) :
    (segments cs).1.flatMap Piece.text ++ (segments cs).2.flatMap Segment.chars = cs := by
  simp only [segments, flatMap_chars_locate]
  rw [flatMap_sections (fun p m h => text_of_mark h), flatMap_text_pieces]

end DecisionTable.Case
