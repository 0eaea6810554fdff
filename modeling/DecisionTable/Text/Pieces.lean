/-!
# Cutting a text into lexemes and gaps

A text is read from left to right. At each character a *rule* says whether a lexeme starts
there, and how far it goes; a character at which none starts is a gap of its own. Nothing
is lost: the pieces put together are the text again (`flatMap_text_pieces`).
-/

namespace DecisionTable.Text

/-- A rule is asked at a character, with the text after it. It answers how many characters
of that text still belong to the lexeme that starts there, or `none` where none starts. -/
abbrev Rule := Char → List Char → Option Nat

/-- A stretch of a text that was cut by a rule. -/
inductive Piece where
  /-- A character that belongs to no lexeme. -/
  | gap (c : Char)
  /-- The characters of one lexeme. -/
  | lexeme (text : List Char)
  deriving DecidableEq, Repr

namespace Piece

/-- The characters that a piece stands for. -/
def text : Piece → List Char
  | gap c => [c]
  | lexeme text => text

/-- The characters of a lexeme. -/
def lexeme? : Piece → Option (List Char)
  | gap _ => none
  | lexeme text => some text

@[simp] theorem text_gap (c : Char) : (gap c).text = [c] := rfl

@[simp] theorem text_lexeme (cs : List Char) : (lexeme cs).text = cs := rfl

@[simp] theorem lexeme?_gap (c : Char) : (gap c).lexeme? = none := rfl

@[simp] theorem lexeme?_lexeme (cs : List Char) : (lexeme cs).lexeme? = some cs := rfl

end Piece

/-- The pieces of a text whose first `skip` characters are already part of a lexeme. -/
def piecesFrom (rule : Rule) : Nat → List Char → List Piece
  | _, [] => []
  | skip + 1, _ :: cs => piecesFrom rule skip cs
  | 0, c :: cs =>
    match rule c cs with
    | some n => .lexeme (c :: cs.take n) :: piecesFrom rule n cs
    | none => .gap c :: piecesFrom rule 0 cs

/-- The pieces into which a rule cuts a text. -/
def pieces (rule : Rule) (cs : List Char) : List Piece := piecesFrom rule 0 cs

/-- The lexemes that a rule finds in a text. -/
def lexemes (rule : Rule) (cs : List Char) : List (List Char) :=
  (pieces rule cs).filterMap Piece.lexeme?

/-! ## Reading by pieces -/

theorem piecesFrom_eq_pieces_drop (rule : Rule) (skip : Nat) (cs : List Char) :
    piecesFrom rule skip cs = pieces rule (cs.drop skip) := by
  induction cs generalizing skip with
  | nil => cases skip <;> simp [pieces, piecesFrom]
  | cons c cs ih =>
    cases skip with
    | zero => rfl
    | succ skip => simpa [piecesFrom] using ih skip

@[simp] theorem pieces_nil (rule : Rule) : pieces rule [] = [] := rfl

theorem pieces_cons_of_some {rule : Rule} {c : Char} {cs : List Char} {n : Nat}
    (h : rule c cs = some n) :
    pieces rule (c :: cs) = .lexeme (c :: cs.take n) :: pieces rule (cs.drop n) := by
  rw [pieces, piecesFrom, h]
  simp only [piecesFrom_eq_pieces_drop]

theorem pieces_cons_of_none {rule : Rule} {c : Char} {cs : List Char} (h : rule c cs = none) :
    pieces rule (c :: cs) = .gap c :: pieces rule cs := by
  rw [pieces, piecesFrom, h]
  rfl

/-- Where no lexeme starts, there are as many gaps as characters. -/
theorem pieces_append_of_none {rule : Rule} {front rest : List Char}
    (h : ∀ c cs, c :: cs <:+ front → rule c (cs ++ rest) = none) :
    pieces rule (front ++ rest) = front.map Piece.gap ++ pieces rule rest := by
  induction front with
  | nil => rfl
  | cons c front ih =>
    have hc : rule c (front ++ rest) = none := h c front List.suffix_rfl
    rw [List.cons_append, pieces_cons_of_none hc,
      ih fun d ds hds => h d ds (hds.trans (List.suffix_cons c front)), List.map_cons,
      List.cons_append]

/-- What the first piece says about its text. -/
theorem pieces_eq_cons_cases {rule : Rule} {cs : List Char} {p : Piece} {ps : List Piece}
    (h : pieces rule cs = p :: ps) :
    (∃ c ds, cs = c :: ds ∧ rule c ds = none ∧ p = .gap c ∧ pieces rule ds = ps) ∨
      ∃ c ds n, cs = c :: ds ∧ rule c ds = some n ∧ p = .lexeme (c :: ds.take n) ∧
        pieces rule (ds.drop n) = ps := by
  cases cs with
  | nil => cases h
  | cons c ds =>
    cases hr : rule c ds with
    | none =>
      rw [pieces_cons_of_none hr] at h
      obtain ⟨hp, hps⟩ := List.cons.inj h
      exact .inl ⟨c, ds, rfl, hr, hp.symm, hps⟩
    | some n =>
      rw [pieces_cons_of_some hr] at h
      obtain ⟨hp, hps⟩ := List.cons.inj h
      exact .inr ⟨c, ds, n, rfl, hr, hp.symm, hps⟩

/-- Pieces in place of a text: an induction over what the rule leaves to be read. -/
theorem pieces_induction (rule : Rule) {motive : List Char → Prop} (nil : motive [])
    (lexeme : ∀ c cs n, rule c cs = some n → motive (cs.drop n) → motive (c :: cs))
    (gap : ∀ c cs, rule c cs = none → motive cs → motive (c :: cs)) (cs : List Char) :
    motive cs := by
  have main : ∀ (k : Nat) (cs : List Char), cs.length ≤ k → motive cs := by
    intro k
    induction k with
    | zero =>
      intro cs h
      rw [List.length_eq_zero_iff.1 (Nat.le_zero.1 h)]
      exact nil
    | succ k ih =>
      intro cs h
      cases cs with
      | nil => exact nil
      | cons c cs =>
        simp only [List.length_cons, Nat.add_le_add_iff_right] at h
        cases hr : rule c cs with
        | none => exact gap c cs hr (ih cs h)
        | some n =>
          refine lexeme c cs n hr (ih _ ?_)
          rw [List.length_drop]
          omega
  exact main cs.length cs (Nat.le_refl _)

/-- The pieces put together are the text. -/
@[simp] theorem flatMap_text_pieces (rule : Rule) (cs : List Char) :
    (pieces rule cs).flatMap Piece.text = cs := by
  induction cs using pieces_induction rule with
  | nil => rfl
  | lexeme c cs n h ih =>
    rw [pieces_cons_of_some h, List.flatMap_cons, ih]
    simp
  | gap c cs h ih =>
    rw [pieces_cons_of_none h, List.flatMap_cons, ih]
    simp

/-- No piece is empty. -/
theorem text_ne_nil_of_mem_pieces {rule : Rule} {cs : List Char} {p : Piece}
    (h : p ∈ pieces rule cs) : p.text ≠ [] := by
  induction cs using pieces_induction rule with
  | nil => cases h
  | lexeme c cs n hr ih =>
    rw [pieces_cons_of_some hr, List.mem_cons] at h
    rcases h with rfl | h
    · exact List.cons_ne_nil c _
    · exact ih h
  | gap c cs hr ih =>
    rw [pieces_cons_of_none hr, List.mem_cons] at h
    rcases h with rfl | h
    · exact List.cons_ne_nil c []
    · exact ih h

/-- What is left of a text behind some of its pieces is cut into the other ones. -/
theorem pieces_flatMap_text {rule : Rule} {cs : List Char} {ps qs : List Piece}
    (h : pieces rule cs = ps ++ qs) : pieces rule (qs.flatMap Piece.text) = qs := by
  induction cs using pieces_induction rule generalizing ps with
  | nil =>
    obtain ⟨-, rfl⟩ := List.append_eq_nil_iff.1 h.symm
    rfl
  | lexeme c cs n hr ih =>
    cases ps with
    | nil =>
      rw [List.nil_append] at h
      rw [← h, flatMap_text_pieces]
    | cons p ps =>
      rw [pieces_cons_of_some hr] at h
      exact ih (List.cons.inj h).2
  | gap c cs hr ih =>
    cases ps with
    | nil =>
      rw [List.nil_append] at h
      rw [← h, flatMap_text_pieces]
    | cons p ps =>
      rw [pieces_cons_of_none hr] at h
      exact ih (List.cons.inj h).2

/-! ## Lexemes -/

@[simp] theorem lexemes_nil (rule : Rule) : lexemes rule [] = [] := rfl

theorem lexemes_cons_of_some {rule : Rule} {c : Char} {cs : List Char} {n : Nat}
    (h : rule c cs = some n) :
    lexemes rule (c :: cs) = (c :: cs.take n) :: lexemes rule (cs.drop n) := by
  rw [lexemes, pieces_cons_of_some h, List.filterMap_cons_some (Piece.lexeme?_lexeme _)]
  rfl

theorem lexemes_cons_of_none {rule : Rule} {c : Char} {cs : List Char} (h : rule c cs = none) :
    lexemes rule (c :: cs) = lexemes rule cs := by
  rw [lexemes, pieces_cons_of_none h, List.filterMap_cons_none (Piece.lexeme?_gap c)]
  rfl

/-- A lexeme is what the rule found somewhere. -/
theorem exists_rule_of_mem_lexemes {rule : Rule} {cs l : List Char} (h : l ∈ lexemes rule cs) :
    ∃ c ds n, rule c ds = some n ∧ l = c :: ds.take n := by
  induction cs using pieces_induction rule with
  | nil => cases h
  | lexeme c cs n hr ih =>
    rw [lexemes_cons_of_some hr] at h
    rcases List.mem_cons.1 h with rfl | h
    · exact ⟨c, cs, n, hr, rfl⟩
    · exact ih h
  | gap c cs hr ih =>
    rw [lexemes_cons_of_none hr] at h
    exact ih h

/-! ## Rules -/

/-- A quoted stretch: from a single quote through the next one. A quote that none follows
opens nothing. -/
def quoted : Rule := fun c cs =>
  if c = '\'' ∧ '\'' ∈ cs then some ((cs.takeWhile (· ≠ '\'')).length + 1) else none

theorem quoted_of_ne {c : Char} (h : c ≠ '\'') (cs : List Char) : quoted c cs = none := by
  simp [quoted, h]

/-- The characters up to a first quote. -/
theorem takeWhile_append_quote {v : List Char} (hv : '\'' ∉ v) (w : List Char) :
    (v ++ '\'' :: w).takeWhile (· ≠ '\'') = v := by
  have hall : ∀ c ∈ v, decide (c ≠ '\'') = true := by
    intro c hc
    exact decide_eq_true fun he => hv (he ▸ hc)
  rw [List.takeWhile_append_of_pos hall, List.takeWhile_cons_of_neg (by simp), List.append_nil]

/-- A quote opens a stretch exactly where another one follows, and the first of those closes
it. -/
theorem quoted_eq_some_iff {cs : List Char} {n : Nat} :
    quoted '\'' cs = some n ↔ ∃ v w, '\'' ∉ v ∧ cs = v ++ '\'' :: w ∧ n = v.length + 1 := by
  rw [quoted]
  constructor
  · intro h
    split at h
    · next hq =>
      obtain ⟨v, w, rfl, hv⟩ := List.eq_append_cons_of_mem hq.2
      rw [takeWhile_append_quote hv] at h
      exact ⟨v, w, hv, rfl, (Option.some.inj h).symm⟩
    · cases h
  · rintro ⟨v, w, hv, rfl, rfl⟩
    rw [if_pos ⟨rfl, by simp⟩, takeWhile_append_quote hv]

theorem quoted_eq_none_iff {cs : List Char} : quoted '\'' cs = none ↔ '\'' ∉ cs := by
  simp [quoted]

end DecisionTable.Text
