import Mathlib.Algebra.Group.Nat.Even
import Mathlib.Data.List.TakeWhile
import DecisionTable.Text.Pieces

/-!
# Cutting a text where it is joined

The pieces of two texts put together are the pieces of the first and then those of the second,
if no quote of the first is left to be paired with one of the second
(`Rule.PairsQuotes.pieces_append`). For a rule that takes quotes for the ends of quoted
stretches and for nothing else, the quotes of a text pair up from left to right, so an even
number of them leaves none over. All rules of that kind find the same quoted stretches
(`Rule.PairsQuotes.filter_lexemes`).
-/

namespace DecisionTable.Text

/-- What follows a text does not lengthen a stretch at its end, if it does not begin with a
character of that kind. -/
theorem takeWhile_append_of_head {p : Char → Bool} {rest : List Char}
    (h : ∀ d, rest.head? = some d → p d = false) (cs : List Char) :
    (cs ++ rest).takeWhile p = cs.takeWhile p := by
  have hrest : rest.takeWhile p = [] := by
    cases rest with
    | nil => rfl
    | cons d ds => exact List.takeWhile_cons_of_neg (by simp [h d rfl])
  rw [List.takeWhile_append, hrest, List.append_nil]
  split
  · next hlen => exact ((List.takeWhile_prefix p).eq_of_length hlen).symm
  · rfl

/-- A text all of one kind is the stretch, up to the first character of another kind. -/
theorem takeWhile_append_of_all {p : Char → Bool} {cs rest : List Char}
    (hcs : ∀ c ∈ cs, p c = true) (hrest : ∀ d, rest.head? = some d → p d = false) :
    (cs ++ rest).takeWhile p = cs := by
  rw [takeWhile_append_of_head hrest, List.takeWhile_eq_self_iff]
  exact hcs

/-- What follows a stretch is of another kind. -/
theorem head?_drop_takeWhile {p : Char → Bool} {cs : List Char} {d : Char}
    (h : (cs.drop (cs.takeWhile p).length).head? = some d) : p d = false := by
  have hsplit : (cs.takeWhile p ++ cs.dropWhile p).drop (cs.takeWhile p).length =
      cs.dropWhile p := List.drop_left
  rw [List.takeWhile_append_dropWhile] at hsplit
  have hnot := List.head?_dropWhile_not p cs
  rw [hsplit] at h
  rwa [h] at hnot

theorem takeWhile_eq_nil_iff_head? {p : Char → Bool} {cs : List Char} :
    cs.takeWhile p = [] ↔ ∀ d, cs.head? = some d → p d = false := by
  cases cs with
  | nil => simp
  | cons d ds => simp

/-- A stretch that does not reach into what follows the text only depends on the kind of the
character there. -/
theorem takeWhile_append_congr {p : Char → Bool} {rest rest' cs : List Char}
    (hhead : rest'.head?.map p = rest.head?.map p)
    (hshort : ((cs ++ rest).takeWhile p).length ≤ cs.length) :
    (cs ++ rest').takeWhile p = (cs ++ rest).takeWhile p := by
  rw [List.takeWhile_append, List.takeWhile_append]
  split
  · next hall =>
    rw [List.takeWhile_append, if_pos hall, List.length_append] at hshort
    have hnil : rest.takeWhile p = [] := List.length_eq_zero_iff.1 (by omega)
    have hnil' : rest'.takeWhile p = [] := by
      rw [takeWhile_eq_nil_iff_head?] at hnil ⊢
      intro d hd
      rw [hd, Option.map_some, eq_comm, Option.map_eq_some_iff] at hhead
      obtain ⟨e, he, hkind⟩ := hhead
      rw [← hkind, hnil e he]
    rw [hnil, hnil']
  · rfl

/-! ## Quotes -/

/-- No quote of the text can be paired with one of what follows. -/
def QuotesApart (rest cs : List Char) : Prop := Even (cs.count '\'') ∨ '\'' ∉ rest

/-- A rule by which a quote opens a quoted stretch, closes one, or is a gap. -/
structure Rule.PairsQuotes (rule : Rule) : Prop where
  length_le : ∀ {c cs n}, rule c cs = some n → n ≤ cs.length
  quote_eq : ∀ cs, rule '\'' cs = quoted '\'' cs
  not_mem : ∀ {c cs n}, c ≠ '\'' → rule c cs = some n → '\'' ∉ cs.take n

theorem quoted_append_of_some {cs : List Char} {n : Nat} (h : quoted '\'' cs = some n)
    (rest : List Char) : quoted '\'' (cs ++ rest) = some n := by
  obtain ⟨v, w, hv, rfl, rfl⟩ := quoted_eq_some_iff.1 h
  exact quoted_eq_some_iff.2 ⟨v, w ++ rest, hv, by simp, rfl⟩

/-- A quote that stays open leaves an odd number of them, so none may follow. -/
theorem QuotesApart.quoted_eq_none {rest cs : List Char} (h : QuotesApart rest ('\'' :: cs))
    (hq : quoted '\'' cs = none) : quoted '\'' (cs ++ rest) = none := by
  rw [quoted_eq_none_iff] at hq
  have hcount : ('\'' :: cs).count '\'' = 1 := by simp [List.count_eq_zero.2 hq]
  have hrest : '\'' ∉ rest := by
    rcases h with h | h
    · rw [hcount] at h
      exact absurd h (by decide)
    · exact h
  rw [quoted_eq_none_iff, List.mem_append]
  exact fun hmem => hmem.elim hq hrest

namespace Rule.PairsQuotes

variable {rule : Rule} {rest : List Char} {c : Char} {cs : List Char} {n : Nat}

/-- A lexeme takes its quotes in pairs. -/
theorem apart_drop (hrule : rule.PairsQuotes) (hr : rule c cs = some n)
    (h : QuotesApart rest (c :: cs)) : QuotesApart rest (cs.drop n) := by
  refine h.imp_left fun heven => ?_
  by_cases hc : c = '\''
  · subst hc
    rw [hrule.quote_eq] at hr
    obtain ⟨v, w, hv, rfl, rfl⟩ := quoted_eq_some_iff.1 hr
    have hdrop : (v ++ '\'' :: w).drop (v.length + 1) = w := by simp
    have hcount : ('\'' :: (v ++ '\'' :: w)).count '\'' = w.count '\'' + 2 := by
      simp [List.count_eq_zero.2 hv]
    rw [hcount, Nat.even_add] at heven
    rw [hdrop]
    exact heven.2 (by decide)
  · have htake : (cs.take n).count '\'' = 0 := List.count_eq_zero.2 (hrule.not_mem hc hr)
    have hcount : (c :: cs).count '\'' = (cs.drop n).count '\'' := by
      rw [List.count_cons_of_ne hc, ← List.take_append_drop n cs, List.count_append, htake,
        Nat.zero_add, List.take_append_drop]
    rwa [hcount] at heven

/-- A gap is no quote, or nothing that follows could be its partner. -/
theorem apart_gap (hrule : rule.PairsQuotes) (hr : rule c cs = none)
    (h : QuotesApart rest (c :: cs)) : QuotesApart rest cs := by
  by_cases hc : c = '\''
  · subst hc
    rw [hrule.quote_eq, quoted_eq_none_iff] at hr
    exact .inl (by simp [List.count_eq_zero.2 hr])
  · exact h.imp_left fun heven => by rwa [List.count_cons_of_ne hc] at heven

/-- The pieces of two texts put together are those of the one and then those of the other, if
the rule finds at each character of the first what it finds without the second. -/
theorem pieces_append (hrule : rule.PairsQuotes)
    (hlocal : ∀ c cs, c ≠ '\'' → rule c (cs ++ rest) = rule c cs) (h : QuotesApart rest cs) :
    pieces rule (cs ++ rest) = pieces rule cs ++ pieces rule rest := by
  induction cs using pieces_induction rule with
  | nil => rfl
  | lexeme c cs n hr ih =>
    have hle := hrule.length_le hr
    have hjoined : rule c (cs ++ rest) = some n := by
      by_cases hc : c = '\''
      · subst hc
        rw [hrule.quote_eq] at hr ⊢
        exact quoted_append_of_some hr rest
      · rw [hlocal c cs hc, hr]
    rw [List.cons_append, pieces_cons_of_some hjoined, pieces_cons_of_some hr,
      List.take_append_of_le_length hle, List.drop_append_of_le_length hle,
      ih (hrule.apart_drop hr h), List.cons_append]
  | gap c cs hr ih =>
    have hjoined : rule c (cs ++ rest) = none := by
      by_cases hc : c = '\''
      · subst hc
        rw [hrule.quote_eq] at hr ⊢
        exact h.quoted_eq_none hr
      · rw [hlocal c cs hc, hr]
    rw [List.cons_append, pieces_cons_of_none hjoined, pieces_cons_of_none hr,
      ih (hrule.apart_gap hr h), List.cons_append]

end Rule.PairsQuotes

/-! ## Another text in the place of the second one -/

/-- What follows a text has a say in a quoted stretch of it only by having a quote or none. -/
theorem quoted_append_congr {rest rest' cs : List Char} (hquote : '\'' ∈ rest' ↔ '\'' ∈ rest)
    (hshort : ∀ n, quoted '\'' (cs ++ rest) = some n → n ≤ cs.length) :
    quoted '\'' (cs ++ rest') = quoted '\'' (cs ++ rest) := by
  cases hcs : quoted '\'' cs with
  | some n => rw [quoted_append_of_some hcs, quoted_append_of_some hcs]
  | none =>
    rw [quoted_eq_none_iff] at hcs
    have hrest : '\'' ∉ rest := by
      intro hmem
      -- a stretch that is closed in the rest would be too long
      obtain ⟨v, w, rfl, hv⟩ := List.eq_append_cons_of_mem hmem
      have hlong : quoted '\'' (cs ++ (v ++ '\'' :: w)) = some ((cs ++ v).length + 1) :=
        quoted_eq_some_iff.2 ⟨cs ++ v, w, by simp [hcs, hv], by simp, rfl⟩
      have hle := hshort _ hlong
      rw [List.length_append] at hle
      omega
    have hnone : quoted '\'' (cs ++ rest) = none := quoted_eq_none_iff.2 (by simp [hcs, hrest])
    rw [hnone, quoted_eq_none_iff]
    simp [hcs, hquote, hrest]

/-- Let a text be cut where it is joined to a second one. Then so it is with another text in the
place of the second one, if no lexeme that ends before can tell the two apart. -/
theorem Rule.PairsQuotes.pieces_append_congr {rule : Rule} (hrule : rule.PairsQuotes)
    {rest rest' : List Char}
    (hlocal : ∀ c cs, c ≠ '\'' → (∀ n, rule c (cs ++ rest) = some n → n ≤ cs.length) →
      rule c (cs ++ rest') = rule c (cs ++ rest))
    (hquote : '\'' ∈ rest' ↔ '\'' ∈ rest) {ps : List Piece}
    (h : pieces rule (ps.flatMap Piece.text ++ rest) = ps ++ pieces rule rest) :
    pieces rule (ps.flatMap Piece.text ++ rest') = ps ++ pieces rule rest' := by
  have hcongr : ∀ c cs, (∀ n, rule c (cs ++ rest) = some n → n ≤ cs.length) →
      rule c (cs ++ rest') = rule c (cs ++ rest) := by
    intro c cs hshort
    by_cases hc : c = '\''
    · subst hc
      simp only [hrule.quote_eq] at hshort ⊢
      exact quoted_append_congr hquote hshort
    · exact hlocal c cs hc hshort
  induction ps with
  | nil => rfl
  | cons p ps ih =>
    rw [List.flatMap_cons, List.append_assoc, List.cons_append] at h ⊢
    rcases pieces_eq_cons_cases h with ⟨c, ds, hcs, hr, rfl, hps⟩ | ⟨c, ds, n, hcs, hr, rfl, hps⟩
    · obtain rfl : ps.flatMap Piece.text ++ rest = ds := (List.cons.inj hcs).2
      have hr' : rule c (ps.flatMap Piece.text ++ rest') = none := by
        rw [hcongr c _ fun n hn => ?_, hr]
        rw [hr] at hn
        cases hn
      rw [Piece.text_gap, List.singleton_append, pieces_cons_of_none hr', ih hps]
    · -- the lexeme ends before the rest, so the rest has no say in it
      rw [Piece.text_lexeme, List.cons_append] at hcs ⊢
      have hds := (List.cons.inj hcs).2
      have hlength : (ds.take n).length = n := List.length_take_of_le (hrule.length_le hr)
      have hdrop : ds.drop n = ps.flatMap Piece.text ++ rest := by
        conv => lhs; rw [← hds]
        exact List.drop_left' hlength
      generalize ds.take n = lexeme at *
      subst hds
      have hr' : rule c (lexeme ++ (ps.flatMap Piece.text ++ rest')) = some n := by
        rw [← List.append_assoc] at hr ⊢
        rw [hcongr c _ fun m hm => ?_, hr]
        rw [hr] at hm
        rw [List.length_append, ← Option.some.inj hm, hlength]
        exact Nat.le_add_right _ _
      rw [pieces_cons_of_some hr', List.take_left' hlength, List.drop_left' hlength,
        ih (hdrop ▸ hps)]

/-! ## Quoted stretches -/

theorem lexemes_quoted_append {cs : List Char} (h : '\'' ∉ cs) (rest : List Char) :
    lexemes quoted (cs ++ rest) = lexemes quoted rest := by
  induction cs with
  | nil => rfl
  | cons c cs ih =>
    rw [List.mem_cons, not_or] at h
    rw [List.cons_append, lexemes_cons_of_none (quoted_of_ne (Ne.symm h.1) _), ih h.2]

/-- Whatever else a rule finds, its quoted stretches are those of the text. -/
theorem Rule.PairsQuotes.filter_lexemes {rule : Rule} (hrule : rule.PairsQuotes)
    (cs : List Char) :
    (lexemes rule cs).filter (fun l => l.head? = some '\'') = lexemes quoted cs := by
  induction cs using pieces_induction rule with
  | nil => rfl
  | lexeme c cs n hr ih =>
    rw [lexemes_cons_of_some hr]
    by_cases hc : c = '\''
    · subst hc
      rw [hrule.quote_eq] at hr
      rw [List.filter_cons_of_pos (by simp), ih, lexemes_cons_of_some hr]
    · -- the lexeme has no quote, so no stretch begins in it
      rw [List.filter_cons_of_neg (by simpa using hc), ih,
        lexemes_cons_of_none (quoted_of_ne hc cs)]
      conv => rhs; rw [← List.take_append_drop n cs]
      rw [lexemes_quoted_append (hrule.not_mem hc hr)]
  | gap c cs hr ih =>
    have hquoted : quoted c cs = none := by
      by_cases hc : c = '\''
      · subst hc
        rwa [hrule.quote_eq] at hr
      · exact quoted_of_ne hc cs
    rw [lexemes_cons_of_none hr, ih, lexemes_cons_of_none hquoted]

end DecisionTable.Text
