import DecisionTable.Numeral.Grammar
import DecisionTable.Proofs.Numeral.Digits
import DecisionTable.Proofs.Text.Locality
import DecisionTable.Proofs.Text.Trimming

/-!
# Reading numerals is the grammar

A text is read as a decimal if and only if it is one (`Decimal.isSome_read?_iff`). So a word has a
canonical numeral if and only if it is a whole number or a float word (`isSome_canonical?_iff`).
No word is both, as a float word has a mark among its characters.
-/

namespace DecisionTable.Numeral

open Text

variable {c : Char} {cs ds rest : List Char}

/-! ## Whole numbers -/

theorem isWhole_iff_all : IsWhole cs ↔ cs ≠ [] ∧ cs.all Char.isDigit = true := by
  rw [IsWhole, List.all_eq_true]

instance : Decidable (IsWhole cs) := decidable_of_iff _ isWhole_iff_all.symm

theorem isWhole_digits (n : Nat) : IsWhole (digits n) :=
  ⟨Nat.toDigits_ne_nil, fun _ => Nat.isDigit_of_mem_toDigits (by decide) (by decide)⟩

/-! ## Decimals -/

namespace IsScale

theorem isDigit_of_head? (h : IsScale cs) (hc : cs.head? = some c) : c.isDigit = false := by
  cases h with
  | nil => cases hc
  | exponent hmark _ =>
    obtain rfl := Option.some.inj hc
    rcases hmark with rfl | rfl <;> decide

/-- An exponent does not begin with a point. -/
theorem readFraction_eq (h : IsScale cs) : Decimal.readFraction cs = ([], cs) := by
  cases h with
  | nil => rfl
  | exponent hmark _ => rcases hmark with rfl | rfl <;> rfl

end IsScale

namespace Decimal

theorem readExponent_of_isWhole (h : IsWhole cs) : (readExponent cs).isSome = true := by
  unfold readExponent
  split
  · exact absurd (h.2 '-' List.mem_cons_self) (by decide)
  · exact absurd (h.2 '+' List.mem_cons_self) (by decide)
  · exact Option.isSome_ite.2 (isWhole_iff_all.1 h)

theorem isSome_readExponent_iff : (readExponent cs).isSome = true ↔ IsExponent cs := by
  constructor
  · intro h
    unfold readExponent at h
    split at h
    · exact .signed (.inr rfl) (isWhole_iff_all.2 (Option.isSome_ite.1 h))
    · exact .signed (.inl rfl) (isWhole_iff_all.2 (Option.isSome_ite.1 h))
    · exact .unsigned (isWhole_iff_all.2 (Option.isSome_ite.1 h))
  · intro h
    cases h with
    | unsigned hwhole => exact readExponent_of_isWhole hwhole
    | signed hsign hwhole =>
      have hall := isWhole_iff_all.1 hwhole
      rcases hsign with rfl | rfl
      · exact Option.isSome_ite.2 hall
      · exact Option.isSome_ite.2 hall

theorem isSome_readScale_iff : (readScale cs).isSome = true ↔ IsScale cs := by
  cases cs with
  | nil => exact ⟨fun _ => .nil, fun _ => rfl⟩
  | cons c cs =>
    rw [readScale]
    constructor
    · intro h
      split at h
      · next hmark => exact .exponent hmark (isSome_readExponent_iff.1 h)
      · cases h
    · intro h
      cases h with
      | exponent hmark hexponent =>
        rw [if_pos hmark]
        exact isSome_readExponent_iff.2 hexponent

/-- Digits are read up to the first character that is none. -/
theorem span_digits (hds : ∀ c ∈ ds, c.isDigit = true)
    (hrest : ∀ c, rest.head? = some c → c.isDigit = false) :
    (ds ++ rest).takeWhile Char.isDigit = ds ∧ (ds ++ rest).dropWhile Char.isDigit = rest :=
  ⟨takeWhile_append_of_all hds hrest, stripLeft_append hds hrest⟩

theorem readFraction_cases (cs : List Char) :
    (∃ ds, cs = '.' :: ds) ∨ readFraction cs = ([], cs) := by
  unfold readFraction
  split
  · next ds => exact .inl ⟨ds, rfl⟩
  · exact .inr rfl

/-- A scale has to follow the digits, after the point and the fraction if there is a point. -/
theorem isSome_read?_append (hds : ∀ c ∈ ds, c.isDigit = true)
    (hrest : ∀ c, rest.head? = some c → c.isDigit = false) :
    (read? (ds ++ rest)).isSome = true ↔
      (ds ≠ [] ∨ (readFraction rest).1 ≠ []) ∧ IsScale (readFraction rest).2 := by
  obtain ⟨htake, hdrop⟩ := span_digits hds hrest
  rw [read?, htake, hdrop]
  simp only
  split
  · next hnone => simp [hnone]
  · next hsome =>
    rw [not_and_or] at hsome
    rw [Option.isSome_map, isSome_readScale_iff]
    exact ⟨fun h => ⟨hsome, h⟩, And.right⟩

theorem isDecimal_of_read? (h : (read? cs).isSome = true) : IsDecimal cs := by
  -- the text is cut where its first digits end, and behind a point once more
  have hsplit : cs.takeWhile Char.isDigit ++ cs.dropWhile Char.isDigit = cs :=
    List.takeWhile_append_dropWhile
  have hds : ∀ c ∈ cs.takeWhile Char.isDigit, c.isDigit = true := fun _ => List.mem_takeWhile_imp
  have hend : ∀ c, (cs.dropWhile Char.isDigit).head? = some c → c.isDigit = false :=
    fun _ => head?_stripLeft
  rw [← hsplit] at h ⊢
  obtain ⟨hne, hscale⟩ := (isSome_read?_append hds hend).1 h
  rcases readFraction_cases (cs.dropWhile Char.isDigit) with ⟨rest, hrest⟩ | hnone
  · have hfraction : ∀ c ∈ rest.takeWhile Char.isDigit, c.isDigit = true :=
      fun _ => List.mem_takeWhile_imp
    rw [hrest] at hne hscale ⊢
    have hdecimal := IsDecimal.point hds hfraction hne hscale
    rwa [readFraction, List.takeWhile_append_dropWhile] at hdecimal
  · rw [hnone] at hne hscale
    exact .whole ⟨hne.resolve_right (absurd rfl), hds⟩ hscale

theorem isSome_read?_of_isDecimal (h : IsDecimal cs) : (read? cs).isSome = true := by
  cases h with
  | whole hds hscale =>
    rw [isSome_read?_append hds.2 fun _ => hscale.isDigit_of_head?, hscale.readFraction_eq]
    exact ⟨.inl hds.1, hscale⟩
  | point hds hfraction hne hscale =>
    obtain ⟨htake, hdrop⟩ := span_digits hfraction fun _ => hscale.isDigit_of_head?
    rw [isSome_read?_append hds (by simp), readFraction, htake, hdrop]
    exact ⟨hne, hscale⟩

/-- Reading accepts the decimals and nothing else. -/
theorem isSome_read?_iff : (read? cs).isSome = true ↔ IsDecimal cs :=
  ⟨isDecimal_of_read?, isSome_read?_of_isDecimal⟩

end Decimal

instance : Decidable (IsDecimal cs) := decidable_of_iff _ Decimal.isSome_read?_iff

/-! ## The three kinds of words -/

theorem hasDecimalMark_iff : hasDecimalMark cs = true ↔ ∃ c ∈ cs, c = '.' ∨ c = 'e' ∨ c = 'E' := by
  simp [hasDecimalMark, or_assoc]

theorem IsDecimal.exists_head (h : IsDecimal cs) :
    ∃ c, cs.head? = some c ∧ (c.isDigit = true ∨ c = '.') := by
  cases h with
  | whole hds _ =>
    obtain ⟨c, ds, rfl⟩ := List.exists_cons_of_ne_nil hds.1
    exact ⟨c, rfl, .inl (hds.2 c List.mem_cons_self)⟩
  | @point ds fraction scale hds _ _ _ =>
    cases ds with
    | nil => exact ⟨'.', rfl, .inr rfl⟩
    | cons c ds => exact ⟨c, rfl, .inl (hds c List.mem_cons_self)⟩

theorem not_isWhole_of_hasDecimalMark (h : hasDecimalMark cs = true) : ¬ IsWhole cs := by
  intro hwhole
  obtain ⟨c, hc, hmark⟩ := hasDecimalMark_iff.1 h
  have hdigit := hwhole.2 c hc
  rcases hmark with rfl | rfl | rfl <;> cases hdigit

/-- A float word is a decimal with a point or an exponent. -/
theorem isFloatWord_iff : IsFloatWord cs ↔ IsDecimal cs ∧ hasDecimalMark cs = true := by
  constructor
  · intro h
    exact ⟨h.decimal, h.marked⟩
  · rintro ⟨hdecimal, hmarked⟩
    exact ⟨hdecimal.exists_head, hmarked, not_isWhole_of_hasDecimalMark hmarked, hdecimal⟩

instance : Decidable (IsFloatWord cs) := decidable_of_iff _ isFloatWord_iff.symm

theorem canonical?_of_isFloatWord (h : IsFloatWord cs) :
    ∃ d, Decimal.read? cs = some d ∧ canonical? cs = some d.nearest.text := by
  obtain ⟨d, hd⟩ := Option.isSome_iff_exists.1 (Decimal.isSome_read?_of_isDecimal h.decimal)
  obtain ⟨c, hc, hfirst⟩ := h.head
  obtain ⟨rest, rfl⟩ := List.head?_eq_some_iff.1 hc
  have hnumber : (!(c.isDigit || c = '.')) = false := by
    rwa [Bool.not_eq_false', Bool.or_eq_true, decide_eq_true_iff]
  have hall : ¬ (c :: rest).all Char.isDigit = true := fun hall =>
    h.notWhole (isWhole_iff_all.2 ⟨List.cons_ne_nil c rest, hall⟩)
  refine ⟨d, hd, ?_⟩
  rw [canonical?, hnumber, h.marked, hd, if_neg Bool.false_ne_true, if_neg hall, Bool.not_true,
    if_neg Bool.false_ne_true, Option.map_some]

theorem isWhole_or_isFloatWord_of_canonical? (h : canonical? cs = some ds) :
    IsWhole cs ∨ IsFloatWord cs := by
  cases cs with
  | nil => cases h
  | cons c cs =>
    rw [canonical?] at h
    split at h
    · cases h
    split at h
    · next hall => exact .inl (isWhole_iff_all.2 ⟨List.cons_ne_nil c cs, hall⟩)
    split at h
    · cases h
    · next hmark =>
      obtain ⟨d, hd, -⟩ := Option.map_eq_some_iff.1 h
      have hdecimal := Decimal.isDecimal_of_read? (Option.isSome_of_eq_some hd)
      have hmarked : hasDecimalMark (c :: cs) = true := by simpa using hmark
      exact .inr (isFloatWord_iff.2 ⟨hdecimal, hmarked⟩)

/-- Whole numbers and float words have canonical numerals, and no other words have. -/
theorem isSome_canonical?_iff :
    (canonical? cs).isSome = true ↔ IsWhole cs ∨ IsFloatWord cs := by
  constructor
  · intro h
    obtain ⟨ds, hds⟩ := Option.isSome_iff_exists.1 h
    exact isWhole_or_isFloatWord_of_canonical? hds
  · rintro (h | h)
    · exact Option.isSome_of_eq_some (canonical?_eq_digits h.1 h.2)
    · obtain ⟨d, -, hcanonical⟩ := canonical?_of_isFloatWord h
      exact Option.isSome_of_eq_some hcanonical

end DecisionTable.Numeral
