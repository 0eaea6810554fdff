import DecisionTable.Numeral.Canonical

/-!
# The characters of canonical numerals

A canonical numeral is written with digits, a point, the mark and the sign of an exponent, or
is `inf`: `isNumeral_of_mem_canonical?`.
-/

namespace DecisionTable.Numeral

/-- Whether a character may stand in a canonical numeral. -/
def isNumeral (c : Char) : Bool := c.isDigit || ['.', 'e', '-', 'i', 'n', 'f'].contains c

variable {c : Char}

theorem isNumeral_of_isDigit (h : c.isDigit = true) : isNumeral c = true := by
  simp [isNumeral, h]

theorem isNumeral_of_mem_digits {n : Nat} (h : c ∈ digits n) : isNumeral c = true :=
  isNumeral_of_isDigit (Nat.isDigit_of_mem_toDigits (by decide) (by decide) h)

theorem mem_digits_of_mem_significant {d : Decimal} (h : c ∈ d.significant.1) :
    c ∈ digits d.significand := by
  rw [Decimal.significant, List.mem_reverse] at h
  exact List.mem_reverse.1 ((List.dropWhile_suffix _).subset h)

section Layout

variable {ds : List Char} {point : Int}

theorem isNumeral_of_mem_replicate {n : Nat} (h : c ∈ List.replicate n '0') :
    isNumeral c = true := by
  rw [List.eq_of_mem_replicate h]
  decide

/-- Digits, or a part that stands in for no digits, are characters of numerals. -/
theorem isNumeral_of_mem_ite {fraction other : List Char} {p : Prop} [Decidable p]
    (hother : other.all isNumeral = true) (h : ∀ d ∈ fraction, isNumeral d = true)
    (hc : c ∈ if p then other else fraction) : isNumeral c = true := by
  split at hc
  · exact List.all_eq_true.1 hother c hc
  · exact h c hc

theorem isNumeral_of_mem_positional (h : ∀ d ∈ ds, isNumeral d = true)
    (hc : c ∈ positional ds point) : isNumeral c = true := by
  rw [positional] at hc
  split at hc
  · simp only [List.cons_append, List.mem_cons, List.mem_append] at hc
    rcases hc with rfl | rfl | hc | hc
    · decide
    · decide
    · exact isNumeral_of_mem_replicate hc
    · exact h c hc
  · simp only [List.mem_append, List.mem_cons] at hc
    rcases hc with (hc | hc) | rfl | hc
    · exact h c (List.mem_of_mem_take hc)
    · exact isNumeral_of_mem_replicate hc
    · decide
    · exact isNumeral_of_mem_ite (by decide) (fun d hd => h d (List.mem_of_mem_drop hd)) hc

theorem isNumeral_of_mem_signed {n : Int} (hc : c ∈ signed n) : isNumeral c = true := by
  rw [signed] at hc
  split at hc
  · rcases List.mem_cons.1 hc with rfl | hc
    · decide
    · exact isNumeral_of_mem_digits hc
  · exact isNumeral_of_mem_digits hc

theorem isNumeral_of_mem_scientific (h : ∀ d ∈ ds, isNumeral d = true)
    (hc : c ∈ scientific ds point) : isNumeral c = true := by
  simp only [scientific, List.mem_append, List.mem_cons] at hc
  rcases hc with (hc | hc) | rfl | hc
  · exact h c (List.mem_of_mem_take hc)
  · refine isNumeral_of_mem_ite rfl (fun d hd => ?_) hc
    rcases List.mem_cons.1 hd with rfl | hd
    · decide
    · exact h d (List.mem_of_mem_drop hd)
  · decide
  · exact isNumeral_of_mem_signed hc

end Layout

theorem isNumeral_of_mem_text {b : Binary64} (hc : c ∈ b.text) : isNumeral c = true := by
  cases b with
  | infinite =>
    have hinf : ['i', 'n', 'f'].all isNumeral = true := by decide
    exact List.all_eq_true.1 hinf c hc
  | finite m q =>
    have hdigits : ∀ d ∈ (shortest m q).significant.1, isNumeral d = true :=
      fun d hd => isNumeral_of_mem_digits (mem_digits_of_mem_significant hd)
    rw [Binary64.text] at hc
    split at hc
    · have hzero : ['0', '.', '0'].all isNumeral = true := by decide
      exact List.all_eq_true.1 hzero c hc
    · simp only at hc
      split at hc
      · exact isNumeral_of_mem_positional hdigits hc
      · exact isNumeral_of_mem_scientific hdigits hc

/-- Nothing but characters of numerals stands in a canonical numeral. -/
theorem isNumeral_of_mem_canonical? {cs ds : List Char} (h : canonical? cs = some ds)
    (hc : c ∈ ds) : isNumeral c = true := by
  cases cs with
  | nil => cases h
  | cons b bs =>
    rw [canonical?] at h
    split at h
    · cases h
    split at h
    · next hall =>
      obtain rfl := Option.some.inj h
      simp only [withoutLeadingZeros] at hc
      refine isNumeral_of_mem_ite (by decide) (fun d hd => ?_) hc
      have hmem := (List.dropWhile_suffix _).subset hd
      exact isNumeral_of_isDigit (List.all_eq_true.1 hall d hmem)
    split at h
    · cases h
    · obtain ⟨d, -, rfl⟩ := Option.map_eq_some_iff.1 h
      exact isNumeral_of_mem_text hc

end DecisionTable.Numeral
