import DecisionTable.Text.Word

/-!
# Word characters and blanks

No word character is blank (`isBlank_of_isWord`), so trimming leaves words whole. Beyond ASCII
the two tables have no code point in common; within ASCII word characters are few.
-/

namespace DecisionTable.Text

variable {c : Char}

/-! ## Within ASCII -/

theorem toNat_of_isAlphanum_or (h : c.isAlphanum ∨ c = '_') :
    48 ≤ c.toNat ∧ c.toNat ≤ 57 ∨ 65 ≤ c.toNat ∧ c.toNat ≤ 90 ∨ c.toNat = 95 ∨
      97 ≤ c.toNat ∧ c.toNat ≤ 122 := by
  rcases h with h | rfl
  · unfold Char.isAlphanum Char.isAlpha Char.isUpper Char.isLower Char.isDigit at h
    simp only [Bool.or_eq_true, Bool.and_eq_true, decide_eq_true_eq, ge_iff_le,
      UInt32.le_iff_toNat_le] at h
    change ((65 ≤ c.toNat ∧ c.toNat ≤ 90) ∨ (97 ≤ c.toNat ∧ c.toNat ≤ 122)) ∨
      (48 ≤ c.toNat ∧ c.toNat ≤ 57) at h
    omega
  · decide

theorem isWord_of_isAlphanum_or (h : c.isAlphanum ∨ c = '_') : isWord c = true := by
  have hrange := toNat_of_isAlphanum_or h
  have hlt : c.toNat < 0x80 := by omega
  simpa [isWord_of_lt hlt] using h

theorem isWord_of_isDigit (h : c.isDigit = true) : isWord c = true := by
  refine isWord_of_isAlphanum_or (.inl ?_)
  rw [Char.isAlphanum, h, Bool.or_true]

/-- Changing the case of a letter makes no word character of any other. -/
theorem isWord_of_isWord_toLower (h : isWord c.toLower = true) : isWord c = true := by
  unfold Char.toLower at h
  split at h
  · next hletter =>
    have hupper : c.isUpper = true := by
      unfold Char.isUpper
      exact decide_eq_true hletter
    have halpha : c.isAlphanum = true := by
      unfold Char.isAlphanum Char.isAlpha
      rw [hupper, Bool.true_or, Bool.true_or]
    exact isWord_of_isAlphanum_or (.inl halpha)
  · exact h

/-! ## Tables -/

/-- Ranges that have no code point in common. -/
def disjointRanges (rs ss : List (Nat × Nat)) : Bool :=
  rs.all fun r => ss.all fun s => r.2 < s.1 || s.2 < r.1

theorem not_inRanges_of_disjointRanges {rs ss : List (Nat × Nat)}
    (h : disjointRanges rs ss = true) {n : Nat} (hn : inRanges rs n = true) :
    inRanges ss n = false := by
  rw [← Bool.not_eq_true]
  intro hs
  simp only [inRanges, List.any_eq_true, Bool.and_eq_true, decide_eq_true_eq] at hn hs
  obtain ⟨r, hr, hrn⟩ := hn
  obtain ⟨s, hs, hsn⟩ := hs
  simp only [disjointRanges, List.all_eq_true, Bool.or_eq_true, decide_eq_true_eq] at h
  have hrs := h r hr s hs
  omega

theorem disjointRanges_blankRanges : disjointRanges wordRanges blankRanges = true := by
  decide +kernel

/-- No word character is blank. -/
theorem isBlank_of_isWord (h : isWord c = true) : isBlank c = false := by
  by_cases hlt : c.toNat < 0x80
  · rw [isWord_of_lt hlt] at h
    have hrange := toNat_of_isAlphanum_or (by simpa using h)
    rw [← Bool.not_eq_true]
    intro hblank
    simp only [isBlank, inRanges, blankRanges, List.any_cons, List.any_nil, Bool.or_eq_true,
      Bool.and_eq_true, decide_eq_true_eq, Bool.or_false] at hblank
    omega
  · rw [isWord, if_neg hlt] at h
    exact not_inRanges_of_disjointRanges disjointRanges_blankRanges h

end DecisionTable.Text
