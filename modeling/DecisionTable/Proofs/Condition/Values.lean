import DecisionTable.Condition.Token
import DecisionTable.Proofs.Numeral.Grammar

/-!
# The values of words

A word stands for itself, unless it is a number. A whole number stands for what it denotes, so two
of them have one value just if they denote one number, and no word of another kind has that value;
the value, read again as a word, is its own value (`Token.value_word_laws`). Float words are left
out of this. They are rounded, and those that are too large for the binary format even become `inf`,
which is the value of a word that is no number.
-/

namespace DecisionTable.Token

open Numeral

variable {v w : String}

/-- The value of a whole number is the number without leading zeros. -/
theorem value_word_of_isWhole (h : IsWhole v.toList) :
    (word v).value = .ofList (digits (digitsValue v.toList)) := by
  rw [value, ← canonical_ofList h.1 h.2, String.ofList_toList]

/-- A word that is no number stands for itself. -/
theorem value_word_eq_self (hwhole : ¬ IsWhole v.toList) (hfloat : ¬ IsFloatWord v.toList) :
    (word v).value = v := by
  have hnone : canonical? v.toList = none := by
    rw [← Option.not_isSome_iff_eq_none, isSome_canonical?_iff, not_or]
    exact ⟨hwhole, hfloat⟩
  rw [value, canonical, hnone]

/-- Words become whole numbers just if they are whole numbers, float words apart. -/
theorem isWhole_value_word_iff (hfloat : ¬ IsFloatWord v.toList) :
    IsWhole (word v).value.toList ↔ IsWhole v.toList := by
  by_cases hwhole : IsWhole v.toList
  · rw [value_word_of_isWhole hwhole, String.toList_ofList]
    exact iff_of_true (isWhole_digits _) hwhole
  · rw [value_word_eq_self hwhole hfloat]

theorem value_word_eq_iff_of_isWhole (hv : IsWhole v.toList) (hw : IsWhole w.toList) :
    (word v).value = (word w).value ↔ digitsValue v.toList = digitsValue w.toList := by
  rw [value_word_of_isWhole hv, value_word_of_isWhole hw, String.ofList_inj, digits_inj]

/-- Words have one value just if they are equal or denote one whole number, float words apart. -/
theorem value_word_eq_iff (hv : ¬ IsFloatWord v.toList) (hw : ¬ IsFloatWord w.toList) :
    (word v).value = (word w).value ↔
      v = w ∨ (IsWhole v.toList ∧ IsWhole w.toList ∧
        digitsValue v.toList = digitsValue w.toList) := by
  constructor
  · intro h
    -- the value still tells of what kind the word was
    have hkind : IsWhole v.toList ↔ IsWhole w.toList := by
      rw [← isWhole_value_word_iff hv, h, isWhole_value_word_iff hw]
    by_cases hwhole : IsWhole v.toList
    · have hwhole' := hkind.1 hwhole
      exact .inr ⟨hwhole, hwhole', (value_word_eq_iff_of_isWhole hwhole hwhole').1 h⟩
    · rw [value_word_eq_self hwhole hv, value_word_eq_self (mt hkind.2 hwhole) hw] at h
      exact .inl h
  · rintro (rfl | ⟨hwhole, hwhole', hvalue⟩)
    · rfl
    · exact (value_word_eq_iff_of_isWhole hwhole hwhole').2 hvalue

/-- A value that is read again is the same value. -/
theorem value_word_value_word (hfloat : ¬ IsFloatWord v.toList) :
    (word (word v).value).value = (word v).value := by
  by_cases hwhole : IsWhole v.toList
  · have hagain := (isWhole_value_word_iff hfloat).2 hwhole
    rw [value_word_of_isWhole hagain, value_word_of_isWhole hwhole, String.toList_ofList,
      digitsValue_digits]
  · have hself := value_word_eq_self hwhole hfloat
    rw [hself, hself]

/-- Among the words that are no float words, of any length, two have one value just if they are
equal or denote one whole number. The value is no float word either, and is its own value. -/
theorem value_word_laws (hv : ¬ IsFloatWord v.toList) (hw : ¬ IsFloatWord w.toList) :
    ((word v).value = (word w).value ↔
      v = w ∨ (IsWhole v.toList ∧ IsWhole w.toList ∧
        digitsValue v.toList = digitsValue w.toList)) ∧
      ¬ IsFloatWord (word v).value.toList ∧ (word (word v).value).value = (word v).value := by
  refine ⟨value_word_eq_iff hv hw, ?_, value_word_value_word hv⟩
  intro hfloat
  by_cases hwhole : IsWhole v.toList
  · exact hfloat.notWhole ((isWhole_value_word_iff hv).2 hwhole)
  · rw [value_word_eq_self hwhole hv] at hfloat
    exact hv hfloat

/-- Two to the power of 64, with zeros before it and without. -/
theorem value_word_laws_wide :
    let v := "00018446744073709551616"
    let w := "18446744073709551616"
    ¬ IsFloatWord v.toList ∧ ¬ IsFloatWord w.toList ∧ (word v).value = (word w).value ∧
      ¬ IsFloatWord (word v).value.toList ∧ (word (word v).value).value = (word v).value := by
  intro v w
  have hv : ¬ IsFloatWord v.toList := by decide
  have hw : ¬ IsFloatWord w.toList := by decide
  obtain ⟨hiff, hplain, hagain⟩ := value_word_laws hv hw
  have hnumber : digitsValue v.toList = digitsValue w.toList := by decide
  exact ⟨hv, hw, hiff.2 (.inr ⟨by decide, by decide, hnumber⟩), hplain, hagain⟩

/-- A float word can have the value of a word that is none. -/
example : IsFloatWord "1e999".toList ∧ ¬ IsFloatWord "inf".toList ∧
    (word "1e999").value = (word "inf").value := by decide

end DecisionTable.Token
