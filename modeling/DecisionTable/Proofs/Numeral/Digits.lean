import DecisionTable.Numeral.Canonical

/-!
# Whole numbers in canonical form

The canonical numeral of a word that has nothing but digits is the number that they denote, written
without leading zeros (`canonical_ofList`). No number is too large for it, and no two have the same
digits (`digits_inj`), so two such words become one just if they denote one number.
-/

namespace DecisionTable.Numeral

variable {c : Char} {ds : List Char} {m n : Nat}

/-! ## Digits -/

theorem digitValue_lt (h : c.isDigit = true) : digitValue c < 10 := by
  have hnine : c.toNat ≤ 57 := (Char.isDigit_iff_toNat.1 h).2
  exact Nat.sub_lt_left_of_lt_add (Char.isDigit_iff_toNat.1 h).1 (Nat.lt_succ_of_le hnine)

theorem digitChar_digitValue (h : c.isDigit = true) : (digitValue c).digitChar = c := by
  rw [← Char.toNat_inj, Nat.toNat_digitChar_of_lt_ten (digitValue_lt h)]
  exact Nat.add_sub_of_le (Char.isDigit_iff_toNat.1 h).1

/-- The digits of a number denote it. -/
@[simp] theorem digitsValue_digits (n : Nat) : digitsValue (digits n) = n :=
  Nat.ofDigitChars_ten_toDigits

theorem digits_inj : digits m = digits n ↔ m = n := by
  constructor
  · intro h
    rw [← digitsValue_digits m, h, digitsValue_digits]
  · exact congrArg digits

/-- A digit is written as it is. -/
theorem digits_digitValue (h : c.isDigit = true) : digits (digitValue c) = [c] := by
  rw [digits, Nat.toDigits_of_lt_base (digitValue_lt h), digitChar_digitValue h]

/-- Digits behind those of a number other than zero are the digits of a number. -/
theorem digits_append (hn : 0 < n) (h : ∀ c ∈ ds, c.isDigit = true) :
    digits n ++ ds = digits (Nat.ofDigitChars 10 ds n) := by
  induction ds generalizing n with
  | nil => rw [List.append_nil, Nat.ofDigitChars_nil]
  | cons c ds ih =>
    rw [List.forall_mem_cons] at h
    have hnext : digits n ++ [c] = digits (10 * n + digitValue c) := by
      rw [← digits_digitValue h.1]
      exact Nat.toDigits_append_toDigits (by decide) hn (digitValue_lt h.1)
    have hpos : 0 < 10 * n + digitValue c := by omega
    rw [List.append_cons, hnext, ih hpos h.2, Nat.ofDigitChars_cons]
    rfl

/-! ## Leading zeros -/

theorem withoutLeadingZeros_eq_digits (h : ∀ c ∈ ds, c.isDigit = true) :
    withoutLeadingZeros ds = digits (digitsValue ds) := by
  induction ds with
  | nil => rfl
  | cons c ds ih =>
    rw [List.forall_mem_cons] at h
    by_cases hc : c = '0'
    · subst hc
      exact ih h.2
    · -- the first digit that stays is the first digit of the number
      have hpos : 0 < digitValue c := by
        rw [Nat.pos_iff_ne_zero]
        intro hzero
        have hchar := digitChar_digitValue h.1
        rw [hzero] at hchar
        exact hc hchar.symm
      have hdigits := digits_append hpos h.2
      rw [digits_digitValue h.1] at hdigits
      calc withoutLeadingZeros (c :: ds)
        _ = c :: ds := by
          rw [withoutLeadingZeros, List.dropWhile_cons_of_neg (by simpa using hc)]
          exact if_neg (List.cons_ne_nil c ds)
        _ = digits (Nat.ofDigitChars 10 ds (digitValue c)) := hdigits
        _ = digits (digitsValue (c :: ds)) := by
          rw [digitsValue, List.foldl_cons, Nat.mul_zero, Nat.zero_add]
          rfl

/-- Digits stand for their number, written without leading zeros. -/
theorem canonical?_eq_digits (hne : ds ≠ []) (h : ∀ c ∈ ds, c.isDigit = true) :
    canonical? ds = some (digits (digitsValue ds)) := by
  cases ds with
  | nil => exact absurd rfl hne
  | cons c cs =>
    have hfirst : c.isDigit = true := h c List.mem_cons_self
    have hall : (c :: cs).all Char.isDigit = true := List.all_eq_true.2 h
    rw [canonical?, hfirst, Bool.true_or, Bool.not_true, if_neg Bool.false_ne_true, if_pos hall,
      withoutLeadingZeros_eq_digits h]

theorem canonical_ofList (hne : ds ≠ []) (h : ∀ c ∈ ds, c.isDigit = true) :
    canonical (.ofList ds) = .ofList (digits (digitsValue ds)) := by
  rw [canonical, String.toList_ofList, canonical?_eq_digits hne h]

end DecisionTable.Numeral
