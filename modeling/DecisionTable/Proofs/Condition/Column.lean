import DecisionTable.Condition.Printer
import DecisionTable.Proofs.Condition.Lexeme

/-!
# Columns and the names they are written with

A column is what stands after the last point of a name, so it has no point of its own. Written
by `columnText` it is a name again, whatever it looks like, and the same column.
-/

namespace DecisionTable

/-! ## After the last point -/

theorem unqualified_suffix (cs : List Char) : unqualified cs <:+ cs := by
  rw [unqualified, ← List.reverse_prefix, List.reverse_reverse]
  exact List.takeWhile_prefix _

theorem not_mem_unqualified (cs : List Char) : '.' ∉ unqualified cs := by
  rw [unqualified, List.mem_reverse]
  intro h
  exact absurd (List.mem_takeWhile_imp h) (by simp)

theorem unqualified_of_not_mem {cs : List Char} (h : '.' ∉ cs) : unqualified cs = cs := by
  have hall : ∀ c ∈ cs.reverse, decide (c ≠ '.') = true := by
    intro c hc
    exact decide_eq_true fun he => h (he ▸ List.mem_reverse.1 hc)
  rw [unqualified, List.takeWhile_eq_self_iff.2 hall, List.reverse_reverse]

theorem unqualified_append_cons (pre : List Char) {cs : List Char} (h : '.' ∉ cs) :
    unqualified (pre ++ '.' :: cs) = cs := by
  have hall : ∀ c ∈ cs.reverse, decide (c ≠ '.') = true := by
    intro c hc
    exact decide_eq_true fun he => h (he ▸ List.mem_reverse.1 hc)
  have hreverse : (pre ++ '.' :: cs).reverse = cs.reverse ++ '.' :: pre.reverse := by simp
  rw [unqualified, hreverse, List.takeWhile_append_of_pos hall,
    List.takeWhile_cons_of_neg (by simp), List.append_nil, List.reverse_reverse]

@[simp] theorem toList_columnOf (name : String) :
    (columnOf name).toList = unqualified name.toList := String.toList_ofList

/-! ## Names of columns -/

open Token Text

/-- Only at the front of a name can there be a character that is not part of names. -/
theorem Token.NameText.isName_of_mem_suffix {cs us : List Char} (h : NameText cs)
    (hsuffix : us <:+ cs) (hne : us ≠ cs) : ∀ c ∈ us, isName c = true := by
  obtain @⟨c, cs, -, -, hcs⟩ := h
  rcases List.suffix_cons_iff.1 hsuffix with rfl | hsuffix
  · exact absurd rfl hne
  · exact fun d hd => hcs d (hsuffix.mem hd)

theorem Token.NameText.isName_of_head?_ne {cs : List Char} (h : NameText cs)
    (hat : cs.head? ≠ some '@') : ∀ c ∈ cs, isName c = true := by
  obtain @⟨c, cs, -, hc, hcs⟩ := h
  intro d hd
  rcases List.mem_cons.1 hd with rfl | hd
  · rcases hc with hc | ⟨rfl, -⟩
    · exact hc
    · exact absurd rfl hat
  · exact hcs d hd

theorem nameText_qualified {cs : List Char} (h : ∀ c ∈ cs, isName c = true) :
    NameText ('x' :: '.' :: cs) := by
  have hx : isWord 'x' = true := by decide
  have hpoint : isWord '.' = false := by decide
  refine .mk ?_ (.inl (by decide)) ?_
  · rw [run, List.takeWhile_cons_of_pos hx, List.takeWhile_cons_of_neg (by simp [hpoint])]
    decide
  · intro d hd
    rcases List.mem_cons.1 hd with rfl | hd
    · decide
    · exact h d hd

namespace Expression

/-- The column of a name is written as a name. -/
theorem nameText_columnText {name : String} (h : NameText name.toList) :
    NameText (columnText (columnOf name)).toList := by
  rw [columnText]
  have hsuffix := unqualified_suffix name.toList
  split
  · next hat =>
    rw [toList_columnOf] at hat ⊢
    -- only the first character of a name can be an `@`, so nothing was in front of it
    by_cases hsame : unqualified name.toList = name.toList
    · rwa [hsame]
    · have hmem : '@' ∈ unqualified name.toList := List.mem_of_head? hat
      have hname := h.isName_of_mem_suffix hsuffix hsame '@' hmem
      exact absurd hname (by decide)
  · next hat =>
    rw [String.toList_append, toList_columnOf]
    rw [toList_columnOf] at hat
    apply nameText_qualified
    by_cases hsame : unqualified name.toList = name.toList
    · rw [hsame] at hat ⊢
      exact h.isName_of_head?_ne hat
    · exact h.isName_of_mem_suffix hsuffix hsame

/-- Written and read again, a column is the same. -/
theorem columnOf_columnText (name : String) :
    columnOf (columnText (columnOf name)) = columnOf name := by
  have hpoint := not_mem_unqualified name.toList
  rw [← String.toList_inj, toList_columnOf, columnText]
  split
  · rw [toList_columnOf, unqualified_of_not_mem hpoint]
  · rw [String.toList_append, toList_columnOf]
    exact unqualified_append_cons ['x'] hpoint

end Expression

end DecisionTable
