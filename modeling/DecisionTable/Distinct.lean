/-!
# Lists without their repetitions

`List.eraseDups` keeps the first occurrence of every element. Nothing is listed twice then,
picking elements out commutes with it, and what is left stands in the order of first occurrence.
It is what comes of adding the elements one by one, each unless it is there already.
-/

namespace DecisionTable

variable {α : Type} [BEq α]

theorem length_filter_ne_lt (a : α) (l : List α) :
    (l.filter fun b => !b == a).length < (a :: l).length :=
  Nat.lt_succ_of_le (List.length_filter_le _ l)

variable [LawfulBEq α]

/-- Without its repetitions, a list has no element twice. -/
theorem nodup_eraseDups (l : List α) : l.eraseDups.Nodup := by
  cases l with
  | nil => exact List.nodup_nil
  | cons a l =>
    rw [List.eraseDups_cons, List.nodup_cons]
    exact ⟨by simp, nodup_eraseDups _⟩
termination_by l.length
decreasing_by exact length_filter_ne_lt a l

/-- The elements with a property, each at its first occurrence. -/
theorem eraseDups_filter (p : α → Bool) (l : List α) :
    (l.filter p).eraseDups = l.eraseDups.filter p := by
  cases l with
  | nil => rfl
  | cons a l =>
    rw [List.eraseDups_cons, List.filter_cons, List.filter_cons, ← eraseDups_filter p,
      List.filter_filter]
    by_cases hp : p a = true
    · rw [if_pos hp, if_pos hp, List.eraseDups_cons, List.filter_filter]
      simp only [Bool.and_comm]
    · rw [if_neg hp, if_neg hp]
      -- no element with the property is equal to `a`, so nothing more is taken out
      have hsame : l.filter (fun b => p b && !b == a) = l.filter p := by
        apply List.filter_congr
        intro b _
        cases hb : b == a with
        | true => simp [eq_of_beq hb, hp]
        | false => simp
      rw [hsame]
termination_by l.length
decreasing_by exact length_filter_ne_lt a l

/-- Without its repetitions, a list has its elements in the order of their first occurrence. -/
theorem pairwise_idxOf_eraseDups (l : List α) :
    l.eraseDups.Pairwise fun a b => l.idxOf a < l.idxOf b := by
  induction l with
  | nil => exact List.Pairwise.nil
  | cons a l ih =>
    rw [List.eraseDups_cons, eraseDups_filter, List.pairwise_cons]
    have hlater : ∀ b ∈ l.eraseDups.filter (fun b => !b == a),
        (a :: l).idxOf b = l.idxOf b + 1 := by
      intro b hb
      have hne : a ≠ b := by
        rintro rfl
        simp at hb
      rw [List.idxOf_cons, beq_false_of_ne hne, cond_false]
    refine ⟨fun b hb => ?_, ?_⟩
    · rw [hlater b hb, List.idxOf_cons_self]
      exact Nat.succ_pos _
    · refine (ih.filter _).imp_of_mem fun {b c} hb hc hlt => ?_
      rw [hlater b hb, hlater c hc]
      exact Nat.succ_lt_succ hlt

/-- A list with one more element at its end, unless it has it already. -/
def addNew (found : List α) (a : α) : List α := if a ∈ found then found else found ++ [a]

/-- Added one after the other, the elements that are not there yet come behind those that are,
each once. -/
theorem foldl_addNew (l found : List α) :
    l.foldl addNew found = found ++ (l.filter (· ∉ found)).eraseDups := by
  induction l generalizing found with
  | nil => simp
  | cons a l ih =>
    rw [List.foldl_cons, ih, addNew]
    by_cases hmem : a ∈ found
    · rw [if_pos hmem, List.filter_cons_of_neg (by simpa using hmem)]
    · have hrest : l.filter (· ∉ found ++ [a]) = (l.filter (· ∉ found)).filter (!· == a) := by
        rw [List.filter_filter]
        refine List.filter_congr fun b _ => ?_
        cases hb : b == a <;> simp_all
      rw [if_neg hmem, List.filter_cons_of_pos (by simpa using hmem), List.eraseDups_cons, hrest,
        List.append_assoc, List.singleton_append]

/-- Added one after the other to nothing, the elements are those without the repetitions. -/
theorem foldl_addNew_nil (l : List α) : l.foldl addNew [] = l.eraseDups := by
  rw [foldl_addNew, List.filter_eq_self.2 (by simp), List.nil_append]

end DecisionTable
