/-!
# Sections

A list that is cut at the elements that bear a mark: what stands before the first of them,
then a section for each mark, with the elements up to the next one.
-/

namespace DecisionTable.Text

variable {α β : Type}

/-- The elements before the first mark, and the marks with the elements that follow each. -/
def sections (mark : α → Option β) : List α → List α × List (β × List α)
  | [] => ([], [])
  | a :: as =>
    let (front, found) := sections mark as
    match mark a with
    | some b => ([], (b, front) :: found)
    | none => (a :: front, found)

variable {mark : α → Option β}

@[simp] theorem sections_nil : sections mark [] = ([], []) := rfl

theorem sections_cons_of_some {a : α} {b : β} (h : mark a = some b) (as : List α) :
    sections mark (a :: as) = ([], (b, (sections mark as).1) :: (sections mark as).2) := by
  rw [sections, h]

theorem sections_cons_of_none {a : α} (h : mark a = none) (as : List α) :
    sections mark (a :: as) = (a :: (sections mark as).1, (sections mark as).2) := by
  rw [sections, h]

/-- A list that begins with a mark adds its sections to those of a list before it. -/
theorem sections_append {as bs : List α} (h : (sections mark bs).1 = []) :
    sections mark (as ++ bs) =
      ((sections mark as).1, (sections mark as).2 ++ (sections mark bs).2) := by
  induction as with
  | nil =>
    simp only [List.nil_append, sections_nil]
    exact Prod.ext h rfl
  | cons a as ih =>
    cases ha : mark a with
    | some b => rw [List.cons_append, sections_cons_of_some ha, sections_cons_of_some ha, ih]; rfl
    | none => rw [List.cons_append, sections_cons_of_none ha, sections_cons_of_none ha, ih]

/-- Elements without a mark stand before the first mark of what follows them. -/
theorem sections_append_of_unmarked {as : List α} (h : (sections mark as).2 = []) (bs : List α) :
    sections mark (as ++ bs) = (as ++ (sections mark bs).1, (sections mark bs).2) := by
  induction as with
  | nil => rfl
  | cons a as ih =>
    cases ha : mark a with
    | some b => rw [sections_cons_of_some ha] at h; cases h
    | none =>
      rw [sections_cons_of_none ha] at h
      rw [List.cons_append, sections_cons_of_none ha, ih h, List.cons_append]

/-- What stands before the first mark is the front of the list. -/
theorem fst_sections_prefix_self (as : List α) : (sections mark as).1 <+: as := by
  induction as with
  | nil => exact List.prefix_rfl
  | cons a as ih =>
    cases ha : mark a with
    | some b => rw [sections_cons_of_some ha]; exact List.nil_prefix
    | none => rw [sections_cons_of_none ha]; exact List.prefix_cons_inj a |>.2 ih

theorem of_mem_fst_sections {a : α} {as : List α} (h : a ∈ (sections mark as).1) :
    a ∈ as ∧ mark a = none := by
  induction as with
  | nil => cases h
  | cons c as ih =>
    cases hc : mark c with
    | some b => rw [sections_cons_of_some hc] at h; cases h
    | none =>
      rw [sections_cons_of_none hc, List.mem_cons] at h
      rcases h with rfl | h
      · exact ⟨List.mem_cons_self, hc⟩
      · exact (ih h).imp_left (List.mem_cons_of_mem c)

/-- A section begins with a mark of the list, and has unmarked elements of the list after it. -/
theorem of_mem_snd_sections {s : β × List α} {as : List α} (h : s ∈ (sections mark as).2) :
    (∃ a ∈ as, mark a = some s.1) ∧ ∀ a ∈ s.2, a ∈ as ∧ mark a = none := by
  induction as with
  | nil => cases h
  | cons c as ih =>
    have later (hs : s ∈ (sections mark as).2) : (∃ a ∈ c :: as, mark a = some s.1) ∧
        ∀ a ∈ s.2, a ∈ c :: as ∧ mark a = none := by
      obtain ⟨⟨a, ha, hmark⟩, hrest⟩ := ih hs
      exact ⟨⟨a, List.mem_cons_of_mem c ha, hmark⟩,
        fun a ha => (hrest a ha).imp_left (List.mem_cons_of_mem c)⟩
    cases hc : mark c with
    | some b =>
      rw [sections_cons_of_some hc, List.mem_cons] at h
      rcases h with rfl | h
      · exact ⟨⟨c, List.mem_cons_self, hc⟩,
          fun a ha => (of_mem_fst_sections ha).imp_left (List.mem_cons_of_mem c)⟩
      · exact later h
    | none =>
      rw [sections_cons_of_none hc] at h
      exact later h

/-- The marks of the sections are those of the list. -/
theorem map_fst_snd_sections (as : List α) :
    (sections mark as).2.map Prod.fst = as.filterMap mark := by
  induction as with
  | nil => rfl
  | cons a as ih =>
    cases ha : mark a with
    | some b => rw [sections_cons_of_some ha, List.map_cons, ih, List.filterMap_cons_some ha]
    | none => rw [sections_cons_of_none ha, ih, List.filterMap_cons_none ha]

/-- Sections lose nothing: what their marks and elements stand for, one after the other, is
what the elements of the list stand for. -/
theorem flatMap_sections {γ : Type} {f : α → List γ} {g : β → List γ}
    (h : ∀ a b, mark a = some b → g b = f a) (as : List α) :
    (sections mark as).1.flatMap f ++
        (sections mark as).2.flatMap (fun s => g s.1 ++ s.2.flatMap f) = as.flatMap f := by
  induction as with
  | nil => rfl
  | cons a as ih =>
    cases ha : mark a with
    | some b => rw [sections_cons_of_some ha]; simp [h a b ha, ih]
    | none => rw [sections_cons_of_none ha]; simp [ih]

end DecisionTable.Text
