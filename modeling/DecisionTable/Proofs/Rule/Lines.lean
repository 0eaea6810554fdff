import DecisionTable.Proofs.Text.Trimming
import DecisionTable.Proofs.Text.Words
import DecisionTable.Rule.Printer

/-!
# The lines of a rule file

Two things live here:

* lines and their text: a text is its lines with line feeds between them, and a line of a part of
  a text is part of a line of the text (`Rulebook.mem_lines_between`);
* lines and rules: which lines open a rule (`Rulebook.keyOf?_keyLine`, `Rulebook.isKey_of_keyOf?`),
  and what trimming a text makes of its lines (`Rulebook.forall_lines_trim`).
-/

namespace DecisionTable.Rulebook

open Text

/-! ## Lines and their text -/

@[simp] theorem lines_nil : lines [] = [[]] := rfl

/-- A line feed opens a line of its own, any other character belongs to the first one. -/
theorem lines_cons (c : Char) (cs : List Char) :
    lines (c :: cs) = if c = '\n' then [] :: lines cs else (lines cs).modifyHead (c :: ·) := by
  split
  · next hc => simp [lines, sections, hc]
  · next hc => simp [lines, sections, hc]

theorem lines_eq_splitOn (cs : List Char) : lines cs = cs.splitOn '\n' := by
  induction cs with
  | nil => rfl
  | cons c cs ih => simp only [lines_cons, List.splitOn_cons_eq_if_modifyHead, beq_iff_eq, ih]

/-- A line feed ends a line. -/
theorem lines_append_newline (cs ds : List Char) :
    lines (cs ++ '\n' :: ds) = lines cs ++ lines ds := by
  simp only [lines_eq_splitOn, List.splitOn_append_cons_self]

theorem intercalate_lines (cs : List Char) : ['\n'].intercalate (lines cs) = cs := by
  rw [lines_eq_splitOn, List.intercalate_splitOn]

theorem lines_intercalate {ls : List (List Char)} (h : ∀ l ∈ ls, '\n' ∉ l) (hne : ls ≠ []) :
    lines (['\n'].intercalate ls) = ls := by
  rw [lines_eq_splitOn, List.splitOn_intercalate '\n' h hne]

theorem lines_of_not_mem {cs : List Char} (h : '\n' ∉ cs) : lines cs = [cs] := by
  rw [lines_eq_splitOn, List.splitOn_eq_singleton h]

/-- Where a text is joined, the last line of the one part and the first line of the other are
one. -/
theorem lines_append (cs ds : List Char) :
    ∃ init last first rest, lines cs = init ++ [last] ∧ lines ds = first :: rest ∧
      lines (cs ++ ds) = init ++ (last ++ first) :: rest := by
  induction cs with
  | nil => exact ⟨[], [], _, _, rfl, rfl, rfl⟩
  | cons c cs ih =>
    obtain ⟨init, last, first, rest, hcs, hds, happend⟩ := ih
    rw [List.cons_append, lines_cons, lines_cons, hcs, hds, happend]
    split
    · exact ⟨[] :: init, last, first, rest, rfl, rfl, rfl⟩
    · -- the character is part of the first line, which may be the last one
      cases init with
      | nil => exact ⟨[], c :: last, first, rest, rfl, rfl, rfl⟩
      | cons l init => exact ⟨(c :: l) :: init, last, first, rest, rfl, rfl, rfl⟩

/-- The characters of a line are those of the text, line feeds apart. -/
theorem of_mem_lines {cs l : List Char} (h : l ∈ lines cs) : ∀ c ∈ l, c ∈ cs ∧ c ≠ '\n' := by
  induction cs generalizing l with
  | nil =>
    rw [lines_nil, List.mem_singleton] at h
    subst h
    nofun
  | cons d cs ih =>
    rw [lines_cons] at h
    have later {k : List Char} (hk : k ∈ lines cs) : ∀ c ∈ k, c ∈ d :: cs ∧ c ≠ '\n' :=
      fun c hc => (ih hk c hc).imp_left (List.mem_cons_of_mem d)
    split at h
    · rcases List.mem_cons.1 h with rfl | h
      · nofun
      · exact later h
    · next hd =>
      cases hlines : lines cs with
      | nil =>
        rw [hlines] at h
        cases h
      | cons k ks =>
        rw [hlines, List.modifyHead_cons, List.mem_cons] at h
        rcases h with rfl | h
        · intro c hc
          rcases List.mem_cons.1 hc with rfl | hc
          · exact ⟨List.mem_cons_self, hd⟩
          · exact later (hlines ▸ List.mem_cons_self) c hc
        · exact later (hlines ▸ List.mem_cons_of_mem k h)

theorem newline_not_mem {cs l : List Char} (h : l ∈ lines cs) : '\n' ∉ l :=
  fun hc => (of_mem_lines h _ hc).2 rfl

/-- A line of a part of a text is part of a line of the text. -/
theorem mem_lines_between {mid l : List Char} (h : l ∈ lines mid) (before after : List Char) :
    ∃ front back, front ++ (l ++ back) ∈ lines (before ++ (mid ++ after)) ∧
      (∀ c ∈ front, c ∈ before) ∧ ∀ c ∈ back, c ∈ after := by
  -- what follows the part lengthens its last line, what precedes it its first line
  have hright : ∃ back, l ++ back ∈ lines (mid ++ after) ∧ ∀ c ∈ back, c ∈ after := by
    obtain ⟨init, last, first, rest, hmid, hafter, happend⟩ := lines_append mid after
    rw [hmid, List.mem_append, List.mem_singleton] at h
    rw [happend]
    rcases h with h | rfl
    · exact ⟨[], by simp [h], nofun⟩
    · have hfirst : first ∈ lines after := hafter ▸ List.mem_cons_self
      exact ⟨first, by simp, fun c hc => (of_mem_lines hfirst c hc).1⟩
  obtain ⟨back, hback, hmem⟩ := hright
  obtain ⟨init, last, first, rest, hbefore, hrest, happend⟩ := lines_append before (mid ++ after)
  rw [hrest, List.mem_cons] at hback
  rw [happend]
  rcases hback with hback | hback
  · have hlast : last ∈ lines before := by simp [hbefore]
    exact ⟨last, back, by simp [hback], fun c hc => (of_mem_lines hlast c hc).1, hmem⟩
  · exact ⟨[], back, by simp [hback], nofun, hmem⟩

/-! ## Lines that open a rule -/

theorem keyOf?_eq_of_trim_eq {l k : List Char} (h : trim l = trim k) : keyOf? l = keyOf? k := by
  rw [keyOf?, keyOf?, h]

/-- Blanks around a line make no difference to what it opens. -/
theorem keyOf?_between {front back : List Char} (hfront : ∀ c ∈ front, isBlank c = true)
    (hback : ∀ c ∈ back, isBlank c = true) (l : List Char) :
    keyOf? (front ++ (l ++ back)) = keyOf? l :=
  keyOf?_eq_of_trim_eq (strip_between hfront hback l)

/-- The line that opens the rule of a key. -/
theorem keyOf?_keyLine {key : String} (h : IsKey key) :
    keyOf? (key.toList ++ [':']) = some key := by
  have htrim : trim (key.toList ++ [':']) = key.toList ++ [':'] := by
    refine strip_eq_self (fun d hd => ?_) fun d hd => ?_
    · have hne : key.toList ≠ [] := by simpa using h.1
      rw [List.head?_append, List.head?_eq_some_head hne, Option.some_or] at hd
      cases hd
      exact isBlank_of_isWord (h.2 _ (List.head_mem hne))
    · rw [List.getLast?_concat] at hd
      cases hd
      decide
  have hcolon : isWord ':' = false := by decide
  have hrun : run (key.toList ++ [':']) = key.toList := by
    rw [run, List.takeWhile_append_of_pos h.2, List.takeWhile_cons_of_neg (by simp [hcolon]),
      List.append_nil]
  have hafter : afterRun (key.toList ++ [':']) = [':'] := by
    rw [afterRun, List.dropWhile_append_of_pos h.2, List.dropWhile_cons_of_neg (by simp [hcolon])]
  have hcond : key.toList ≠ [] ∧ stripLeft isBlank [':'] = [':'] :=
    ⟨by simpa using h.1, by decide⟩
  rw [keyOf?, htrim]
  simp only [hrun, hafter]
  rw [if_pos hcond, String.ofList_toList]

/-- What opens a rule is a key. -/
theorem isKey_of_keyOf? {l : List Char} {key : String} (h : keyOf? l = some key) : IsKey key := by
  simp only [keyOf?] at h
  split at h
  · next hkey =>
    cases h
    refine ⟨by simpa [← String.toList_inj] using hkey.1, fun c hc => ?_⟩
    rw [String.toList_ofList] at hc
    exact isWord_of_mem_run hc
  · cases h

/-! ## Lines of trimmed texts -/

/-- A line as it stands in the body of a rule. -/
structure IsBodyLine (l : List Char) : Prop where
  trimRight_eq : trimRight l = l
  keyOf?_eq : keyOf? l = none

theorem isBodyLine_trimRight {l : List Char} (h : keyOf? l = none) : IsBodyLine (trimRight l) where
  trimRight_eq := stripRight_eq_self fun _ => getLast?_stripRight
  keyOf?_eq := by
    obtain ⟨back, hl, hback⟩ := exists_stripRight isBlank l
    have hfront : ∀ c ∈ ([] : List Char), isBlank c = true := nofun
    have hkey := keyOf?_between hfront hback (trimRight l)
    rw [List.nil_append, trimRight, ← hl, h] at hkey
    exact hkey.symm

/-- Without the blanks around it, a line of a body still is one. -/
theorem IsBodyLine.of_between {front l back : List Char} (h : IsBodyLine (front ++ (l ++ back)))
    (hfront : ∀ c ∈ front, isBlank c = true) (hback : ∀ c ∈ back, isBlank c = true) :
    IsBodyLine l where
  trimRight_eq := by
    have hlast : ∀ d, (front ++ (l ++ back)).getLast? = some d → isBlank d = false := by
      intro d hd
      rw [← h.trimRight_eq] at hd
      exact getLast?_stripRight hd
    -- no blank ends the whole line, so none stands behind the part
    have hnil : back = [] := by
      by_contra hne
      have hend : (front ++ (l ++ back)).getLast? = some (back.getLast hne) := by
        rw [← List.append_assoc, List.getLast?_append, List.getLast?_eq_some_getLast hne,
          Option.some_or]
      have hblank := hback _ (List.getLast_mem hne)
      rw [hlast _ hend] at hblank
      exact Bool.noConfusion hblank
    refine stripRight_eq_self fun d hd => hlast d ?_
    rw [hnil, List.append_nil, List.getLast?_append, hd, Option.some_or]
  keyOf?_eq := by
    rw [← keyOf?_between hfront hback l]
    exact h.keyOf?_eq

/-- Trimmed, a text of such lines is a text of such lines. -/
theorem forall_lines_trim {cs : List Char} (h : ∀ l ∈ lines cs, IsBodyLine l) :
    ∀ l ∈ lines (trim cs), IsBodyLine l := by
  obtain ⟨before, after, hcs, hbefore, hafter⟩ := exists_strip isBlank cs
  intro l hl
  obtain ⟨front, back, hmem, hfront, hback⟩ := mem_lines_between hl before after
  rw [trim, ← hcs] at hmem
  exact (h _ hmem).of_between (fun c hc => hbefore c (hfront c hc))
    fun c hc => hafter c (hback c hc)

end DecisionTable.Rulebook
