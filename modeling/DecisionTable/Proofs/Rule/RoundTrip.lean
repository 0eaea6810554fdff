import DecisionTable.Proofs.Rule.Lines

/-!
# Rule files can be written and read again

Rules are read back from their text exactly where they are well formed, and what is read of any
text is well formed (`Rulebook.entries_read_write_iff`). Written, each rule is a section of its
lines, and its body is what those lines are trimmed to; read, a body consists of lines that open
no rule, whatever the text was.
-/

namespace DecisionTable.Rulebook

open Text

/-! ## Bodies -/

/-- Where no line has blanks at its end, the body is the text without the blanks around it. -/
theorem bodyOf_lines {cs : List Char} (h : ∀ l ∈ lines cs, trimRight l = l) :
    bodyOf (lines cs) = .ofList (trim cs) := by
  have hmap : (lines cs).map trimRight = lines cs := (List.map_congr_left h).trans (List.map_id' _)
  rw [bodyOf, hmap, intercalate_lines]

/-- The body of a rule is found in its lines; a line feed after it makes no difference. -/
theorem IsBody.bodyOf_lines_append {body : String} (h : IsBody body) {front : List (List Char)}
    (hfront : front = [] ∨ front = [[]]) : bodyOf (lines body.toList ++ front) = body := by
  rcases hfront with rfl | rfl
  · rw [List.append_nil, bodyOf_lines h.trimRight_eq, h.trim_eq, String.ofList_toList]
  · have hlines : lines body.toList ++ [[]] = lines (body.toList ++ ['\n']) :=
      (lines_append_newline body.toList []).symm
    have hblank : ∀ c ∈ ['\n'], isBlank c = true := List.forall_mem_singleton.2 (by decide)
    have htrim : trim (body.toList ++ ['\n']) = body.toList := by
      have hnone : ∀ c ∈ ([] : List Char), isBlank c = true := nofun
      have hstrip := strip_between hnone hblank body.toList
      rw [List.nil_append] at hstrip
      exact hstrip.trans h.trim_eq
    have hright : ∀ l ∈ lines (body.toList ++ ['\n']), trimRight l = l := by
      rw [← hlines, List.forall_mem_append, List.forall_mem_singleton]
      exact ⟨h.trimRight_eq, rfl⟩
    rw [hlines, bodyOf_lines hright, htrim, String.ofList_toList]

/-- What lines that open no rule come to is a body, or nothing. -/
theorem isBody_bodyOf {ls : List (List Char)} (h : ∀ l ∈ ls, '\n' ∉ l ∧ keyOf? l = none)
    (hne : bodyOf ls ≠ "") : IsBody (bodyOf ls) := by
  have hls : ls.map trimRight ≠ [] := by
    intro hnil
    rw [List.map_eq_nil_iff] at hnil
    subst hnil
    exact hne rfl
  have hnewline : ∀ l ∈ ls.map trimRight, '\n' ∉ l := by
    intro l hl
    obtain ⟨k, hk, rfl⟩ := List.mem_map.1 hl
    obtain ⟨after, hafter, -⟩ := exists_stripRight isBlank k
    exact fun hmem => (h k hk).1 (hafter ▸ List.mem_append_left after hmem)
  have hlines : ∀ l ∈ lines (['\n'].intercalate (ls.map trimRight)), IsBodyLine l := by
    rw [lines_intercalate hnewline hls]
    intro l hl
    obtain ⟨k, hk, rfl⟩ := List.mem_map.1 hl
    exact isBodyLine_trimRight (h k hk).2
  have htext : (bodyOf ls).toList = trim (['\n'].intercalate (ls.map trimRight)) :=
    String.toList_ofList
  have hbody := forall_lines_trim hlines
  rw [← htext] at hbody
  refine ⟨hne, ?_, fun l hl => (hbody l hl).trimRight_eq, fun l hl => (hbody l hl).keyOf?_eq⟩
  rw [htext]
  exact strip_strip isBlank _

/-! ## Writing and reading -/

theorem lines_write_cons {key : String} (hkey : IsKey key) (body : String)
    (rules : List (String × String)) :
    lines (write ((key, body) :: rules)).toList =
      (key.toList ++ [':']) :: (lines body.toList ++ lines (write rules).toList) := by
  have htext : (write ((key, body) :: rules)).toList =
      (key.toList ++ [':']) ++ '\n' :: (body.toList ++ '\n' :: (write rules).toList) := by
    simp [write, ruleText, String.join_cons]
  have hkeyLine : '\n' ∉ key.toList ++ [':'] := by
    rw [List.mem_append, not_or]
    refine ⟨fun hmem => ?_, by decide⟩
    exact absurd (hkey.2 _ hmem) (by decide)
  rw [htext, lines_append_newline, lines_append_newline, lines_of_not_mem hkeyLine,
    List.singleton_append]

/-- A rule that was written is a section of its own. -/
theorem sections_rule {key body : String} (hkey : IsKey key) (hbody : IsBody body)
    (ls : List (List Char)) :
    sections keyOf? ((key.toList ++ [':']) :: (lines body.toList ++ ls)) =
      ([], (key, lines body.toList ++ (sections keyOf? ls).1) :: (sections keyOf? ls).2) := by
  have hnone : (sections keyOf? (lines body.toList)).2 = [] := by
    rw [List.eq_nil_iff_forall_not_mem]
    intro s hs
    obtain ⟨l, hl, hmark⟩ := (of_mem_snd_sections hs).1
    rw [hbody.keyOf?_eq l hl] at hmark
    cases hmark
  rw [sections_cons_of_some (keyOf?_keyLine hkey), sections_append_of_unmarked hnone]

/-- Before the first rule that was written there is nothing but the end of the text. -/
theorem fst_sections_write {rules : List (String × String)}
    (h : ∀ r ∈ rules, IsKey r.1 ∧ IsBody r.2) :
    (sections keyOf? (lines (write rules).toList)).1 = [] ∨
      (sections keyOf? (lines (write rules).toList)).1 = [[]] := by
  cases rules with
  | nil => exact .inr rfl
  | cons r rules =>
    obtain ⟨hkey, hbody⟩ := h r List.mem_cons_self
    rw [lines_write_cons hkey, sections_rule hkey hbody]
    exact .inl rfl

/-- Reading what was written inserts the rules one by one. -/
theorem foldl_addRule_write {rules : List (String × String)}
    (h : ∀ r ∈ rules, IsKey r.1 ∧ IsBody r.2) (book : Rulebook) :
    (sections keyOf? (lines (write rules).toList)).2.foldl addRule book = book.insertAll rules := by
  induction rules generalizing book with
  | nil => rfl
  | cons r rules ih =>
    obtain ⟨key, body⟩ := r
    rw [List.forall_mem_cons] at h
    obtain ⟨⟨hkey, hbody⟩, hrules⟩ := h
    have hadd : ∀ front, front = [] ∨ front = [[]] →
        addRule book (key, lines body.toList ++ front) = book.insert key body := by
      intro front hfront
      rw [addRule, hbody.bodyOf_lines_append hfront]
      exact if_neg hbody.ne_empty
    rw [lines_write_cons hkey, sections_rule hkey hbody, List.foldl_cons,
      hadd _ (fst_sections_write hrules), ih hrules]
    rfl

theorem entries_read_write {rules : List (String × String)} (h : WellFormed rules) :
    (read (write rules)).entries = rules := by
  have hrules : ∀ r ∈ rules, IsKey r.1 ∧ IsBody r.2 := fun r hr => ⟨h.isKey r hr, h.isBody r hr⟩
  rw [read, split, foldl_addRule_write hrules]
  exact OrderedMap.entries_insertAll h.nodup

/-! ## What is read -/

/-- One more rule keeps all rules such as can be written. -/
theorem forall_entries_addRule {book : Rulebook}
    (hbook : ∀ r ∈ book.entries, IsKey r.1 ∧ IsBody r.2)
    {rule : String × List (List Char)} (hkey : IsKey rule.1)
    (hlines : ∀ l ∈ rule.2, '\n' ∉ l ∧ keyOf? l = none) :
    ∀ r ∈ (addRule book rule).entries, IsKey r.1 ∧ IsBody r.2 := by
  intro r hr
  simp only [addRule] at hr
  split at hr
  · exact hbook r hr
  · next hne =>
    rcases OrderedMap.mem_entries_insert hr with rfl | hr
    · exact ⟨hkey, isBody_bodyOf hlines hne⟩
    · exact hbook r hr

theorem forall_entries_foldl_addRule {found : List (String × List (List Char))}
    (hfound : ∀ s ∈ found, IsKey s.1 ∧ ∀ l ∈ s.2, '\n' ∉ l ∧ keyOf? l = none) {book : Rulebook}
    (hbook : ∀ r ∈ book.entries, IsKey r.1 ∧ IsBody r.2) :
    ∀ r ∈ (found.foldl addRule book).entries, IsKey r.1 ∧ IsBody r.2 := by
  induction found generalizing book with
  | nil => exact hbook
  | cons s found ih =>
    rw [List.forall_mem_cons] at hfound
    obtain ⟨⟨hkey, hlines⟩, hrest⟩ := hfound
    exact ih hrest (forall_entries_addRule hbook hkey hlines)

/-- What is read of a text is well formed. -/
theorem wellFormed_read (text : String) : WellFormed (read text).entries := by
  have hfound : ∀ s ∈ (split text).2, IsKey s.1 ∧ ∀ l ∈ s.2, '\n' ∉ l ∧ keyOf? l = none := by
    intro s hs
    obtain ⟨⟨l, -, hkey⟩, hlines⟩ := of_mem_snd_sections hs
    exact ⟨isKey_of_keyOf? hkey, fun l hl => (hlines l hl).imp_left newline_not_mem⟩
  have hempty : ∀ r ∈ (OrderedMap.empty : Rulebook).entries, IsKey r.1 ∧ IsBody r.2 := nofun
  have hrules := forall_entries_foldl_addRule hfound hempty
  exact ⟨(read text).nodup, fun r hr => (hrules r hr).1, fun r hr => (hrules r hr).2⟩

/-- Whatever is read of a text is well formed, and rules are read back from the text that they
are written as, all of them and in their order, exactly if they are well formed. -/
theorem entries_read_write_iff :
    (∀ text, WellFormed (read text).entries) ∧
      ∀ rules, (read (write rules)).entries = rules ↔ WellFormed rules := by
  refine ⟨wellFormed_read, fun rules => ⟨fun h => ?_, entries_read_write⟩⟩
  rw [← h]
  exact wellFormed_read (write rules)

/-- A line that is almost a key, blank lines, and a rule that comes twice. -/
example : (read "x\r\na :\r\n\r\n  c: 1 \r\n\r\n d\r\nb:\n \na:\nlast\n").entries =
    [("a", "last")] := by
  decide +kernel

end DecisionTable.Rulebook
