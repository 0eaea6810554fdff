import Mathlib.Data.List.Nodup
import DecisionTable.Proofs.Rule.Workbook

/-!
# Looking sheets up by name

A sheet is named after its rule, by as much of the key as a name can hold. So keys that differ
only behind that have sheets of one name, and looking the name up gives the sheet of the first of
them (`Workbook.sheet?_sheetName`). The sheets of the others are in the workbook, but no name
leads to them.
-/

namespace DecisionTable.Workbook

variable {schema : Option (List String)} {rules : List (String × String)} {sheets : List Sheet}

theorem IsSheetOf.name_eq {rule : String × String} {s : Sheet} (h : IsSheetOf schema rule s) :
    s.name = sheetName rule.1 := by
  obtain ⟨t, -, rfl⟩ := h
  rfl

/-- Two keys name the same sheet exactly if they agree as far as a name goes. -/
theorem sheetName_eq_iff {a b : String} :
    sheetName a = sheetName b ↔ a.toList.take maxSheetName = b.toList.take maxSheetName :=
  String.ofList_inj

theorem map_name_of_forall₂ (h : List.Forall₂ (IsSheetOf schema) rules sheets) :
    sheets.map Sheet.name = (rules.map Prod.fst).map sheetName := by
  induction h with
  | nil => rfl
  | cons hsheet _ ih => simp only [List.map_cons, hsheet.name_eq, ih]

/-- The first rule with a name for its sheet has the first sheet of that name. -/
theorem exists_find?_of_forall₂ (h : List.Forall₂ (IsSheetOf schema) rules sheets) {name : String}
    {first : String × String}
    (hfirst : rules.find? (fun rule => sheetName rule.1 = name) = some first) :
    ∃ s, IsSheetOf schema first s ∧ sheets.find? (fun s => s.name = name) = some s := by
  induction h with
  | nil => cases hfirst
  | @cons rule s rules sheets hsheet _ ih =>
    by_cases hname : sheetName rule.1 = name
    · rw [List.find?_cons_of_pos (by simpa using hname)] at hfirst
      obtain rfl := Option.some.inj hfirst
      exact ⟨s, hsheet, List.find?_cons_of_pos (by simpa [hsheet.name_eq] using hname)⟩
    · rw [List.find?_cons_of_neg (by simpa using hname)] at hfirst
      rw [List.find?_cons_of_neg (by simpa [hsheet.name_eq] using hname)]
      exact ih hfirst

/-- A workbook that was built has the sheet of each rule in its place. -/
theorem forall₂_of_build {book : Rulebook} {w : Workbook} (h : build book schema = .ok w) :
    List.Forall₂ (IsSheetOf schema) book.entries w.sheets := by
  rw [build] at h
  rcases sheetsOf_cases schema book.entries with ⟨key, error, -, herror⟩ | ⟨sheets, hok, hsheets⟩
  · rw [herror] at h
    cases h
  · rw [hok] at h
    obtain rfl : Workbook.mk sheets = w := Except.ok.inj h
    exact hsheets

/-- Among elements that occur once, one is the first of its kind exactly if none before it is of
that kind. -/
theorem find?_append_cons_eq_iff {α : Type} {p : α → Bool} {before after : List α} {a : α}
    (hnodup : (before ++ a :: after).Nodup) (ha : p a = true) :
    (before ++ a :: after).find? p = some a ↔ ∀ b ∈ before, p b = false := by
  rw [List.find?_append]
  constructor
  · intro h b hb
    cases hfind : before.find? p with
    | none => simpa using List.find?_eq_none.1 hfind b hb
    | some c =>
      rw [hfind, Option.some_or, Option.some_inj] at h
      obtain rfl := h
      -- the element would stand among those before it as well
      have hmem := List.mem_of_find?_eq_some hfind
      exact absurd rfl ((List.nodup_append.1 hnodup).2.2 _ hmem _ List.mem_cons_self)
  · intro h
    have hnone : before.find? p = none := List.find?_eq_none.2 fun b hb => by simp [h b hb]
    rw [hnone, Option.none_or, List.find?_cons_of_pos ha]

/-- The sheets of a workbook have names of their own exactly if no two keys agree as far as a name
goes. By its name every rule finds a sheet: that of the first rule with this name, which is its
own sheet exactly if no rule before it has the name. -/
theorem sheet?_sheetName {book : Rulebook} {w : Workbook} (h : build book schema = .ok w) :
    ((w.sheets.map Sheet.name).Nodup ↔
      ∀ a ∈ book.keys, ∀ b ∈ book.keys,
        a.toList.take maxSheetName = b.toList.take maxSheetName → a = b) ∧
    ∀ before rule after, book.entries = before ++ rule :: after →
      ∃ first s, book.entries.find? (fun r => sheetName r.1 = sheetName rule.1) = some first ∧
        IsSheetOf schema first s ∧ w.sheet? (sheetName rule.1) = some s ∧
        (first = rule ↔ ∀ r ∈ before, sheetName r.1 ≠ sheetName rule.1) := by
  have hsheets := forall₂_of_build h
  constructor
  · rw [map_name_of_forall₂ hsheets, ← OrderedMap.keys, List.nodup_map_iff_inj_on book.nodup_keys]
    simp only [sheetName_eq_iff]
  · intro before rule after hsplit
    let p : String × String → Bool := fun r => sheetName r.1 = sheetName rule.1
    have hself : p rule = true := decide_eq_true rfl
    have hmem : rule ∈ book.entries := by simp [hsplit]
    obtain ⟨first, hfirst⟩ : ∃ first, book.entries.find? p = some first :=
      Option.isSome_iff_exists.1 (List.find?_isSome.2 ⟨rule, hmem, hself⟩)
    obtain ⟨s, hsheet, hs⟩ := exists_find?_of_forall₂ hsheets hfirst
    have hnodup : (before ++ rule :: after).Nodup := by
      rw [← hsplit]
      exact .of_map Prod.fst book.nodup_keys
    have hown := find?_append_cons_eq_iff hnodup hself
    rw [← hsplit, hfirst, Option.some_inj] at hown
    refine ⟨first, s, hfirst, hsheet, hs, ?_⟩
    rw [hown]
    simp only [p, decide_eq_false_iff_not, ne_eq]

/-- Two rules with short keys, the second of which finds its sheet. -/
theorem sheet?_sheetName_short :
    let first := ("tier", "x = '1'")
    let second := ("region", "y in ('2', '3')")
    let book : Rulebook := .ofList [first, second]
    let w : Workbook := ⟨[⟨"tier", ["x"], [["1"]]⟩, ⟨"region", ["y"], [["2"], ["3"]]⟩]⟩
    build book none = .ok w ∧ (w.sheets.map Sheet.name).Nodup ∧
      ∃ s, IsSheetOf none second s ∧ w.sheet? (sheetName second.1) = some s := by
  intro first second book w
  have hbuild : build book none = .ok w := build_eq_ok_of_toOption (by decide +kernel)
  obtain ⟨hnames, hfound⟩ := sheet?_sheetName hbuild
  refine ⟨hbuild, by decide, ?_⟩
  obtain ⟨rule, s, -, hsheet, hs, hown⟩ := hfound [first] second [] rfl
  have hsecond : rule = second := hown.2 (by decide +kernel)
  exact ⟨s, hsecond ▸ hsheet, hs⟩

/-- Two keys that differ in their last letters only: the name of the second leads to the sheet of
the first. -/
theorem sheet?_sheetName_shadowed :
    let first := ("quarterly_customer_segment_rule_north", "x = '1'")
    let second := ("quarterly_customer_segment_rule_south", "y in ('2', '3')")
    let book : Rulebook := .ofList [first, second]
    ∃ s t, build book none = .ok ⟨[s, t]⟩ ∧ IsSheetOf none first s ∧ IsSheetOf none second t ∧
      s.name = t.name ∧ s ≠ t ∧
      Workbook.sheet? ⟨[s, t]⟩ (sheetName second.1) = some s := by
  intro first second book
  let s : Sheet := ⟨"quarterly_customer_segment_rule", ["x"], [["1"]]⟩
  let t : Sheet := ⟨"quarterly_customer_segment_rule", ["y"], [["2"], ["3"]]⟩
  have hbuild : build book none = .ok ⟨[s, t]⟩ := build_eq_ok_of_toOption (by decide +kernel)
  have hsheets : List.Forall₂ (IsSheetOf none) [first, second] [s, t] := forall₂_of_build hbuild
  obtain ⟨hs, hrest⟩ := List.forall₂_cons.1 hsheets
  obtain ⟨ht, -⟩ := List.forall₂_cons.1 hrest
  exact ⟨s, t, hbuild, hs, ht, rfl, by decide, by decide +kernel⟩

end DecisionTable.Workbook
