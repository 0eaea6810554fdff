import Mathlib.Algebra.BigOperators.Ring.List
import Mathlib.Algebra.GroupWithZero.Nat
import Mathlib.Data.List.Sections
import Mathlib.Data.Multiset.Bind
import DecisionTable.Proofs.Expansion.Satisfaction
import DecisionTable.Proofs.Row.Merging

/-!
# How many rows a conjunction has

A conjunction merges rows one after the other and looks at each of them beside what was merged so
far. It comes to choosing a row of every term and asking of any two of them whether they go
together (`Expression.length_rows_all`), as a row goes together with a merged one exactly if it
does with each of its parts. The ways to choose are the sections of a list of lists.
-/

namespace DecisionTable

open OrderedMap

/-! ## Sections -/

section Sections

variable {α : Type} {lists : List (List α)}

theorem length_sections (lists : List (List α)) :
    lists.sections.length = (lists.map List.length).prod := by
  induction lists with
  | nil => rfl
  | cons l lists ih =>
    rw [List.sections, List.length_flatMap]
    simp [ih, Nat.mul_comm]

theorem cons_mem_sections {a : α} {s l : List α} (ha : a ∈ l) (hs : s ∈ lists.sections) :
    a :: s ∈ (l :: lists).sections :=
  List.mem_sections.2 (.cons ha (List.mem_sections.1 hs))

theorem exists_mem_of_mem_sections {s : List α} (hs : s ∈ lists.sections) {a : α} (ha : a ∈ s) :
    ∃ l ∈ lists, a ∈ l := by
  induction List.mem_sections.1 hs with
  | nil => exact absurd ha List.not_mem_nil
  | @cons b l s lists hb hrest ih =>
    rcases List.mem_cons.1 ha with rfl | ha
    · exact ⟨l, List.mem_cons_self, hb⟩
    · obtain ⟨m, hm, ham⟩ := ih (List.mem_sections.2 hrest) ha
      exact ⟨m, List.mem_cons_of_mem _ hm, ham⟩

/-- Where no list is empty, every element of a list is in a section. -/
theorem exists_mem_sections (h : ∀ l ∈ lists, l ≠ []) {l : List α} (hl : l ∈ lists) {a : α}
    (ha : a ∈ l) : ∃ s ∈ lists.sections, a ∈ s := by
  -- the lists around `l` have elements too, which fill the section up
  have hpick : ∀ m ∈ lists, ∃ b ∈ m, m = l → b = a := by
    intro m hm
    by_cases hml : m = l
    · exact ⟨a, hml ▸ ha, fun _ => rfl⟩
    · obtain ⟨b, hb⟩ := List.exists_mem_of_ne_nil m (h m hm)
      exact ⟨b, hb, fun he => absurd he hml⟩
  have : Nonempty α := ⟨a⟩
  choose! pick hpick hsame using hpick
  refine ⟨lists.map pick, ?_, List.mem_map.2 ⟨l, hl, hsame l hl rfl⟩⟩
  rw [List.mem_sections, List.forall₂_map_left_iff, List.forall₂_same]
  exact hpick

/-- What holds from list to list holds within a section. -/
theorem pairwise_of_mem_sections {r : α → α → Prop}
    (h : lists.Pairwise fun l m => ∀ a ∈ l, ∀ b ∈ m, r a b) {s : List α}
    (hs : s ∈ lists.sections) : s.Pairwise r := by
  induction List.mem_sections.1 hs with
  | nil => exact List.Pairwise.nil
  | @cons a l s lists ha hrest ih =>
    have hs := List.mem_sections.2 hrest
    obtain ⟨hhead, htail⟩ := List.pairwise_cons.1 h
    refine List.pairwise_cons.2 ⟨fun b hb => ?_, ih htail hs⟩
    obtain ⟨m, hm, hbm⟩ := exists_mem_of_mem_sections hs hb
    exact hhead m hm a ha b hbm

/-- What holds within every section holds from list to list, where no list is empty. -/
theorem pairwise_of_forall_sections {r : α → α → Prop} (h : ∀ l ∈ lists, l ≠ [])
    (hsections : ∀ s ∈ lists.sections, s.Pairwise r) :
    lists.Pairwise fun l m => ∀ a ∈ l, ∀ b ∈ m, r a b := by
  induction lists with
  | nil => exact List.Pairwise.nil
  | cons l lists ih =>
    have hrest : ∀ m ∈ lists, m ≠ [] := fun m hm => h m (List.mem_cons_of_mem _ hm)
    refine List.pairwise_cons.2 ⟨fun m hm a ha b hb => ?_, ih hrest fun s hs => ?_⟩
    · obtain ⟨s, hs, hbs⟩ := exists_mem_sections hrest hm hb
      exact (List.pairwise_cons.1 (hsections _ (cons_mem_sections ha hs))).1 b hbs
    · obtain ⟨a, ha⟩ := List.exists_mem_of_ne_nil l (h l List.mem_cons_self)
      exact (List.pairwise_cons.1 (hsections _ (cons_mem_sections ha hs))).2

end Sections

/-! ## Merged rows -/

/-- Two rows that go together can stand for their merged row where others are asked whether they
go together with it. -/
theorem pairwise_extend_cons_iff {a b : Row} (h : a.Compatible b) {rows : List Row} :
    (a.extend b :: rows).Pairwise Compatible ↔ (a :: b :: rows).Pairwise Compatible := by
  simp only [List.pairwise_cons, compatible_extend_iff h, List.forall_mem_cons, forall_and]
  tauto

/-- Merged rows that go together with further rows are counted by the pairs that do. -/
theorem countP_mergeRows (left right rows : List Row) :
    (mergeRows left right).countP (fun m => (m :: rows).Pairwise Compatible) =
      (left.flatMap fun a => right.map fun b => a :: b :: rows).countP
        fun choice => choice.Pairwise Compatible := by
  induction left with
  | nil => rfl
  | cons a left ih =>
    rw [mergeRows, List.flatMap_cons, List.flatMap_cons, List.countP_append, List.countP_append,
      ← ih, mergeRows]
    congr 1
    rw [List.countP_filterMap, List.countP_map]
    refine List.countP_congr fun b _ => ?_
    by_cases hab : a.Compatible b
    · simp only [Row.merge?_of_compatible hab, Option.map_some, Option.getD_some,
        decide_eq_true_iff, Function.comp_apply, pairwise_extend_cons_iff hab]
    · -- the two do not merge, and the pair is not counted either
      simp [Row.merge?_of_not_compatible hab, hab]

/-- Merging the rows of two lists does not change in how many ways rows that go together can be
chosen, one of each list. -/
theorem countP_sections_mergeRows (left right : List Row) (lists : List (List Row)) :
    (mergeRows left right :: lists).sections.countP (fun choice => choice.Pairwise Compatible) =
      (left :: right :: lists).sections.countP fun choice => choice.Pairwise Compatible := by
  rw [List.sections, List.sections, List.sections, List.flatMap_assoc]
  induction lists.sections with
  | nil => rfl
  | cons rows choices ih =>
    rw [List.flatMap_cons, List.flatMap_cons, List.countP_append, List.countP_append, ih]
    congr 1
    have hswap : ((right.map (· :: rows)).flatMap fun t => left.map (· :: t)).Perm
        (left.flatMap fun a => right.map fun b => a :: b :: rows) := by
      rw [List.flatMap_map, ← Multiset.coe_eq_coe, ← Multiset.coe_bind, ← Multiset.coe_bind]
      exact Multiset.bind_map_comm (Multiset.ofList right) (Multiset.ofList left)
    rw [hswap.countP_eq, ← countP_mergeRows, List.countP_map]
    rfl

namespace Expression

/-- Rows that were found, merged with those of further terms, are as many as there are ways to
choose one of the rows found and a row of each term, any two of which go together. -/
theorem length_foldl_mergeRows (found : List Row) (ts : List Expression) :
    (ts.foldl (fun found t => mergeRows found t.rows) found).length =
      (found :: ts.map rows).sections.countP fun choice => choice.Pairwise Compatible := by
  induction ts generalizing found with
  | nil => simp [List.sections, List.countP_map, Function.comp_def]
  | cons t ts ih =>
    rw [List.foldl_cons, ih, countP_sections_mergeRows, List.map_cons]

/-- Rows of conditions that share no column go together. -/
theorem compatible_of_disjoint_columns {t u : Expression} (h : t.columns.Disjoint u.columns)
    {a b : Row} (ha : a ∈ t.rows) (hb : b ∈ u.rows) : a.Compatible b := by
  refine compatible_iff_shared.2 fun k hka hkb => ?_
  exact absurd (mem_columns.2 (mem_mentions_of_mem_keys hb hkb))
    (h (mem_columns.2 (mem_mentions_of_mem_keys ha hka)))

/-- A conjunction has as many rows as there are ways to choose one row of each term, any two of
which give every column that both assign the same value. There are at most as many as the terms'
numbers of rows multiplied, and if that is not zero just as many exactly if no row of a term is in
conflict with a row of another one; terms that share no column have just as many in any case. -/
theorem length_rows_all {ts : List Expression} (h : ts ≠ []) :
    (rows (all ts)).length =
        (ts.map rows).sections.countP (fun choice => choice.Pairwise Compatible) ∧
      (rows (all ts)).length ≤ (ts.map fun t => t.rows.length).prod ∧
      ((ts.map fun t => t.rows.length).prod ≠ 0 →
        ((rows (all ts)).length = (ts.map fun t => t.rows.length).prod ↔
          ts.Pairwise fun t u => ∀ a ∈ t.rows, ∀ b ∈ u.rows, a.Compatible b)) ∧
      (ts.Pairwise (fun t u => t.columns.Disjoint u.columns) →
        (rows (all ts)).length = (ts.map fun t => t.rows.length).prod) := by
  have hcount : (rows (all ts)).length =
      (ts.map rows).sections.countP fun choice => choice.Pairwise Compatible := by
    obtain ⟨t, ts, rfl⟩ := List.exists_cons_of_ne_nil h
    rw [rows_all_cons, length_foldl_mergeRows, List.map_cons]
  have hprod : (ts.map rows).sections.length = (ts.map fun t => t.rows.length).prod := by
    rw [length_sections, List.map_map]
    rfl
  have hall : (rows (all ts)).length = (ts.map fun t => t.rows.length).prod ↔
      ∀ choice ∈ (ts.map rows).sections, choice.Pairwise Compatible := by
    rw [hcount, ← hprod, List.countP_eq_length]
    simp only [decide_eq_true_iff]
  refine ⟨hcount, ?_, fun hne => ?_, fun hdisjoint => ?_⟩
  · rw [hcount, ← hprod]
    exact List.countP_le_length
  · -- a term without rows would make the product zero
    have hsome : ∀ l ∈ ts.map rows, l ≠ [] := by
      rintro l hl rfl
      obtain ⟨t, ht, hrows⟩ := List.mem_map.1 hl
      exact hne (List.prod_eq_zero (List.mem_map.2 ⟨t, ht, by rw [hrows, List.length_nil]⟩))
    rw [hall, ← List.pairwise_map (f := rows)
      (R := fun l m => ∀ a ∈ l, ∀ b ∈ m, a.Compatible b)]
    exact ⟨pairwise_of_forall_sections hsome, fun hrows _ => pairwise_of_mem_sections hrows⟩
  · refine hall.2 fun _ => pairwise_of_mem_sections (List.pairwise_map.2 ?_)
    exact hdisjoint.imp fun htu _ ha _ hb => compatible_of_disjoint_columns htu ha hb

/-- Of eight choices two give a column two values; a value that is listed twice is chosen twice. -/
theorem length_rows_all_conflict :
    let p := clause ⟨"a", .oneOf, ["1", "2"]⟩
    let q := any [clause ⟨"a", .equal, ["2"]⟩, clause ⟨"b", .equal, ["1"]⟩]
    let ts := [p, q, clause ⟨"c", .oneOf, ["x", "x"]⟩]
    ts ≠ [] ∧ (rows (all ts)).length = 6 ∧ (ts.map fun t => t.rows.length).prod = 8 ∧
      ¬ ts.Pairwise fun t u => ∀ a ∈ t.rows, ∀ b ∈ u.rows, a.Compatible b := by
  intro p q ts
  have hne : ts ≠ [] := List.cons_ne_nil _ _
  obtain ⟨hcount, -, hequal, -⟩ := length_rows_all hne
  have hsix : (rows (all ts)).length = 6 := by
    rw [hcount]
    decide +kernel
  have hprod : (ts.map fun t => t.rows.length).prod = 8 := by decide +kernel
  rw [hsix, hprod] at hequal
  exact ⟨hne, hsix, hprod, fun h => absurd ((hequal (by decide)).2 h) (by decide)⟩

end Expression

end DecisionTable
