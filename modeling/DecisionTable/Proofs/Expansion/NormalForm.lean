import Mathlib.Data.List.Basic
import DecisionTable.Distinct
import DecisionTable.Expansion.Choices

/-!
# Rows are consistent choices

Expansion merges row by row and drops a conflict as soon as it arises. Seen from the
choices of a condition it comes to the same: drop the choices that give a column two
values, and keep every other choice with its pairs at their first occurrence. A choice
becomes a row by `Choice.row?`; that this turns concatenation into merging
(`Choice.row?_append`) carries the induction over the condition.
-/

namespace DecisionTable

namespace Choice

variable {a b c : Choice}

/-! ## Consistency -/

theorem mem_pairs {e : String × String} : e ∈ c.pairs ↔ e ∈ c := List.mem_eraseDups

/-- Two choices go together where each does by itself and no column has a value in one and
another value in the other. -/
theorem consistent_append_iff :
    (a ++ b).consistent = true ↔
      a.consistent = true ∧ b.consistent = true ∧ ∀ k v w, (k, v) ∈ a → (k, w) ∈ b → v = w := by
  simp only [consistent_iff, List.mem_append]
  constructor
  · intro h
    exact ⟨fun k v w hv hw => h k v w (.inl hv) (.inl hw),
      fun k v w hv hw => h k v w (.inr hv) (.inr hw),
      fun k v w hv hw => h k v w (.inl hv) (.inr hw)⟩
  · rintro ⟨ha, hb, hab⟩ k v w (hv | hv) (hw | hw)
    · exact ha k v w hv hw
    · exact hab k v w hv hw
    · exact (hab k w v hw hv).symm
    · exact hb k v w hv hw

/-- The pairs of a consistent choice have distinct columns. -/
theorem nodup_fst_pairs (h : c.consistent = true) : (c.pairs.map Prod.fst).Nodup := by
  have hpairs : c.pairs.Pairwise (· ≠ ·) := nodup_eraseDups c
  refine List.pairwise_map.2 (hpairs.imp_of_mem ?_)
  intro e f he hf hne hfst
  have hsnd : e.2 = f.2 :=
    consistent_iff.1 h e.1 e.2 f.2 (mem_pairs.1 he) (hfst ▸ mem_pairs.1 hf)
  exact hne (Prod.ext hfst hsnd)

/-! ## The row of a choice -/

/-- The row that a choice stands for, unless it gives a column two values. -/
def row? (c : Choice) : Option Row :=
  if h : c.consistent = true then some ⟨c.pairs, nodup_fst_pairs h⟩ else none

theorem row?_eq_some_iff {r : Row} :
    c.row? = some r ↔ c.consistent = true ∧ r.entries = c.pairs := by
  rw [row?]
  split
  · next h => simp [h, OrderedMap.ext_iff, eq_comm]
  · next h => simp [h]

theorem row?_eq_none_iff : c.row? = none ↔ c.consistent = false := by
  rw [row?]
  split <;> simp_all

@[simp] theorem row?_singleton (k v : String) :
    row? [(k, v)] = some (OrderedMap.single k v) := by
  refine row?_eq_some_iff.2 ⟨by simp [consistent], ?_⟩
  simp [pairs, List.eraseDups_cons]

/-- Rows of choices go together exactly where the choices do. -/
theorem agrees_iff_of_row? {r s : Row} (hr : a.row? = some r) (hs : b.row? = some s) :
    r.agrees s = true ↔ ∀ k v w, (k, v) ∈ a → (k, w) ∈ b → v = w := by
  have hrow : ∀ k v, r.get? k = some v ↔ (k, v) ∈ a := by
    intro k v
    rw [OrderedMap.get?_eq_some_iff, (row?_eq_some_iff.1 hr).2, mem_pairs]
  have hsow : ∀ k v, s.get? k = some v ↔ (k, v) ∈ b := by
    intro k v
    rw [OrderedMap.get?_eq_some_iff, (row?_eq_some_iff.1 hs).2, mem_pairs]
  simp only [OrderedMap.agrees_iff, hrow, hsow]

/-- Where two choices go together, joining their rows is the same as joining the choices: a
pair of the second is new if and only if its column is. -/
theorem entries_extend_of_row? {r s : Row} (hr : a.row? = some r) (hs : b.row? = some s)
    (h : ∀ k v w, (k, v) ∈ a → (k, w) ∈ b → v = w) : (r.extend s).entries = (a ++ b).pairs := by
  have hra := (row?_eq_some_iff.1 hr).2
  have hsb := (row?_eq_some_iff.1 hs).2
  rw [OrderedMap.entries_extend, hra, hsb, pairs, pairs, pairs, List.eraseDups_append,
    List.removeAll, eraseDups_filter]
  congr 1
  -- the row drops a pair whose column it has, the choice one that it has: the same pairs
  apply List.filter_congr
  intro e he
  have heb : e ∈ b := List.mem_eraseDups.1 he
  have hkey : e.1 ∈ r.keys ↔ e ∈ a := by
    rw [OrderedMap.keys, hra, List.mem_map]
    constructor
    · rintro ⟨f, hf, hfe⟩
      have hfa : (e.1, f.2) ∈ a := hfe ▸ mem_pairs.1 hf
      rwa [h e.1 f.2 e.2 hfa heb] at hfa
    · intro hea
      exact ⟨e, mem_pairs.2 hea, rfl⟩
  have hcontains : r.contains e.1 = a.elem e := by
    rw [Bool.eq_iff_iff, OrderedMap.contains_iff, hkey, List.elem_eq_mem, decide_eq_true_iff]
  rw [hcontains]

/-- The row of two choices together is the merge of their rows. -/
theorem row?_append (a b : Choice) :
    (a ++ b).row? = a.row?.bind fun r => b.row?.bind fun s => r.merge? s := by
  cases hr : a.row? with
  | none =>
    have ha : ¬ a.consistent = true := by simp [row?_eq_none_iff.1 hr]
    have hab : ¬ (a ++ b).consistent = true := fun h => ha (consistent_append_iff.1 h).1
    exact row?_eq_none_iff.2 (Bool.not_eq_true _ ▸ hab)
  | some r =>
    cases hs : b.row? with
    | none =>
      have hb : ¬ b.consistent = true := by simp [row?_eq_none_iff.1 hs]
      have hab : ¬ (a ++ b).consistent = true := fun h => hb (consistent_append_iff.1 h).2.1
      exact row?_eq_none_iff.2 (Bool.not_eq_true _ ▸ hab)
    | some s =>
      have hca := (row?_eq_some_iff.1 hr).1
      have hcb := (row?_eq_some_iff.1 hs).1
      simp only [Option.bind_some, Row.merge?]
      -- both are rows, so whether they merge is whether the choices go together
      by_cases hag : r.agrees s = true
      · have hab := (agrees_iff_of_row? hr hs).1 hag
        rw [if_pos hag, row?_eq_some_iff]
        exact ⟨consistent_append_iff.2 ⟨hca, hcb, hab⟩, entries_extend_of_row? hr hs hab⟩
      · rw [if_neg hag, row?_eq_none_iff, ← Bool.not_eq_true]
        intro h
        exact hag ((agrees_iff_of_row? hr hs).2 (consistent_append_iff.1 h).2.2)

/-- The entries of the rows of choices. -/
theorem map_entries_filterMap_row? (cs : List Choice) :
    (cs.filterMap row?).map OrderedMap.entries = (cs.filter consistent).map pairs := by
  induction cs with
  | nil => rfl
  | cons c cs ih =>
    by_cases h : c.consistent = true
    · have hrow : c.row? = some ⟨c.pairs, nodup_fst_pairs h⟩ := dif_pos h
      rw [List.filterMap_cons_some hrow, List.filter_cons_of_pos h, List.map_cons, List.map_cons,
        ih]
    · have hrow : c.row? = none := dif_neg h
      rw [List.filterMap_cons_none hrow, List.filter_cons_of_neg h, ih]

end Choice

/-- Merging the rows of choices gives the rows of their concatenations. -/
theorem mergeRows_filterMap_row? (cs ds : List Choice) :
    mergeRows (cs.filterMap Choice.row?) (ds.filterMap Choice.row?) =
      (cs.flatMap fun a => ds.map (a ++ ·)).filterMap Choice.row? := by
  induction cs with
  | nil => rfl
  | cons a cs ih =>
    have hhead : (ds.map (a ++ ·)).filterMap Choice.row? =
        ds.filterMap fun b => a.row?.bind fun r => b.row?.bind fun s => r.merge? s := by
      rw [List.filterMap_map]
      exact List.filterMap_congr fun b _ => Choice.row?_append a b
    rw [List.flatMap_cons, List.filterMap_append, ← ih, hhead]
    cases hr : a.row? with
    | none => simp [List.filterMap_cons_none hr]
    | some r =>
      rw [List.filterMap_cons_some hr, mergeRows, List.flatMap_cons, List.filterMap_filterMap]
      rfl

namespace Expression

/-- Merging the rows of further terms into rows of choices adds a choice of every term. -/
theorem foldl_mergeRows_filterMap_row? {ts : List Expression}
    (h : ∀ t ∈ ts, t.rows = t.choices.filterMap Choice.row?) (cs : List Choice) :
    ts.foldl (fun found t => mergeRows found t.rows) (cs.filterMap Choice.row?) =
      (cs.flatMap fun a => (choicesOfAll ts).map (a ++ ·)).filterMap Choice.row? := by
  induction ts generalizing cs with
  | nil => simp [choicesOfAll]
  | cons t ts ih =>
    rw [List.foldl_cons, h t List.mem_cons_self, mergeRows_filterMap_row?,
      ih fun u hu => h u (List.mem_cons_of_mem _ hu)]
    congr 1
    simp [choicesOfAll, List.flatMap_assoc, List.map_flatMap, List.flatMap_map,
      Function.comp_def]

/-- The rows of a condition are the rows of its choices. -/
theorem rows_eq_filterMap_row? (e : Expression) : e.rows = e.choices.filterMap Choice.row? := by
  induction e with
  | clause c => simp [List.filterMap_map]
  | all ts ih =>
    cases ts with
    | nil => rfl
    | cons t ts =>
      rw [rows_all_cons, ih t List.mem_cons_self, choices_all_cons, choicesOfAll]
      exact foldl_mergeRows_filterMap_row? (fun u hu => ih u (List.mem_cons_of_mem _ hu)) _
  | any ts ih =>
    rw [rows_any, choices_any, List.filterMap_flatMap]
    exact List.flatMap_congr ih

/-- Expansion gives exactly the choices that give no column two values, in their order and as
often as they arise, each with its pairs in the order of their first occurrence. -/
theorem map_entries_rows (e : Expression) :
    e.rows.map OrderedMap.entries = (e.choices.filter Choice.consistent).map Choice.pairs := by
  rw [rows_eq_filterMap_row?, Choice.map_entries_filterMap_row?]

end Expression

end DecisionTable
