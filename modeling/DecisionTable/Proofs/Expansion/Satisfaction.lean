import DecisionTable.Expansion
import DecisionTable.Expansion.Satisfaction

/-!
# A condition holds where a row agrees

Expansion is sound and complete: a valuation satisfies a condition if and only if it agrees
with one of the condition's rows (`Expression.covers_rows_iff`). Dropping a conflict loses
nothing, because no valuation agrees with both of two rows in conflict. Rows assign nothing
but columns that the condition mentions (`Expression.mem_mentions_of_mem_keys`).
-/

namespace DecisionTable

/-- Some row agrees with the values of the columns. -/
def Covers (rows : List Row) (σ : Valuation) : Prop := ∃ row ∈ rows, row.agreesWith σ = true

variable {σ : Valuation}

/-! ## One row -/

namespace Row

@[simp] theorem agreesWith_single (k v : String) :
    agreesWith σ (OrderedMap.single k v) = decide (σ k = v) := by
  simp [agreesWith]

/-- A merged row agrees exactly where both its parts do. -/
theorem agreesWith_extend_iff {a b : Row} (h : a.agrees b = true) :
    agreesWith σ (a.extend b) = true ↔ a.agreesWith σ = true ∧ b.agreesWith σ = true := by
  simp only [agreesWith_iff, OrderedMap.get?_extend]
  constructor
  · intro hab
    refine ⟨fun k v hk => hab k v (by rw [hk, Option.some_or]), fun k v hk => ?_⟩
    -- the merged row shows `b` only where `a` has no value; elsewhere the two are the same
    cases ha : a.get? k with
    | none => exact hab k v (by rw [ha, hk, Option.none_or])
    | some w =>
      have hw : σ k = w := hab k w (by rw [ha, Option.some_or])
      rw [hw]
      exact OrderedMap.agrees_iff.1 h k w v ha hk
  · rintro ⟨ha, hb⟩ k v hk
    rcases Option.or_eq_some_iff.1 hk with hk | ⟨-, hk⟩
    · exact ha k v hk
    · exact hb k v hk

/-- Rows that agree with one valuation agree with each other. -/
theorem agrees_of_agreesWith {a b : Row} (ha : a.agreesWith σ = true)
    (hb : b.agreesWith σ = true) : a.agrees b = true := by
  apply OrderedMap.agrees_iff.2
  intro k v w hv hw
  rw [← agreesWith_iff.1 ha k v hv, agreesWith_iff.1 hb k w hw]

end Row

/-! ## Merged rows -/

theorem mem_mergeRows {left right : List Row} {c : Row} :
    c ∈ mergeRows left right ↔
      ∃ a ∈ left, ∃ b ∈ right, a.agrees b = true ∧ a.extend b = c := by
  simp only [mergeRows, List.mem_flatMap, List.mem_filterMap, Row.merge?_eq_some_iff]

theorem covers_mergeRows_iff {left right : List Row} :
    Covers (mergeRows left right) σ ↔ Covers left σ ∧ Covers right σ := by
  constructor
  · rintro ⟨c, hc, hσ⟩
    obtain ⟨a, ha, b, hb, hab, rfl⟩ := mem_mergeRows.1 hc
    have hboth := (Row.agreesWith_extend_iff hab).1 hσ
    exact ⟨⟨a, ha, hboth.1⟩, ⟨b, hb, hboth.2⟩⟩
  · rintro ⟨⟨a, ha, hσa⟩, ⟨b, hb, hσb⟩⟩
    have hab := Row.agrees_of_agreesWith hσa hσb
    exact ⟨a.extend b, mem_mergeRows.2 ⟨a, ha, b, hb, hab, rfl⟩,
      (Row.agreesWith_extend_iff hab).2 ⟨hσa, hσb⟩⟩

namespace Expression

theorem covers_foldl_mergeRows_iff {ts : List Expression} {found : List Row} :
    Covers (ts.foldl (fun found t => mergeRows found t.rows) found) σ ↔
      Covers found σ ∧ ∀ t ∈ ts, Covers t.rows σ := by
  induction ts generalizing found with
  | nil => simp
  | cons t ts ih =>
    rw [List.foldl_cons, ih, covers_mergeRows_iff, List.forall_mem_cons, and_assoc]

/-! ## Conditions -/

/-- A valuation satisfies a condition if and only if it agrees with one of the rows. -/
theorem covers_rows_iff {e : Expression} : Covers e.rows σ ↔ e.holds σ = true := by
  induction e with
  | clause c =>
    rw [holds_clause, List.contains_iff_mem, rows_clause]
    constructor
    · rintro ⟨row, hrow, hσ⟩
      obtain ⟨v, hv, rfl⟩ := List.mem_map.1 hrow
      rw [Row.agreesWith_single, decide_eq_true_iff] at hσ
      rwa [hσ]
    · intro hv
      exact ⟨_, List.mem_map_of_mem hv, by simp⟩
  | all ts ih =>
    cases ts with
    | nil => simp [Covers, holds_all]
    | cons t ts =>
      rw [rows_all_cons, covers_foldl_mergeRows_iff, holds_all, ih t List.mem_cons_self]
      have htail : (∀ u ∈ ts, Covers u.rows σ) ↔ ∀ u ∈ ts, u.holds σ = true :=
        forall₂_congr fun u hu => ih u (List.mem_cons_of_mem _ hu)
      rw [htail]
      simp
  | any ts ih =>
    rw [rows_any, holds_any, List.any_eq_true]
    constructor
    · rintro ⟨row, hrow, hσ⟩
      obtain ⟨t, ht, hrow⟩ := List.mem_flatMap.1 hrow
      exact ⟨t, ht, (ih t ht).1 ⟨row, hrow, hσ⟩⟩
    · rintro ⟨t, ht, hσ⟩
      obtain ⟨row, hrow, hσ⟩ := (ih t ht).2 hσ
      exact ⟨row, List.mem_flatMap.2 ⟨t, ht, hrow⟩, hσ⟩

/-- Merging the rows of terms brings in no column but those of the terms. -/
theorem mem_keys_of_mem_foldl_mergeRows {ts : List Expression} {found : List Row} {row : Row}
    {k : String} (hrow : row ∈ ts.foldl (fun found t => mergeRows found t.rows) found)
    (hk : k ∈ row.keys) :
    (∃ a ∈ found, k ∈ a.keys) ∨ ∃ t ∈ ts, ∃ a ∈ t.rows, k ∈ a.keys := by
  induction ts generalizing found with
  | nil => exact .inl ⟨row, hrow, hk⟩
  | cons t ts ih =>
    rw [List.foldl_cons] at hrow
    rcases ih hrow with ⟨c, hc, hkc⟩ | ⟨u, hu, h⟩
    · obtain ⟨a, ha, b, hb, -, rfl⟩ := mem_mergeRows.1 hc
      rcases OrderedMap.mem_keys_extend.1 hkc with hka | hkb
      · exact .inl ⟨a, ha, hka⟩
      · exact .inr ⟨t, List.mem_cons_self, b, hb, hkb⟩
    · exact .inr ⟨u, List.mem_cons_of_mem _ hu, h⟩

/-- The rows of a condition assign columns that it mentions, and no others. -/
theorem mem_mentions_of_mem_keys {e : Expression} {row : Row} {k : String} (hrow : row ∈ e.rows)
    (hk : k ∈ row.keys) : k ∈ e.mentions := by
  induction e generalizing row with
  | clause c =>
    rw [rows_clause, List.mem_map] at hrow
    obtain ⟨v, -, rfl⟩ := hrow
    simpa using hk
  | all ts ih =>
    rw [mentions_all, List.mem_flatMap]
    cases ts with
    | nil => simp at hrow
    | cons t ts =>
      rw [rows_all_cons] at hrow
      rcases mem_keys_of_mem_foldl_mergeRows hrow hk with ⟨a, ha, hka⟩ | ⟨u, hu, a, ha, hka⟩
      · exact ⟨t, List.mem_cons_self, ih t List.mem_cons_self ha hka⟩
      · have hmem := List.mem_cons_of_mem t hu
        exact ⟨u, hmem, ih u hmem ha hka⟩
  | any ts ih =>
    rw [rows_any, List.mem_flatMap] at hrow
    obtain ⟨t, ht, hrow⟩ := hrow
    rw [mentions_any, List.mem_flatMap]
    exact ⟨t, ht, ih t ht hrow hk⟩

/-- A condition that mentions no column has no rows. -/
theorem rows_eq_nil_of_mentions {e : Expression} (h : e.mentions = []) : e.rows = [] := by
  induction e with
  | clause c => simp at h
  | all ts ih =>
    cases ts with
    | nil => exact rows_all_nil
    | cons t ts =>
      rw [mentions_all, List.flatMap_cons, List.append_eq_nil_iff] at h
      rw [rows, ih t List.mem_cons_self h.1]
      cases ts with
      | nil => exact rowsWith_nil []
      | cons u us =>
        rw [rowsWith]
        rfl
  | any ts ih =>
    rw [mentions_any, List.flatMap_eq_nil_iff] at h
    rw [rows_any, List.flatMap_eq_nil_iff]
    exact fun t ht => ih t ht (h t ht)

end Expression

end DecisionTable
