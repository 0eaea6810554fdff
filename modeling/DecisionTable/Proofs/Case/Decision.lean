import Mathlib.Data.List.Find
import DecisionTable.Case.Decision
import DecisionTable.Proofs.Expansion.Satisfaction

/-!
# The table of a block decides as the block does

Reading the table from the top and stopping at the first row that applies gives, under both
output columns, the output that the block decides on (`Block.matchingRow_decides`). The
conditions must not mention the output columns: there the tag takes the place of what the
row assigned.
-/

namespace DecisionTable.Case

variable {outputColumn : String} {σ : Valuation}

/-! ## Tagged rows -/

theorem applies_iff {row : Row} :
    applies outputColumn σ row = true ↔
      ∀ k v, row.get? k = some v → k = tagColumn ∨ k = outputColumn ∨ σ k = v := by
  simp only [applies, List.all_eq_true, Bool.or_eq_true, decide_eq_true_eq,
    OrderedMap.get?_eq_some_iff, or_assoc]
  exact ⟨fun h k v hk => h (k, v) hk, fun h e he => h e.1 e.2 he⟩

theorem get?_tag (output : String) (row : Row) (k : String) :
    (tag outputColumn output row).get? k =
      if outputColumn = k ∨ tagColumn = k then some output else row.get? k := by
  rw [tag, OrderedMap.get?_insert, OrderedMap.get?_insert]
  by_cases ho : outputColumn = k
  · rw [if_pos ho, if_pos (.inl ho)]
  · simp [ho]

/-- What a row shows under the output columns. -/
def outputs (outputColumn : String) (row : Row) : Option String × Option String :=
  (row.get? outputColumn, row.get? tagColumn)

@[simp] theorem outputs_tag (output : String) (row : Row) :
    outputs outputColumn (tag outputColumn output row) = (some output, some output) := by
  simp [outputs, get?_tag]

/-- A tagged row applies where the row agreed before, if the tag overwrote nothing. -/
theorem applies_tag {row : Row} (htag : tagColumn ∉ row.keys) (hout : outputColumn ∉ row.keys)
    (output : String) :
    applies outputColumn σ (tag outputColumn output row) = row.agreesWith σ := by
  rw [Bool.eq_iff_iff, applies_iff, Row.agreesWith_iff]
  constructor
  · intro h k v hk
    have hmem : k ∈ row.keys := OrderedMap.mem_keys_of_get? hk
    have hkout : k ≠ outputColumn := fun he => hout (he ▸ hmem)
    have hktag : k ≠ tagColumn := fun he => htag (he ▸ hmem)
    have hget : (tag outputColumn output row).get? k = some v := by
      rw [get?_tag, if_neg (not_or.2 ⟨hkout.symm, hktag.symm⟩), hk]
    rcases h k v hget with he | he | he
    · exact absurd he hktag
    · exact absurd he hkout
    · exact he
  · intro h k v hk
    rw [get?_tag] at hk
    split at hk
    · next he => exact he.symm.imp Eq.symm fun he => .inl he.symm
    · exact .inr (.inr (h k v hk))

/-! ## Branches -/

/-- The condition of the branch mentions neither output column. -/
def Branch.AvoidsOutputs (outputColumn : String) (branch : Branch) : Prop :=
  outputColumn ∉ branch.condition.columns ∧ tagColumn ∉ branch.condition.columns

instance (branch : Branch) : Decidable (branch.AvoidsOutputs outputColumn) :=
  inferInstanceAs (Decidable (_ ∧ _))

/-- The first row of a branch that applies is a row of the condition that agrees. -/
theorem find?_applies_rows {branch : Branch} (h : branch.AvoidsOutputs outputColumn) :
    (branch.condition.rows.map (tag outputColumn branch.output)).find?
        (applies outputColumn σ) =
      (branch.condition.rows.find? (Row.agreesWith σ)).map (tag outputColumn branch.output) := by
  rw [List.find?_map]
  congr 1
  refine List.find?_congr fun row hrow => applies_tag ?_ ?_ branch.output
  · exact fun hk => h.2 (Expression.mem_columns.2 (Expression.mem_mentions_of_mem_keys hrow hk))
  · exact fun hk => h.1 (Expression.mem_columns.2 (Expression.mem_mentions_of_mem_keys hrow hk))

/-- Among the rows of all branches, the first that applies shows the output of the first
branch that holds. -/
theorem find?_applies_branches {branches : List Branch}
    (h : ∀ branch ∈ branches, branch.AvoidsOutputs outputColumn) :
    ((branches.flatMap fun branch =>
        branch.condition.rows.map (tag outputColumn branch.output)).find?
          (applies outputColumn σ)).map (outputs outputColumn) =
      (branches.find? fun branch => branch.condition.holds σ).map
        fun branch => (some branch.output, some branch.output) := by
  induction branches with
  | nil => rfl
  | cons branch branches ih =>
    rw [List.flatMap_cons, List.find?_append, find?_applies_rows (h branch List.mem_cons_self)]
    cases hrow : branch.condition.rows.find? (Row.agreesWith σ) with
    | none =>
      -- expansion loses no row, so a branch without a row that agrees does not hold
      have hno : branch.condition.holds σ = false := by
        rw [← Bool.not_eq_true, ← Expression.covers_rows_iff]
        rintro ⟨row, hmem, hσ⟩
        exact List.find?_eq_none.1 hrow row hmem hσ
      rw [Option.map_none, Option.none_or, ih fun b hb => h b (List.mem_cons_of_mem _ hb)]
      simp only [List.find?_cons, hno]
    | some row =>
      have hyes : branch.condition.holds σ = true :=
        Expression.covers_rows_iff.1 ⟨row, List.mem_of_find?_eq_some hrow, List.find?_some hrow⟩
      simp only [List.find?_cons, hyes, Option.map_some, Option.some_or, outputs_tag]

/-! ## Blocks -/

namespace Block

theorem decide_eq (b : Block) (σ : Valuation) :
    b.decide σ =
      ((b.branches.find? fun branch => branch.condition.holds σ).map Branch.output).or
        b.fallback := by
  rw [decide]
  cases b.branches.find? fun branch => branch.condition.holds σ <;> rfl

theorem decide_eq_none_iff {b : Block} :
    b.decide σ = none ↔
      (∀ branch ∈ b.branches, branch.condition.holds σ = false) ∧ b.fallback = none := by
  rw [decide_eq, Option.or_eq_none_iff, Option.map_eq_none_iff, List.find?_eq_none]
  simp only [Bool.not_eq_true]

/-- What the matching row shows, and that there is one, follows from what the block decides. -/
theorem map_outputs_matchingRow {b : Block}
    (h : ∀ branch ∈ b.branches, branch.AvoidsOutputs b.outputColumn) :
    (b.matchingRow σ).map (outputs b.outputColumn) =
      (b.decide σ).map fun output => (some output, some output) := by
  have hbranches := find?_applies_branches (σ := σ) h
  rw [matchingRow, table, decide_eq]
  cases hf : b.fallback with
  | none =>
    simp only [Option.isSome_none, firstMatch_false, Option.map_none, Option.toList_none,
      List.append_nil, Option.or_none, Option.map_map]
    exact hbranches
  | some fallback =>
    simp only [Option.isSome_some, Option.map_some, Option.toList_some,
      firstMatch_true_append_singleton]
    -- the last row applies to everything, so it decides where no branch does
    cases hrow : b.branchRows.find? (applies b.outputColumn σ) with
    | none =>
      rw [branchRows] at hrow
      rw [hrow, Option.map_none, eq_comm, Option.map_eq_none_iff] at hbranches
      simp [hbranches, fallbackRow]
    | some row =>
      rw [branchRows] at hrow
      rw [hrow, Option.map_some, eq_comm, Option.map_eq_some_iff] at hbranches
      obtain ⟨branch, hbranch, houtputs⟩ := hbranches
      simp [hbranch, houtputs]

/-- The table decides as the block does. The first row that applies shows, under the output
column and under the tag column, the output of the first branch that holds, or else the
fallback; no row applies just where no branch holds and there is no fallback. -/
theorem matchingRow_decides (b : Block) (σ : Valuation)
    (h : ∀ branch ∈ b.branches,
      b.outputColumn ∉ branch.condition.columns ∧ tagColumn ∉ branch.condition.columns) :
    ((b.matchingRow σ).map fun row => (row.get? b.outputColumn, row.get? tagColumn)) =
        ((b.decide σ).map fun output => (some output, some output)) ∧
      (b.matchingRow σ = none ↔
        (∀ branch ∈ b.branches, branch.condition.holds σ = false) ∧ b.fallback = none) := by
  have hmap := map_outputs_matchingRow (σ := σ) h
  refine ⟨hmap, ?_⟩
  rw [← decide_eq_none_iff, ← Option.map_eq_none_iff (f := outputs b.outputColumn), hmap,
    Option.map_eq_none_iff]

/-- Two branches that overlap, the first with a conflict among its choices. -/
theorem matchingRow_decides_overlap :
    let first : Expression :=
      .all [.any [.clause ⟨"c", .equal, ["1"]⟩, .clause ⟨"d", .equal, ["2"]⟩],
        .clause ⟨"c", .oneOf, ["1", "3"]⟩]
    let b : Block :=
      ⟨[⟨first, "x"⟩, ⟨.clause ⟨"d", .equal, ["2"]⟩, "y"⟩], some "z", "kind"⟩
    let σ : Valuation := fun column => if column = "c" then "3" else "2"
    (∀ branch ∈ b.branches,
      b.outputColumn ∉ branch.condition.columns ∧ tagColumn ∉ branch.condition.columns) ∧
    ((b.matchingRow σ).map fun row => (row.get? b.outputColumn, row.get? tagColumn)) =
      some (some "x", some "x") := by
  intro first b σ
  have havoid : ∀ branch ∈ b.branches,
      b.outputColumn ∉ branch.condition.columns ∧ tagColumn ∉ branch.condition.columns := by
    decide
  have hdecide : b.decide σ = some "x" := by decide
  refine ⟨havoid, ?_⟩
  rw [(matchingRow_decides b σ havoid).1, hdecide]
  rfl

end Block

end DecisionTable.Case
