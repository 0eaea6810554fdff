import DecisionTable.Proofs.Case.Layout
import DecisionTable.Proofs.Table.Columns

/-!
# Every assignment in a cell of its own

A table hides nothing: its columns are distinct and are all that its rows assign, so each pair of a
row stands in exactly one of the row's cells, under its own column, and no other cell shows anything
(`Table.assignments_shown`). For a block this takes two output columns that are not the same
(`Case.Block.nodup_columns_table_iff`).
-/

namespace DecisionTable

/-! ## One row -/

/-- Each pair of a row is in one cell, the only one under its column, and every other cell is
empty. -/
structure Row.Fills (row : Row) (columns cells : List String) : Prop where
  length_eq : cells.length = columns.length
  pair : ∀ k v, (k, v) ∈ row.entries →
    ∃ j : Nat, cells[j]? = some v ∧ ∀ i : Nat, columns[i]? = some k ↔ i = j
  empty : ∀ (j : Nat) (k : String), columns[j]? = some k → k ∉ row.keys → cells[j]? = some ""

/-- Under distinct columns that are all it assigns, a row fills its cells. -/
theorem Row.fills_cells {row : Row} {columns : List String} (hnodup : columns.Nodup)
    (hkeys : ∀ k ∈ row.keys, k ∈ columns) : row.Fills columns (row.cells columns) where
  length_eq := row.length_cells columns
  pair := by
    intro k v hentry
    have hget : row.get? k = some v := OrderedMap.get?_eq_some_iff.2 hentry
    obtain ⟨j, hj⟩ := List.mem_iff_getElem?.1 (hkeys k (OrderedMap.mem_keys_of_get? hget))
    refine ⟨j, ?_, fun i => ⟨fun hi => ?_, fun hi => hi ▸ hj⟩⟩
    · rw [cells, List.getElem?_map, hj, Option.map_some, cell, hget, Option.getD_some]
    · have hbound := (List.getElem?_eq_some_iff.1 hi).1
      exact (List.getElem?_inj hbound hnodup).1 (hi.trans hj.symm)
  empty := by
    intro j k hj hk
    rw [cells, List.getElem?_map, hj, Option.map_some, cell_of_not_mem hk]

/-! ## Tables -/

/-- Every assignment of a row is shown in one cell, and nothing else is shown. -/
structure Table.ShowsEachOnce (t : Table) : Prop where
  nodup : t.columns.Nodup
  showsAll : t.ShowsAll
  fills : ∀ (i : Nat) (row : Row), t.rows[i]? = some row →
    ∃ cells, t.cells? i = some cells ∧ row.Fills t.columns cells
  past : ∀ i, t.cells? i = none ↔ t.rows.length ≤ i

/-- It takes distinct columns, and all that the rows assign. -/
theorem Table.ShowsAll.showsEachOnce {t : Table} (hall : t.ShowsAll) (hnodup : t.columns.Nodup) :
    t.ShowsEachOnce where
  nodup := hnodup
  showsAll := hall
  fills := by
    intro i row hrow
    refine ⟨row.cells t.columns, ?_, Row.fills_cells hnodup (hall row (List.mem_of_getElem? hrow))⟩
    rw [cells?, hrow, Option.map_some]
  past := by
    intro i
    rw [← Option.not_isSome_iff_eq_none, cells?_isSome_iff, Nat.not_lt]

/-- The columns of a block's table are distinct just if the output is not called like the tag. -/
theorem Case.Block.nodup_columns_table_iff (b : Block) :
    b.table.columns.Nodup ↔ b.outputColumn ≠ tagColumn := by
  have houtputs : [tagColumn, b.outputColumn].Nodup ↔ b.outputColumn ≠ tagColumn := by
    simp [eq_comm]
  have hcolumns : b.table.columns =
      dataColumns b.outputColumn b.branchRows ++ [tagColumn, b.outputColumn] := rfl
  rw [hcolumns, List.nodup_append, houtputs]
  refine ⟨fun h => h.2.1, fun h => ⟨nodup_dataColumns _ _, h, ?_⟩⟩
  -- the output columns were left out of the data columns
  intro k hk j hj hkj
  obtain ⟨-, htag, hout⟩ := mem_dataColumns.1 hk
  rcases List.mem_pair.1 hj with rfl | rfl
  · exact htag hkj
  · exact hout hkj

namespace Table

open Case

/-- The table of a condition, and that of a block whose output is not called like the tag, show
every assignment of their rows in one cell, under its own column, and nothing in any other cell.
The columns of a condition are those that it mentions, in the order of first mention. -/
theorem assignments_shown :
    (∀ e : Expression, (ofExpression e).ShowsEachOnce ∧
      (∀ k, k ∈ (ofExpression e).columns ↔ k ∈ e.mentions) ∧
      (ofExpression e).columns.Pairwise fun k j => e.mentions.idxOf k < e.mentions.idxOf j) ∧
    ∀ b : Block, b.outputColumn ≠ tagColumn → b.table.ShowsEachOnce := by
  refine ⟨fun e => ⟨?_, fun k => Expression.mem_columns, ?_⟩, fun b hne => ?_⟩
  · exact (showsAll_ofExpression e).showsEachOnce e.nodup_columns
  · exact pairwise_idxOf_eraseDups e.mentions
  · exact b.showsAll_table.showsEachOnce (b.nodup_columns_table_iff.2 hne)

/-- A block that assigns its own output column: the row of the second choice, and what is behind
the row of the fallback. -/
theorem assignments_shown_overlap :
    let condition : Expression :=
      .all [.clause ⟨"tier", .equal, ["x"]⟩, .clause ⟨"a", .oneOf, ["1", "2"]⟩]
    let b : Block := ⟨[⟨condition, "y"⟩], some "z", "tier"⟩
    let row : Row := .ofList [("tier", "y"), ("a", "2"), (tagColumn, "y")]
    b.outputColumn ≠ tagColumn ∧ b.table.columns = ["a", tagColumn, "tier"] ∧
      b.table.rows[1]? = some row ∧ row.Fills b.table.columns ["2", "y", "y"] ∧
      b.table.cells? 3 = none := by
  intro condition b row
  have hne : b.outputColumn ≠ tagColumn := by decide
  have hshows : b.table.ShowsEachOnce := assignments_shown.2 b hne
  have hrow : b.table.rows[1]? = some row := by decide +kernel
  obtain ⟨cells, hcells, hfills⟩ := hshows.fills 1 row hrow
  have hshown : b.table.cells? 1 = some ["2", "y", "y"] := by decide +kernel
  obtain rfl : cells = ["2", "y", "y"] := Option.some.inj (hcells.symm.trans hshown)
  have hlength : b.table.rows.length = 3 := by decide +kernel
  exact ⟨hne, by decide +kernel, hrow, hfills, (hshows.past 3).2 (Nat.le_of_eq hlength)⟩

end Table

end DecisionTable
