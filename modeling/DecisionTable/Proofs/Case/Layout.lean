import DecisionTable.Proofs.Case.Tagging
import DecisionTable.Proofs.Text.Bytes

/-!
# The layout of a block's table

The data columns of a block's table are collected from rows that are tagged already, and still
they are just the columns that the conditions of the branches assign, the output columns apart, in
ascending order. Every row has its place: those of the branches in order, each with the output of
its branch, and then the row of the fallback, which fills all columns in their order
(`Block.table_laid_out`).
-/

namespace DecisionTable.Case

variable {outputColumn : String}

/-! ## The row of the fallback -/

/-- Where the output columns are two and no data columns, the row of the fallback assigns first
the data columns and then them. -/
theorem entries_fallbackRow {columns : List String} (hcolumns : columns.Nodup)
    (htag : tagColumn ∉ columns) (hout : outputColumn ∉ columns) (hne : outputColumn ≠ tagColumn)
    (output : String) :
    (fallbackRow outputColumn columns output).entries =
      columns.map (·, wildcard) ++ [(tagColumn, output), (outputColumn, output)] := by
  have hfst : (columns.map (·, wildcard)).map Prod.fst = columns := by
    simp [Function.comp_def]
  have hdata : (OrderedMap.ofList (columns.map (·, wildcard))).entries =
      columns.map (·, wildcard) := by
    refine (OrderedMap.entries_insertAll ?_).trans (List.nil_append _)
    rw [OrderedMap.entries_empty, List.nil_append, hfst]
    exact hcolumns
  have hkeys : (OrderedMap.ofList (columns.map (·, wildcard))).keys = columns := by
    rw [OrderedMap.keys, hdata, hfst]
  have hnew : outputColumn ∉
      ((OrderedMap.ofList (columns.map (·, wildcard))).insert tagColumn output).keys := by
    rw [OrderedMap.mem_keys_insert, hkeys]
    exact not_or.2 ⟨hne, hout⟩
  rw [← hkeys] at htag
  rw [fallbackRow, tag, OrderedMap.entries_insert_of_not_mem hnew,
    OrderedMap.entries_insert_of_not_mem htag, hdata, List.append_assoc, List.singleton_append]

/-! ## Rows and columns -/

theorem pairwise_dataColumns (outputColumn : String) (rows : List Row) :
    (dataColumns outputColumn rows).Pairwise (· < ·) :=
  pairwise_ascending _

theorem nodup_dataColumns (outputColumn : String) (rows : List Row) :
    (dataColumns outputColumn rows).Nodup := by
  refine List.Pairwise.imp ?_ (pairwise_dataColumns outputColumn rows)
  rintro s _ hlt rfl
  exact String.lt_irrefl s hlt

namespace Block

/-- The branches have as many rows as their conditions. -/
theorem length_branchRows (b : Block) :
    b.branchRows.length = (b.branches.flatMap fun p => p.condition.rows).length := by
  simp only [branchRows, List.length_flatMap, List.length_map]

/-- The data columns are those of the conditions, the output columns apart. -/
theorem mem_dataColumns_branchRows {b : Block} {k : String} :
    k ∈ dataColumns b.outputColumn b.branchRows ↔
      (∃ branch ∈ b.branches, ∃ row ∈ branch.condition.rows, k ∈ row.keys) ∧
        k ≠ tagColumn ∧ k ≠ b.outputColumn := by
  rw [mem_dataColumns]
  refine and_congr_left fun ⟨htag, hout⟩ => ?_
  simp only [branchRows, List.mem_flatMap, List.mem_map]
  constructor
  · rintro ⟨_, ⟨branch, hbranch, row, hrow, rfl⟩, hk⟩
    -- the tag adds the output columns only
    have hk : k ∈ row.keys := by simpa [mem_keys_tag, htag, hout] using hk
    exact ⟨branch, hbranch, row, hrow, hk⟩
  · rintro ⟨branch, hbranch, row, hrow, hk⟩
    exact ⟨_, ⟨branch, hbranch, row, hrow, rfl⟩, mem_keys_tag.2 (.inr (.inr hk))⟩

/-- The columns of a block's table are the columns that the conditions assign, the output columns
apart, in the strictly ascending order of their bytes, and then the two output columns. The table
has the rows of all branches, each at its place with the output of its branch under both output
columns. If there is a fallback one more row comes last, which assigns all columns in their order:
any value to a data column, and the fallback to the output columns. -/
theorem table_laid_out (b : Block) (h : b.outputColumn ≠ tagColumn) :
    ∃ data : List String,
      b.table.columns = data ++ [tagColumn, b.outputColumn] ∧
      data.Pairwise (fun s t => Text.utf8Bytes s < Text.utf8Bytes t) ∧
      (∀ k, k ∈ data ↔
        (∃ branch ∈ b.branches, ∃ row ∈ branch.condition.rows, k ∈ row.keys) ∧
          k ≠ tagColumn ∧ k ≠ b.outputColumn) ∧
      b.table.rows.length =
        (b.branches.flatMap fun p => p.condition.rows).length +
          (if b.fallback.isSome then 1 else 0) ∧
      (∀ before branch after, b.branches = before ++ branch :: after →
        ∀ j row, branch.condition.rows[j]? = some row →
          ∃ tagged,
            b.table.rows[(before.flatMap fun p => p.condition.rows).length + j]? = some tagged ∧
            tagged.get? tagColumn = some branch.output ∧
            tagged.get? b.outputColumn = some branch.output) ∧
      ∀ output, b.fallback = some output →
        ∃ last, b.table.rows.getLast? = some last ∧ last.keys = b.table.columns ∧
          last.entries =
            data.map (·, wildcard) ++ [(tagColumn, output), (b.outputColumn, output)] := by
  have hmem {k : String} := mem_dataColumns_branchRows (b := b) (k := k)
  refine ⟨dataColumns b.outputColumn b.branchRows, rfl,
    (pairwise_dataColumns _ _).imp Text.utf8Bytes_lt_iff.2, fun k => hmem, ?_, ?_, ?_⟩
  · rw [← length_branchRows, table, List.length_append]
    cases b.fallback <;> rfl
  · intro before branch after hb j row hrow
    refine ⟨_, getElem?_rows_table hb hrow, ?_, ?_⟩
    · rw [get?_tag, if_pos (.inr rfl)]
    · rw [get?_tag, if_pos (.inl rfl)]
  · intro output houtput
    have hentries := entries_fallbackRow (nodup_dataColumns b.outputColumn b.branchRows)
      (fun hk => (hmem.1 hk).2.1 rfl) (fun hk => (hmem.1 hk).2.2 rfl) h output
    refine ⟨_, ?_, ?_, hentries⟩
    · rw [table, houtput]
      exact List.getLast?_concat
    · rw [OrderedMap.keys, hentries]
      simp [table, Function.comp_def]

/-- The output is called like a column of the first branch, and the second branch has no row. -/
theorem table_laid_out_overlap :
    let first : Branch :=
      ⟨.any [.clause ⟨"tier", .equal, ["1"]⟩, .clause ⟨"é", .equal, ["2"]⟩], "x"⟩
    let second : Branch :=
      ⟨.all [.clause ⟨"a", .equal, ["1"]⟩, .clause ⟨"a", .equal, ["2"]⟩], "y"⟩
    let b : Block := ⟨[first, second, ⟨.clause ⟨"z", .equal, ["3"]⟩, "w"⟩], some "n", "tier"⟩
    b.outputColumn ≠ tagColumn ∧ b.table.columns = ["z", "é", tagColumn, "tier"] ∧
      b.table.rows.length = 4 ∧ ∃ last, b.table.rows.getLast? = some last ∧
        last.keys = b.table.columns ∧ last.get? "é" = some wildcard := by
  intro first second b
  have hne : b.outputColumn ≠ tagColumn := by decide
  obtain ⟨data, hcolumns, -, -, hlength, -, hfallback⟩ := table_laid_out b hne
  obtain ⟨last, hlast, hkeys, hentries⟩ := hfallback "n" rfl
  have htable : b.table.columns = ["z", "é", tagColumn, "tier"] := by decide +kernel
  have hdata : data = ["z", "é"] := List.append_cancel_right (hcolumns.symm.trans htable)
  refine ⟨hne, htable, ?_, last, hlast, hkeys, ?_⟩
  · rw [hlength]
    decide +kernel
  · rw [OrderedMap.get?_eq_some_iff, hentries, hdata]
    simp

end Block

end DecisionTable.Case
