import DecisionTable.Proofs.Expansion.Satisfaction
import DecisionTable.Rule.Table

/-!
# Tables show every assignment

The columns of a table are not collected from its rows: those of a bare condition come from its
clauses, and those of a block from rows that are tagged already. Still no row assigns a column
that its table leaves out, whatever the rule (`Table.showsAll_ofRule`).
-/

namespace DecisionTable

/-- Every column that some row assigns is a column of the table. -/
def Table.ShowsAll (t : Table) : Prop := ∀ row ∈ t.rows, ∀ k ∈ row.keys, k ∈ t.columns

namespace Case

/-- A row that is tagged or stands for the fallback assigns columns of the block's table. -/
theorem Block.showsAll_table (b : Block) : b.table.ShowsAll := by
  intro row hrow k hk
  have hcolumns : k ∈ b.table.columns ↔
      k ∈ dataColumns b.outputColumn b.branchRows ∨ k = tagColumn ∨ k = b.outputColumn := by
    simp [Block.table]
  rw [hcolumns]
  rcases List.mem_append.1 hrow with hbranch | hfallback
  · -- a row of a branch: its columns were collected, the output columns apart
    by_cases htag : k = tagColumn
    · exact .inr (.inl htag)
    · by_cases hout : k = b.outputColumn
      · exact .inr (.inr hout)
      · exact .inl (mem_dataColumns.2 ⟨⟨row, hbranch, hk⟩, htag, hout⟩)
  · rw [Option.mem_toList, Option.map_eq_some_iff] at hfallback
    obtain ⟨output, -, rfl⟩ := hfallback
    rcases mem_keys_fallbackRow.1 hk with hout | htag | hdata
    · exact .inr (.inr hout)
    · exact .inr (.inl htag)
    · exact .inl hdata

end Case

namespace Table

theorem showsAll_ofExpression (e : Expression) : (ofExpression e).ShowsAll :=
  fun _ hrow _ hk => Expression.mem_columns.2 (Expression.mem_mentions_of_mem_keys hrow hk)

/-- The table of a block that was read. -/
theorem ofBlock_eq_ok {text : String} {t : Table} (h : ofBlock text = .ok t) :
    ∃ block, Case.Block.read text = .ok block ∧ t = block.table := by
  rw [ofBlock] at h
  cases hblock : Case.Block.read text with
  | ok block =>
    rw [hblock] at h
    exact ⟨block, rfl, (Except.ok.inj h).symm⟩
  | error error =>
    rw [hblock] at h
    cases h

/-- A rule has the table of its block or that of its condition. -/
theorem ofRule_eq_ok {body : String} {t : Table} (h : ofRule body = .ok t) :
    (∃ block : Case.Block, t = block.table) ∨ ∃ e, t = ofExpression e := by
  rw [ofRule] at h
  split at h
  · obtain ⟨block, -, ht⟩ := ofBlock_eq_ok h
    exact .inl ⟨block, ht⟩
  · cases hread : Expression.read body with
    | ok e =>
      rw [hread] at h
      exact .inr ⟨e, (Except.ok.inj h).symm⟩
    | error error =>
      rw [hread] at h
      cases h

/-- The table of a rule shows every assignment of its rows. -/
theorem showsAll_ofRule {body : String} {t : Table} (h : ofRule body = .ok t) : t.ShowsAll := by
  rcases ofRule_eq_ok h with ⟨block, rfl⟩ | ⟨e, rfl⟩
  · exact block.showsAll_table
  · exact showsAll_ofExpression e

end Table

end DecisionTable
