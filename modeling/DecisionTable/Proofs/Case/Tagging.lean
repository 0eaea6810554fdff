import DecisionTable.Proofs.Case.Decision
import DecisionTable.Proofs.Case.Shape
import DecisionTable.Proofs.Condition.Provenance
import DecisionTable.Proofs.Condition.Soundness

/-!
# What tags do to the rows of a block

Every row of a branch is in the table of its block, in order, with the output of the branch
under two more columns (`Block.exists_tagged_row`). One of them has a space in its name, so no
condition that was read can mention it. The other has the name that the block gives it. A
condition may mention a column of that name; there the output takes the place of the value.
-/

namespace DecisionTable

open Token

/-! ## Columns of a condition that was read -/

/-- A condition that was read mentions columns with the characters of names. -/
theorem Expression.isName_or_eq_at_of_mem_mentions {text : String} {e : Expression}
    (h : Expression.read text = .ok e) {k : String} (hk : k ∈ e.mentions) :
    ∀ d ∈ k.toList, isName d = true ∨ d = '@' := by
  obtain ⟨c, hc, rfl⟩ := List.mem_map.1 hk
  have hclauses := (Grammar.Derives.of_ofTokens h).scanned fun _ => scannable_of_mem_ofChars
  exact (hclauses c hc).isName_or_eq_at

namespace Case

theorem tagColumn_not_mem_mentions {text : String} {e : Expression}
    (h : Expression.read text = .ok e) : tagColumn ∉ e.mentions := by
  intro hk
  have hspace : ' ' ∈ tagColumn.toList := by decide
  exact absurd (Expression.isName_or_eq_at_of_mem_mentions h hk ' ' hspace) (by decide)

/-- A branch has a condition that was read. -/
theorem exists_read_of_mem_branches {text : String} {b : Block} (h : Block.read text = .ok b)
    {branch : Branch} (hbranch : branch ∈ b.branches) :
    ∃ condition, Expression.read condition = .ok branch.condition := by
  obtain ⟨o, -, -, hnames⟩ := Block.exists_names h
  -- behind the branches before it, the branch is the first that some segments denote
  obtain ⟨before, after, hsplit⟩ := List.append_of_mem hbranch
  have hdrop := List.forall₂_drop before.length hnames.branches
  rw [hsplit, List.drop_left] at hdrop
  obtain ⟨segments, -, hdenotes, -, -⟩ := List.forall₂_cons_right_iff.1 hdrop
  exact ⟨_, hdenotes.1⟩

/-! ## The rows of a branch -/

/-- In lists put together, an element of one of them stands behind those of the lists before. -/
theorem getElem?_flatMap_of_append {α β : Type} {f : α → List β} {before after : List α} {a : α}
    {j : Nat} {x : β} (h : (f a)[j]? = some x) :
    ((before ++ a :: after).flatMap f)[(before.flatMap f).length + j]? = some x := by
  rw [List.flatMap_append, List.flatMap_cons, List.getElem?_append_right (Nat.le_add_right _ j),
    Nat.add_sub_cancel_left, List.getElem?_append_left (List.getElem?_eq_some_iff.1 h).1, h]

/-- The rows of a branch are in the table of the block, tagged, behind those of the branches
before it. -/
theorem Block.getElem?_rows_table {b : Block} {before after : List Branch} {branch : Branch}
    (hb : b.branches = before ++ branch :: after) {j : Nat} {row : Row}
    (hrow : branch.condition.rows[j]? = some row) :
    b.table.rows[(before.flatMap fun p => p.condition.rows).length + j]? =
      some (tag b.outputColumn branch.output row) := by
  let tagged (p : Branch) : List Row := p.condition.rows.map (tag b.outputColumn p.output)
  have hlength : (before.flatMap tagged).length =
      (before.flatMap fun p => p.condition.rows).length := by
    simp only [List.length_flatMap, tagged, List.length_map]
  have htagged : (tagged branch)[j]? = some (tag b.outputColumn branch.output row) := by
    rw [List.getElem?_map, hrow, Option.map_some]
  have hrows : b.branchRows = (before ++ branch :: after).flatMap tagged := by
    rw [← hb, branchRows]
  have hbranch : b.branchRows[(before.flatMap fun p => p.condition.rows).length + j]? =
      some (tag b.outputColumn branch.output row) := by
    rw [hrows, ← hlength]
    exact getElem?_flatMap_of_append htagged
  rw [table, List.getElem?_append_left (List.getElem?_eq_some_iff.1 hbranch).1, hbranch]

/-- Let a block be read from a text, and take a row of the condition of one of its branches. The
table has a row for it, behind those of the branches before and of the rows before it. This row
has every assignment of the other but perhaps that of the output column, and has the output of
the branch under both output columns. So it keeps all assignments exactly if the output column
has the output there already or nothing at all. -/
theorem Block.exists_tagged_row {text : String} {b : Block} (h : Block.read text = .ok b)
    {before after : List Branch} {branch : Branch} (hb : b.branches = before ++ branch :: after)
    {j : Nat} {row : Row} (hrow : branch.condition.rows[j]? = some row) :
    ∃ tagged, b.table.rows[(before.flatMap fun p => p.condition.rows).length + j]? = some tagged ∧
      (∀ k v, row.get? k = some v → k ≠ b.outputColumn → tagged.get? k = some v) ∧
      tagged.get? tagColumn = some branch.output ∧
      tagged.get? b.outputColumn = some branch.output ∧
      ((∀ k v, row.get? k = some v → tagged.get? k = some v) ↔
        ∀ v, row.get? b.outputColumn = some v → v = branch.output) := by
  have hmem : branch ∈ b.branches := by simp [hb]
  obtain ⟨condition, hread⟩ := exists_read_of_mem_branches h hmem
  -- what was read assigns nothing under the tag
  have htag : ∀ k v, row.get? k = some v → tagColumn ≠ k := by
    rintro k v hk rfl
    exact tagColumn_not_mem_mentions hread (Expression.mem_mentions_of_mem_keys
      (List.mem_of_getElem? hrow) (OrderedMap.mem_keys_of_get? hk))
  have hkeep : ∀ k v, row.get? k = some v → k ≠ b.outputColumn →
      (tag b.outputColumn branch.output row).get? k = some v := by
    intro k v hk hne
    rw [get?_tag, if_neg (not_or.2 ⟨Ne.symm hne, htag k v hk⟩), hk]
  have hout : (tag b.outputColumn branch.output row).get? b.outputColumn =
      some branch.output := by
    rw [get?_tag, if_pos (.inl rfl)]
  refine ⟨_, getElem?_rows_table hb hrow, hkeep, ?_, hout, fun hall v hv => ?_,
    fun hsame k v hk => ?_⟩
  · rw [get?_tag, if_pos (.inr rfl)]
  · exact Option.some.inj ((hall _ v hv).symm.trans hout)
  · by_cases hne : k = b.outputColumn
    · subst hne
      rw [hout, hsame v hk]
    · exact hkeep k v hk hne

/-- The first row of a second branch, whose condition mentions the output column. -/
theorem Block.exists_tagged_row_second :
    let text := "CASE WHEN c1 IN ('u', 'v') THEN 'a' " ++
      "WHEN c2 = 'w' AND tier IN ('a', 'b') THEN 'b' END AS tier"
    let first : Branch := ⟨.clause ⟨"c1", .oneOf, ["u", "v"]⟩, "a"⟩
    let second : Branch :=
      ⟨.all [.clause ⟨"c2", .equal, ["w"]⟩, .clause ⟨"tier", .oneOf, ["a", "b"]⟩], "b"⟩
    let b : Block := ⟨[first, second], none, "tier"⟩
    let row : Row := .ofList [("c2", "w"), ("tier", "a")]
    read text = .ok b ∧ second.condition.rows[0]? = some row ∧
      ∃ tagged, b.table.rows[2]? = some tagged ∧ tagged.get? "c2" = some "w" ∧
        tagged.get? tagColumn = some "b" ∧ tagged.get? "tier" = some "b" := by
  intro text first second b row
  have hread : read text = .ok b := by decide +kernel
  have hb : b.branches = [first] ++ second :: [] := rfl
  have hrow : second.condition.rows[0]? = some row := by decide +kernel
  obtain ⟨tagged, hplace, hkeep, htag, hout, -⟩ := exists_tagged_row hread hb hrow
  have hlength : ([first].flatMap fun p => p.condition.rows).length + 0 = 2 := by decide +kernel
  rw [hlength] at hplace
  exact ⟨hread, hrow, tagged, hplace, hkeep "c2" "w" (by decide +kernel) (by decide), htag, hout⟩

/-- A row loses what it assigned under the name of the output. -/
theorem Block.tagged_row_overwritten :
    let text := "CASE WHEN c1 = 'v1' THEN 'a' END AS c1"
    let branch : Branch := ⟨.clause ⟨"c1", .equal, ["v1"]⟩, "a"⟩
    ∃ b row tagged, read text = .ok b ∧ b.branches = [] ++ branch :: [] ∧
      branch.condition.rows[0]? = some row ∧ b.table.rows[0]? = some tagged ∧
      row.get? "c1" = some "v1" ∧ tagged.get? "c1" ≠ some "v1" := by
  intro text branch
  let b : Block := ⟨[branch], none, "c1"⟩
  have hread : read text = .ok b := by decide +kernel
  refine ⟨b, .ofList [("c1", "v1")], .ofList [("c1", "a"), (tagColumn, "a")], hread, rfl, ?_⟩
  decide +kernel

end Case

end DecisionTable
