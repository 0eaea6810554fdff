import DecisionTable.Proofs.Case.Layout
import DecisionTable.Proofs.Case.Tagging
import DecisionTable.Proofs.Table.Alignment
import DecisionTable.Proofs.Table.Columns
import DecisionTable.Proofs.Text.Trimming
import DecisionTable.Proofs.Text.Words
import DecisionTable.Text.Separated

/-!
# Columns read back from a header

The first line of an aligned table names its columns: split at the separators, each part without
the blanks behind it is a column (`Layout.headerNames_render`). That needs names without a bar or a
line feed and without a blank at the end. All tables that come from texts have such names
(`Expression.isHeading_of_mem_columns`, `Case.Block.isHeading_of_mem_columns`).
-/

namespace DecisionTable

open Text

/-! ## Names that can be read back -/

/-- A name that can be told from the separators and blanks around it. -/
structure IsHeading (name : String) : Prop where
  bar : '|' ∉ name.toList
  newline : '\n' ∉ name.toList
  last : ∀ c, name.toList.getLast? = some c → isBlank c = false

/-- A name of word characters, points and `@`. -/
theorem isHeading_of_forall {name : String}
    (h : ∀ c ∈ name.toList, Token.isName c = true ∨ c = '@') : IsHeading name where
  bar hmem := absurd (h _ hmem) (by decide)
  newline hmem := absurd (h _ hmem) (by decide)
  last := by
    intro c hc
    rcases h c (List.mem_of_getLast? hc) with hname | rfl
    · by_cases hword : isWord c = true
      · exact isBlank_of_isWord hword
      · have hpoint : c = '.' := by simpa [Token.isName, hword] using hname
        rw [hpoint]
        decide
    · decide

theorem Expression.isHeading_of_mem_columns {text : String} {e : Expression}
    (h : Expression.read text = .ok e) {name : String} (hname : name ∈ e.columns) :
    IsHeading name :=
  isHeading_of_forall (isName_or_eq_at_of_mem_mentions h (mem_columns.1 hname))

/-- A condition with rows mentions a column. -/
theorem Expression.columns_ne_nil {e : Expression} (h : e.rows ≠ []) : e.columns ≠ [] := by
  intro hcolumns
  refine h (rows_eq_nil_of_mentions (List.eq_nil_iff_forall_not_mem.2 fun k hk => ?_))
  have hmem := mem_columns.2 hk
  rw [hcolumns] at hmem
  cases hmem

namespace Case

/-- The output of a block that was read has a column of word characters, whether the block names
it or not. -/
theorem Block.isHeading_outputColumn {text : String} {b : Block} (h : Block.read text = .ok b) :
    IsHeading b.outputColumn := by
  obtain ⟨o, -, -, hnames⟩ := Block.exists_names h
  refine isHeading_of_forall fun c hc => .inl (Token.isName_of_isWord ?_)
  rcases hnames.outputColumn with hgives | ⟨-, hdefault⟩
  · exact hgives.isWord_of_mem c hc
  · have hletters : "output".toList.all isWord = true := by decide
    rw [hdefault] at hc
    exact List.all_eq_true.1 hletters c hc

theorem isHeading_tagColumn : IsHeading tagColumn where
  bar := by decide
  newline := by decide
  last := by
    intro c hc
    have hlast : tagColumn.toList.getLast? = some 'd' := by decide
    obtain rfl : 'd' = c := Option.some.inj (hlast.symm.trans hc)
    decide

theorem Block.isHeading_of_mem_columns {text : String} {b : Block} (h : Block.read text = .ok b)
    {name : String} (hname : name ∈ b.table.columns) : IsHeading name := by
  have hcolumns : name ∈ dataColumns b.outputColumn b.branchRows ∨ name = tagColumn ∨
      name = b.outputColumn := by simpa [Block.table] using hname
  rcases hcolumns with hdata | rfl | rfl
  · obtain ⟨⟨branch, hbranch, row, hrow, hk⟩, -⟩ := mem_dataColumns_branchRows.1 hdata
    obtain ⟨condition, hread⟩ := exists_read_of_mem_branches h hbranch
    exact Expression.isHeading_of_mem_columns hread
      (Expression.mem_columns.2 (Expression.mem_mentions_of_mem_keys hrow hk))
  · exact isHeading_tagColumn
  · exact Block.isHeading_outputColumn h

end Case

/-! ## The header -/

namespace Layout

/-- The names in the first line of a text: the parts between the separators, without the blanks
behind them. -/
def headerNames (text : String) : List String :=
  (split [' ', '|', ' '] (text.toList.takeWhile (· ≠ '\n'))).map fun part =>
    .ofList (trimRight part)

variable {rows : List Row} {columns : List String}

/-- The first line of a table is its header. -/
theorem takeWhile_render (hrows : rows ≠ []) (hnames : ∀ name ∈ columns, '\n' ∉ name.toList) :
    (render rows columns).toList.takeWhile (· ≠ '\n') =
      textLine (widths rows columns) columns := by
  have hline : ∀ c ∈ textLine (widths rows columns) columns, decide (c ≠ '\n') = true := by
    intro c hc
    exact decide_eq_true fun he => newline_not_mem_textLine hnames (he ▸ hc)
  rw [render, String.toList_ofList, lines_of_ne_nil hrows, List.flatMap_cons, List.append_assoc,
    List.takeWhile_append_of_pos hline, List.singleton_append,
    List.takeWhile_cons_of_neg (by simp), List.append_nil]

theorem bar_not_mem_pad {name : String} (h : IsHeading name) (w : Nat) : '|' ∉ pad w name := by
  rw [pad, List.mem_append, not_or]
  exact ⟨h.bar, fun hmem => absurd (List.eq_of_mem_replicate hmem) (by decide)⟩

theorem ofList_trimRight_pad {name : String} (h : IsHeading name) (w : Nat) :
    String.ofList (trimRight (pad w name)) = name := by
  rw [pad, trimRight, stripRight_append (fun c hc => ?_) h.last, String.ofList_toList]
  rw [List.eq_of_mem_replicate hc]
  decide

theorem headerNames_of_isHeading (hrows : rows ≠ []) (hcolumns : columns ≠ [])
    (h : ∀ name ∈ columns, IsHeading name) : headerNames (render rows columns) = columns := by
  have hparts : List.zipWith pad (widths rows columns) columns =
      columns.map fun name => pad (width rows name) name := by
    rw [widths, List.zipWith_map_left, List.zipWith_self]
  have hsplit : split [' ', '|', ' '] (textLine (widths rows columns) columns) =
      columns.map fun name => pad (width rows name) name := by
    rw [textLine, hparts]
    refine split_intercalate (m := '|') (by decide) (List.forall_mem_map.2 fun name hname => ?_)
      (by simpa using hcolumns)
    exact bar_not_mem_pad (h name hname) _
  rw [headerNames, takeWhile_render hrows fun name hname => (h name hname).newline, hsplit,
    List.map_map]
  conv => rhs; rw [← List.map_id columns]
  exact List.map_congr_left fun name hname => ofList_trimRight_pad (h name hname) _

/-- The columns of a table can be read off its first line, if none of their names has a bar or a
line feed in it or a blank at its end. So it is for every table with rows that is made from the
text of a condition or of a block. -/
theorem headerNames_render :
    (∀ (rows : List Row) (columns : List String), rows ≠ [] → columns ≠ [] →
      (∀ name ∈ columns, '|' ∉ name.toList ∧ '\n' ∉ name.toList ∧
        ∀ c, name.toList.getLast? = some c → isBlank c = false) →
      headerNames (render rows columns) = columns) ∧
    (∀ text e, Expression.read text = .ok e → (Table.ofExpression e).rows ≠ [] →
      headerNames (Table.ofExpression e).render = (Table.ofExpression e).columns) ∧
    (∀ text t, Table.ofBlock text = .ok t → t.rows ≠ [] → headerNames t.render = t.columns) := by
  refine ⟨fun rows columns hrows hcolumns h => ?_, fun text e hread hrows => ?_,
    fun text t hread hrows => ?_⟩
  · refine headerNames_of_isHeading hrows hcolumns fun name hname => ?_
    obtain ⟨hbar, hnewline, hlast⟩ := h name hname
    exact ⟨hbar, hnewline, hlast⟩
  · exact headerNames_of_isHeading hrows (Expression.columns_ne_nil hrows)
      fun name hname => Expression.isHeading_of_mem_columns hread hname
  · obtain ⟨b, hb, rfl⟩ := Table.ofBlock_eq_ok hread
    exact headerNames_of_isHeading hrows (by simp [Case.Block.table])
      fun name hname => Case.Block.isHeading_of_mem_columns hb hname

/-- Names that are empty, repeated or begin with a space; a condition with a column without a name;
and a block whose output has a bar in it. -/
theorem headerNames_render_spaced :
    let rows : List Row := [.ofList [("b", "x"), (" b", "longer")]]
    let columns := [" b", "", "b", ""]
    let e : Expression := .all [.clause ⟨"", .equal, ["1"]⟩, .clause ⟨"@p", .equal, ["a | b"]⟩]
    let b : Case.Block := ⟨[⟨.clause ⟨"c1", .equal, ["v"]⟩, "a | b"⟩], none, "tier"⟩
    headerNames (render rows columns) = columns ∧
      Expression.read "t. = 1 AND @p = 'a | b'" = .ok e ∧
      headerNames (Table.ofExpression e).render = ["", "@p"] ∧
      Table.ofBlock "CASE WHEN t.c1 = 'v' THEN 'a | b' END AS tier" = .ok b.table ∧
      headerNames b.table.render = ["c1", "direct mapped", "tier"] := by
  intro rows columns e b
  have hnames : ∀ name ∈ columns, '|' ∉ name.toList ∧ '\n' ∉ name.toList ∧
      ∀ c, name.toList.getLast? = some c → isBlank c = false := by
    have hlast : columns.all (fun name => name.toList.getLast?.all fun c => !isBlank c) = true := by
      decide +kernel
    have hbar : columns.all (fun name => !name.toList.contains '|') = true := by decide +kernel
    have hnewline : columns.all (fun name => !name.toList.contains '\n') = true := by
      decide +kernel
    simp only [List.all_eq_true] at hlast hbar hnewline
    intro name hname
    refine ⟨by simpa using hbar name hname, by simpa using hnewline name hname, fun c hc => ?_⟩
    have hblank := hlast name hname
    rw [hc] at hblank
    simpa using hblank
  have hscan : Token.scan "t. = 1 AND @p = 'a | b'" =
      [.word "t.", .comparison .equal, .word "1", .andKw, .word "@p", .comparison .equal,
        .literal "'a | b'"] := by decide +kernel
  have hread : Expression.read "t. = 1 AND @p = 'a | b'" = .ok e := by
    rw [Expression.read, hscan]
    decide +kernel
  have hblock : Case.Block.read "CASE WHEN t.c1 = 'v' THEN 'a | b' END AS tier" = .ok b := by
    decide +kernel
  have htable : Table.ofBlock "CASE WHEN t.c1 = 'v' THEN 'a | b' END AS tier" =
      .ok b.table := by rw [Table.ofBlock, hblock]
  have he : e.columns = ["", "@p"] := by decide +kernel
  have hb : b.table.columns = ["c1", "direct mapped", "tier"] := by decide +kernel
  obtain ⟨hheader, hcondition, hcase⟩ := headerNames_render
  exact ⟨hheader rows columns (by decide) (by decide) hnames, hread,
    (hcondition _ e hread (by decide +kernel)).trans he, htable,
    (hcase _ _ htable (by decide +kernel)).trans hb⟩

end Layout

end DecisionTable
