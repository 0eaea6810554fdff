import Mathlib.Algebra.GroupWithZero.Nat
import Mathlib.Data.List.Forall2
import DecisionTable.Table.Layout

/-!
# Aligned lines

Every line of a table that is shown as text has the same length, and each column fills the same
places in all of them (`Layout.render_aligned`). `InColumns` says what it is for one line to show
texts in columns; it is preserved when a column is put in front of the line
(`InColumns.cons`), and so it holds of texts joined by separators.
-/

namespace DecisionTable.Layout

/-! ## Widths -/

/-- The texts that are shown in a column: its name, and the cell of each row. -/
def shown (rows : List Row) (name : String) : List String :=
  name :: rows.map fun row => row.cell name

/-- The greatest length of a text in the column. -/
def IsWidth (rows : List Row) (name : String) (w : Nat) : Prop :=
  (∀ text ∈ shown rows name, text.length ≤ w) ∧ ∃ text ∈ shown rows name, text.length = w

/-- A width that grows from row to row ends as the length of the last cell that changed it. -/
theorem foldl_max_length_cases (rows : List Row) (name : String) (w : Nat) :
    rows.foldl (fun w row => max w (row.cell name).length) w = w ∨
      ∃ row ∈ rows, (row.cell name).length =
        rows.foldl (fun w row => max w (row.cell name).length) w := by
  induction rows generalizing w with
  | nil => exact .inl rfl
  | cons row rows ih =>
    rw [List.foldl_cons]
    rcases ih (max w (row.cell name).length) with hsame | ⟨later, hlater, hlength⟩
    · rw [hsame]
      rcases Nat.le_total (row.cell name).length w with hle | hle
      · exact .inl (Nat.max_eq_left hle)
      · exact .inr ⟨row, List.mem_cons_self, (Nat.max_eq_right hle).symm⟩
    · exact .inr ⟨later, List.mem_cons_of_mem row hlater, hlength⟩

theorem isWidth_width (rows : List Row) (name : String) : IsWidth rows name (width rows name) := by
  refine ⟨fun text htext => ?_, ?_⟩
  · rcases List.mem_cons.1 htext with rfl | hcell
    · exact length_le_width rows text
    · obtain ⟨row, hrow, rfl⟩ := List.mem_map.1 hcell
      exact length_cell_le_width hrow name
  · rcases foldl_max_length_cases rows name name.length with hname | ⟨row, hrow, hlength⟩
    · exact ⟨name, List.mem_cons_self, hname.symm⟩
    · exact ⟨row.cell name, List.mem_cons_of_mem _ (List.mem_map_of_mem hrow), hlength⟩

/-! ## Texts in columns -/

/-- The place where a column begins: behind the columns before it and a separator after each. -/
def start (ws : List Nat) (j : Nat) : Nat := ((ws.take j).map (· + 3)).sum

@[simp] theorem start_zero (ws : List Nat) : start ws 0 = 0 := rfl

@[simp] theorem start_cons_succ (w : Nat) (ws : List Nat) (j : Nat) :
    start (w :: ws) (j + 1) = w + 3 + start ws j := by
  simp [start]

/-- A line shows texts in columns of the given widths: each text at the start of its column, with
the filler behind it up to the width, and a separator between a column and the next one. -/
structure InColumns (separator : List Char) (filler : Char) (ws : List Nat)
    (texts : List (List Char)) (line : List Char) : Prop where
  length : line.length = ws.sum + 3 * (ws.length - 1)
  text : ∀ j w text, ws[j]? = some w → texts[j]? = some text →
    ∃ n, text.length + n = w ∧
      (line.drop (start ws j)).take w = text ++ List.replicate n filler
  separator : ∀ j w, ws[j]? = some w → j + 1 < ws.length →
    (line.drop (start ws j + w)).take 3 = separator

/-- A text with the filler behind it. -/
def filled (filler : Char) (w : Nat) (text : List Char) : List Char :=
  text ++ List.replicate (w - text.length) filler

variable {separator : List Char} {filler : Char} {w : Nat} {ws : List Nat}
  {text : List Char} {texts : List (List Char)} {line : List Char}

theorem length_filled (filler : Char) (h : text.length ≤ w) :
    (filled filler w text).length = w := by
  rw [filled, List.length_append, List.length_replicate]
  omega

theorem inColumns_single (h : text.length ≤ w) :
    InColumns separator filler [w] [text] (filled filler w text) where
  length := by simp [length_filled filler h]
  text := by
    intro j w' text' hw htext
    cases j with
    | zero =>
      obtain rfl : w = w' := Option.some.inj hw
      obtain rfl : text = text' := Option.some.inj htext
      refine ⟨w - text.length, Nat.add_sub_cancel' h, ?_⟩
      rw [start_zero, List.drop_zero,
        List.take_of_length_le (Nat.le_of_eq (length_filled filler h)), filled]
    | succ j => simp at hw
  separator := by
    intro j w' _ hj
    simp at hj

/-- A column put in front of a line. -/
theorem InColumns.cons (hline : InColumns separator filler ws texts line) (hws : ws ≠ [])
    (hseparator : separator.length = 3) (h : text.length ≤ w) :
    InColumns separator filler (w :: ws) (text :: texts)
      (filled filler w text ++ (separator ++ line)) := by
  have hlength := length_filled filler h
  have hdrop : ∀ k, (filled filler w text ++ (separator ++ line)).drop (w + 3 + k) =
      line.drop k := by
    intro k
    have hfront : (filled filler w text ++ separator).length = w + 3 := by
      rw [List.length_append, hlength, hseparator]
    rw [← List.append_assoc, ← hfront, List.drop_length_add_append]
  have hpos : 0 < ws.length := List.length_pos_iff.2 hws
  refine ⟨?_, ?_, ?_⟩
  · simp only [List.length_append, hlength, hseparator, hline.length, List.sum_cons,
      List.length_cons]
    omega
  · intro j w' text' hw htext
    cases j with
    | zero =>
      obtain rfl : w = w' := Option.some.inj hw
      obtain rfl : text = text' := Option.some.inj htext
      exact ⟨w - text.length, Nat.add_sub_cancel' h, by
        rw [start_zero, List.drop_zero, List.take_left' hlength, filled]⟩
    | succ j =>
      rw [start_cons_succ, hdrop]
      exact hline.text j w' text' hw htext
  · intro j w' hw hj
    cases j with
    | zero =>
      obtain rfl : w = w' := Option.some.inj hw
      rw [start_zero, Nat.zero_add, List.drop_left' hlength, List.take_left' hseparator]
    | succ j =>
      rw [start_cons_succ, Nat.add_assoc, hdrop]
      exact hline.separator j w' hw (Nat.lt_of_succ_lt_succ hj)

/-- Texts that fit into their columns, joined by the separator. -/
theorem inColumns_intercalate (hseparator : separator.length = 3)
    (h : List.Forall₂ (fun w text => text.length ≤ w) ws texts) (hws : ws ≠ []) :
    InColumns separator filler ws texts
      (separator.intercalate (List.zipWith (filled filler) ws texts)) := by
  induction h with
  | nil => exact absurd rfl hws
  | @cons w text ws texts hfit hrest ih =>
    cases hrest with
    | nil =>
      rw [List.zipWith_cons_cons, List.zipWith_nil_left, List.intercalate_singleton]
      exact inColumns_single hfit
    | cons hnext hrest =>
      rw [List.zipWith_cons_cons, List.zipWith_cons_cons, List.intercalate_cons_cons,
        List.append_assoc, ← List.zipWith_cons_cons]
      exact (ih (List.cons_ne_nil _ _)).cons (List.cons_ne_nil _ _) hseparator hfit

/-! ## The lines of a table -/

theorem textLine_eq (ws : List Nat) (texts : List String) :
    textLine ws texts =
      [' ', '|', ' '].intercalate (List.zipWith (filled ' ') ws (texts.map String.toList)) := by
  have hpad : pad = fun w text => filled ' ' w text.toList := by
    funext w text
    rw [pad, filled, String.length_toList]
  rw [textLine, hpad, List.zipWith_map_right]

theorem ruleLine_eq (ws : List Nat) :
    ruleLine ws =
      ['-', '+', '-'].intercalate (List.zipWith (filled '-') ws (ws.map fun _ => [])) := by
  rw [ruleLine, List.zipWith_map_right, List.zipWith_self]
  rfl

variable {rows : List Row} {columns : List String}

/-- A line of texts of which none is wider than its column. -/
theorem inColumns_textLine {f : String → String}
    (h : ∀ name ∈ columns, (f name).length ≤ width rows name) (hcolumns : columns ≠ []) :
    InColumns [' ', '|', ' '] ' ' (widths rows columns) ((columns.map f).map String.toList)
      (textLine (widths rows columns) (columns.map f)) := by
  rw [textLine_eq]
  refine inColumns_intercalate rfl ?_ (by simpa [widths] using hcolumns)
  rw [widths, List.map_map, List.forall₂_map_left_iff, List.forall₂_map_right_iff,
    List.forall₂_same]
  intro name hname
  exact String.length_toList ▸ h name hname

theorem inColumns_ruleLine (rows : List Row) (hcolumns : columns ≠ []) :
    InColumns ['-', '+', '-'] '-' (widths rows columns) (columns.map fun _ => [])
      (ruleLine (widths rows columns)) := by
  have htexts : (columns.map fun _ => ([] : List Char)) =
      (widths rows columns).map fun _ => [] := by
    rw [widths, List.map_map]
    rfl
  rw [ruleLine_eq, htexts]
  refine inColumns_intercalate rfl ?_ (by simpa [widths] using hcolumns)
  rw [List.forall₂_map_right_iff, List.forall₂_same]
  exact fun w _ => Nat.zero_le w

/-- A character of texts that were joined is in one of them or in the separator. -/
theorem mem_of_mem_intercalate {c : Char} {parts : List (List Char)}
    (h : c ∈ separator.intercalate parts) : c ∈ separator ∨ ∃ part ∈ parts, c ∈ part := by
  induction parts with
  | nil => cases h
  | cons part parts ih =>
    cases parts with
    | nil =>
      rw [List.intercalate_singleton] at h
      exact .inr ⟨part, List.mem_cons_self, h⟩
    | cons next parts =>
      rw [List.intercalate_cons_cons, List.mem_append, List.mem_append] at h
      rcases h with (hpart | hseparator) | hrest
      · exact .inr ⟨part, List.mem_cons_self, hpart⟩
      · exact .inl hseparator
      · exact (ih hrest).imp_right fun ⟨p, hp, hc⟩ => ⟨p, List.mem_cons_of_mem part hp, hc⟩

theorem mem_of_mem_textLine {c : Char} {texts : List String} (h : c ∈ textLine ws texts) :
    c = ' ' ∨ c = '|' ∨ ∃ text ∈ texts, c ∈ text.toList := by
  rw [textLine] at h
  rcases mem_of_mem_intercalate h with hseparator | ⟨part, hpart, hc⟩
  · simp only [List.mem_cons, List.not_mem_nil, or_false] at hseparator
    rcases hseparator with rfl | rfl | rfl
    · exact .inl rfl
    · exact .inr (.inl rfl)
    · exact .inl rfl
  · rw [← List.map_uncurry_zip_eq_zipWith] at hpart
    obtain ⟨⟨w, text⟩, hzip, rfl⟩ := List.mem_map.1 hpart
    rcases List.mem_append.1 hc with hc | hc
    · exact .inr (.inr ⟨text, (List.of_mem_zip hzip).2, hc⟩)
    · exact .inl (List.eq_of_mem_replicate hc)

theorem newline_not_mem_textLine {texts : List String} (h : ∀ text ∈ texts, '\n' ∉ text.toList) :
    '\n' ∉ textLine ws texts := by
  intro hmem
  rcases mem_of_mem_textLine hmem with hspace | hbar | ⟨text, htext, hmem⟩
  · exact absurd hspace (by decide)
  · exact absurd hbar (by decide)
  · exact h text htext hmem

theorem newline_not_mem_ruleLine (ws : List Nat) : '\n' ∉ ruleLine ws := by
  intro hmem
  rw [ruleLine] at hmem
  rcases mem_of_mem_intercalate hmem with hseparator | ⟨part, hpart, hc⟩
  · exact absurd hseparator (by decide)
  · obtain ⟨w, -, rfl⟩ := List.mem_map.1 hpart
    exact absurd (List.eq_of_mem_replicate hc) (by decide)

theorem lines_of_ne_nil (hrows : rows ≠ []) (columns : List String) :
    lines rows columns =
      textLine (widths rows columns) columns :: ruleLine (widths rows columns) ::
        rows.map fun row => textLine (widths rows columns) (row.cells columns) := by
  rw [lines, if_neg (by simpa using hrows)]

/-- Rows that are shown under columns make a header line, a rule line and a line for each row, all
of one length. Each column is as wide as the widest text in it and has the same places in all
lines: names and cells stand there with spaces behind them, dashes in the rule, and separators
between neighbours. -/
theorem render_aligned (hrows : rows ≠ []) (hcolumns : columns ≠ [])
    (hnames : ∀ name ∈ columns, '\n' ∉ name.toList)
    (hcells : ∀ row ∈ rows, ∀ name ∈ columns, '\n' ∉ (row.cell name).toList) :
    ∃ (ws : List Nat) (header rule : List Char) (body : List (List Char)),
      List.Forall₂ (IsWidth rows) columns ws ∧
      (render rows columns).toList = (header :: rule :: body).flatMap (· ++ ['\n']) ∧
      (header :: rule :: body).length = rows.length + 2 ∧
      (∀ line ∈ header :: rule :: body,
        '\n' ∉ line ∧ line.length = ws.sum + 3 * (columns.length - 1)) ∧
      InColumns [' ', '|', ' '] ' ' ws (columns.map String.toList) header ∧
      InColumns ['-', '+', '-'] '-' ws (columns.map fun _ => []) rule ∧
      List.Forall₂ (fun row line =>
        InColumns [' ', '|', ' '] ' ' ws ((row.cells columns).map String.toList) line) rows body := by
  have hheader : InColumns [' ', '|', ' '] ' ' (widths rows columns) (columns.map String.toList)
      (textLine (widths rows columns) columns) := by
    have hid := inColumns_textLine (f := id) (fun name _ => length_le_width rows name) hcolumns
    rwa [List.map_id] at hid
  have hrule := inColumns_ruleLine rows hcolumns
  have hbody : ∀ row ∈ rows, InColumns [' ', '|', ' '] ' ' (widths rows columns)
      ((row.cells columns).map String.toList)
      (textLine (widths rows columns) (row.cells columns)) :=
    fun row hrow => inColumns_textLine (fun name _ => length_cell_le_width hrow name) hcolumns
  have hlength : ∀ {separator filler texts line},
      InColumns separator filler (widths rows columns) texts line →
        line.length = (widths rows columns).sum + 3 * (columns.length - 1) := by
    intro separator filler texts line hline
    rw [hline.length, length_widths]
  refine ⟨widths rows columns, _, _,
    rows.map fun row => textLine (widths rows columns) (row.cells columns),
    ?_, ?_, ?_, ?_, hheader, hrule, ?_⟩
  · rw [widths, List.forall₂_map_right_iff, List.forall₂_same]
    exact fun name _ => isWidth_width rows name
  · rw [render, String.toList_ofList, lines_of_ne_nil hrows]
  · rw [List.length_cons, List.length_cons, List.length_map]
  · rw [List.forall_mem_cons, List.forall_mem_cons, List.forall_mem_map]
    refine ⟨⟨newline_not_mem_textLine hnames, hlength hheader⟩,
      ⟨newline_not_mem_ruleLine _, hlength hrule⟩, fun row hrow => ⟨?_, hlength (hbody row hrow)⟩⟩
    refine newline_not_mem_textLine (List.forall_mem_map.2 fun name hname => ?_)
    exact hcells row hrow name hname
  · rw [List.forall₂_map_right_iff, List.forall₂_same]
    exact hbody

/-- A column that is shown twice and one without a name, a missing cell in each, and characters
beyond ASCII. -/
theorem render_aligned_uneven :
    let rows : List Row := [.ofList [("c", "日本語")], .ofList [("", "x")]]
    let columns := ["c", "", "c"]
    render rows columns =
        "c   |   | c  \n----+---+----\n日本語 |   | 日本語\n    | x |    \n" ∧
      ∃ (ws : List Nat) (lines : List (List Char)), List.Forall₂ (IsWidth rows) columns ws ∧
        (render rows columns).toList = lines.flatMap (· ++ ['\n']) ∧ lines.length = 4 ∧
        ∀ line ∈ lines, line.length = ws.sum + 6 := by
  intro rows columns
  have hrender : render rows columns =
      "c   |   | c  \n----+---+----\n日本語 |   | 日本語\n    | x |    \n" := by decide +kernel
  have hrows : rows ≠ [] := by decide
  have hcolumns : columns ≠ [] := by decide
  obtain ⟨ws, header, rule, body, hwidths, htext, hlength, hlines, -⟩ :=
    render_aligned hrows hcolumns (by decide +kernel) (by decide +kernel)
  exact ⟨hrender, ws, _, hwidths, htext, hlength, fun line hline => (hlines line hline).2⟩

end DecisionTable.Layout
