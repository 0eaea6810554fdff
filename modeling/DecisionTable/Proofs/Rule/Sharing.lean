import Mathlib.Data.List.TakeWhile
import DecisionTable.Proofs.Condition.Sharing
import DecisionTable.Rule.Workbook

/-!
# A memo cannot be seen

Read through a well kept memo, a condition, a rule and a rulebook come to what they come to
without one, and the memo stays well kept. As every memo that can be reached is well kept, what
was read before, by whom and in which order makes no difference (`Memo.Reachable.transparent`).
-/

namespace DecisionTable.Memo

/-! ## Reading through a memo -/

variable {m : Memo}

theorem WellKept.read_fst (h : m.WellKept) (text : String) :
    (m.read text).1 = Expression.read text := by
  rw [read]
  cases hm : m.lookup text with
  | some e => exact (h.read_eq text e hm).symm
  | none => cases Expression.read text <;> rfl

theorem WellKept.read_snd (h : m.WellKept) (text : String) : (m.read text).2.WellKept := by
  rw [read]
  cases m.lookup text with
  | some e => exact h
  | none =>
    cases he : Expression.read text with
    | ok e => exact h.store he
    | error error => exact h

theorem WellKept.rows_fst (h : m.WellKept) (condition : String) :
    (m.rows condition).1 = (Expression.read condition).map Expression.rows := by
  rw [rows, ← h.read_fst condition]

theorem WellKept.tableOfRule_fst (h : m.WellKept) (body : String) :
    (m.tableOfRule body).1 = Table.ofRule body := by
  rw [tableOfRule, Table.ofRule]
  split
  · rfl
  · rw [← h.read_fst body]

theorem WellKept.tableOfRule_snd (h : m.WellKept) (body : String) :
    (m.tableOfRule body).2.WellKept := by
  rw [tableOfRule]
  split
  · exact h
  · exact h.read_snd body

theorem WellKept.sheetsOf_fst (h : m.WellKept) (schema : Option (List String))
    (rules : List (String × String)) :
    (m.sheetsOf schema rules).1 = Workbook.sheetsOf schema rules := by
  induction rules generalizing m with
  | nil => rfl
  | cons rule rules ih =>
    obtain ⟨key, body⟩ := rule
    have htable := h.tableOfRule_fst body
    have hnext := h.tableOfRule_snd body
    rw [sheetsOf, Workbook.sheetsOf, ← htable]
    rcases hrule : m.tableOfRule body with ⟨table, next⟩
    rw [hrule] at hnext
    cases hsheet : Workbook.sheetOf schema key table with
    | error error =>
      simp only [hsheet]
      rfl
    | ok sheet =>
      -- the memo has changed with the first rule, and is well kept still
      have hrest := ih hnext
      simp only [hsheet, hrest]
      cases Workbook.sheetsOf schema rules <;> rfl

theorem WellKept.workbook_fst (h : m.WellKept) (book : Rulebook) (schema : Option (List String)) :
    (m.workbook book schema).1 = Workbook.build book schema := by
  rw [workbook, Workbook.build, ← h.sheetsOf_fst]

/-! ## Reachable memos -/

/-- Readers who share a memo, and clear it now and then, cannot tell. Its entries are what their
texts read as, and no more than it can hold; every reader that is done has what its text reads
as, and one whose text cannot be read changes no entry. So rows, tables and workbooks are the
same as through an empty memo. -/
theorem Reachable.transparent {capacity : Nat} {s : Shared} (h : Reachable capacity s) :
    (∀ text e, (text, e) ∈ s.memo.entries.entries → Expression.read text = .ok e) ∧
      s.memo.size ≤ max capacity 1 ∧
      (∀ text result, .done text result ∈ s.calls → result = Expression.read text) ∧
      (∀ (t : Shared) (i : Nat) (call : Call) (error : ReadError), Step s t →
        s.calls[i]? = some call → t.calls[i]? ≠ some call →
        Expression.read call.text = .error error →
        t.memo = s.memo ∧ t.calls[i]? = some (.done call.text (.error error))) ∧
      (∀ condition, (s.memo.rows condition).1 = ((ofCapacity capacity).rows condition).1) ∧
      (∀ body, (s.memo.tableOfRule body).1 = ((ofCapacity capacity).tableOfRule body).1) ∧
      ∀ book schema,
        (s.memo.workbook book schema).1 = ((ofCapacity capacity).workbook book schema).1 := by
  have hsound := h.sound
  have hkept := hsound.wellKept
  have hempty := wellKept_ofCapacity capacity
  refine ⟨?_, ?_, ?_, ?_, ?_, ?_, ?_⟩
  · intro text e hmem
    exact hkept.read_eq text e (OrderedMap.get?_eq_some_iff.2 hmem)
  · exact hsound.capacity_eq ▸ hkept.size_le
  · intro text result hmem
    exact hsound.right (.done text result) hmem
  · intro t i call error hstep hi hmoves he
    exact hsound.moves_of_error hstep hi hmoves he
  · intro condition
    rw [hkept.rows_fst, hempty.rows_fst]
  · intro body
    rw [hkept.tableOfRule_fst, hempty.tableOfRule_fst]
  · intro book schema
    rw [hkept.workbook_fst, hempty.workbook_fst]

/-- Three readers of a memo for one condition, all of whom look before any of them stores; two
have the same text, the third empties the memo in between. A fourth has a text that cannot be
read. -/
theorem transparent_race :
    let e : Expression := .clause ⟨"a", .equal, ["1"]⟩
    let f : Expression := .clause ⟨"b", .equal, ["2"]⟩
    let fault : ReadError := ⟨.operator "c" none, 1⟩
    let m := (((ofCapacity 0).store "a = 1" e).store "b = 2" f).store "a = 1" e
    let calls : List Call :=
      [.done "a = 1" (.ok e), .done "b = 2" (.ok f), .done "a = 1" (.ok e),
        .done "c" (.error fault)]
    Reachable 0 ⟨m, calls⟩ ∧ m.entries.entries = [("a = 1", e)] ∧ m.size ≤ max 0 1 ∧
      Expression.read "c" = .error fault ∧
      (m.rows "b = 2").1 = ((ofCapacity 0).rows "b = 2").1 := by
  intro e f fault m calls
  have hscan : Token.scan "a = 1" = [.word "a", .comparison .equal, .word "1"] ∧
      Token.scan "b = 2" = [.word "b", .comparison .equal, .word "2"] ∧
      Token.scan "c" = [.word "c"] := by decide +kernel
  have he : Expression.read "a = 1" = .ok e := by
    rw [Expression.read, hscan.1]
    decide +kernel
  have hf : Expression.read "b = 2" = .ok f := by
    rw [Expression.read, hscan.2.1]
    decide +kernel
  have hfault : Expression.read "c" = .error fault := by
    rw [Expression.read, hscan.2.2]
    decide +kernel
  -- all come, then all look, then those who can store
  have hcome : Reachable 0 ⟨ofCapacity 0,
      [.lookup "a = 1", .lookup "b = 2", .lookup "a = 1", .lookup "c"]⟩ :=
    (((Reachable.start.step (.enter _ _ _)).step (.enter _ _ _)).step (.enter _ _ _)).step
      (.enter _ _ _)
  have hlook : Reachable 0 ⟨ofCapacity 0,
      [.store "a = 1" e, .store "b = 2" f, .store "a = 1" e, .done "c" (.error fault)]⟩ := by
    have h := (((hcome.step (.lookup _ [] _ _)).step (.lookup _ [_] _ _)).step
      (.lookup _ [_, _] _ _)).step (.lookup _ [_, _, _] _ _)
    rwa [lookupStep_of_ok rfl he, lookupStep_of_ok rfl hf,
      (wellKept_ofCapacity 0).lookupStep_of_error hfault] at h
  have hstore : Reachable 0 ⟨m, calls⟩ :=
    ((hlook.step (.store _ [] _ _ _)).step (.store _ [_] _ _ _)).step (.store _ [_, _] _ _ _)
  have htransparent := hstore.transparent
  exact ⟨hstore, by decide +kernel, htransparent.2.1, hfault, htransparent.2.2.2.2.1 "b = 2"⟩

end DecisionTable.Memo
