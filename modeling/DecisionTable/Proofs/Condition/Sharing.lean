import DecisionTable.Condition.Sharing

/-!
# What sharing keeps

Whatever the readers of a memo do, and in whatever order, the memo stays well kept: its entries
are what their texts read as, and there are no more of them than it can hold
(`Memo.WellKept`). With it goes what every reader knows of the condition it is about to store
or has answered (`Memo.Call.Right`). One step keeps both (`Memo.Shared.Sound.step`), so they
hold of all that is reachable. `Memo.Step.moves` says what a step can do for a reader.
-/

namespace DecisionTable.Memo

/-! ## The memo -/

/-- Every entry is what its text reads as, and they are not too many. -/
structure WellKept (m : Memo) : Prop where
  read_eq : ∀ text e, m.lookup text = some e → Expression.read text = .ok e
  size_le : m.size ≤ m.capacity

theorem wellKept_ofCapacity (capacity : Nat) : (ofCapacity capacity).WellKept :=
  ⟨nofun, Nat.zero_le _⟩

theorem WellKept.clear {m : Memo} : m.clear.WellKept := ⟨nofun, Nat.zero_le _⟩

/-- What is stored is at most one condition more, and one alone where the memo was full. -/
theorem size_store_le {m : Memo} (h : m.size ≤ m.capacity) (text : String) (e : Expression) :
    (m.store text e).size ≤ m.capacity := by
  have hpos := m.capacity_pos
  by_cases hfull : m.capacity ≤ m.size ∧ (!m.contains text) = true
  · -- emptied, the memo has room for one
    rw [size, entries_store_of_full hfull, OrderedMap.size_insert, if_neg (by simp),
      OrderedMap.size_empty]
    exact hpos
  · rw [size, entries_store_of_room hfull, OrderedMap.size_insert]
    split
    · exact h
    · next hkey =>
      have hcontains : m.contains text = false := by
        rw [← Bool.not_eq_true, contains, OrderedMap.contains_iff]
        exact hkey
      have hroom : m.size < m.capacity := by simpa [hcontains] using hfull
      exact hroom

theorem WellKept.store {m : Memo} (h : m.WellKept) {text : String} {e : Expression}
    (he : Expression.read text = .ok e) : (m.store text e).WellKept where
  read_eq := by
    intro other f hf
    rcases lookup_store hf with ⟨rfl, rfl⟩ | hold
    · exact he
    · exact h.read_eq other f hold
  size_le := by
    rw [capacity_store]
    exact size_store_le h.size_le text e

/-! ## The readers -/

namespace Call

/-- The text that a reader was asked for. -/
def text : Call → String
  | .lookup text => text
  | .store text _ => text
  | .done text _ => text

/-- What a reader stores or answers is what its text reads as. -/
def Right : Call → Prop
  | .lookup _ => True
  | .store text e => Expression.read text = .ok e
  | .done text result => result = Expression.read text

end Call

/-- What is not found is read, and stored if it could be. -/
theorem lookupStep_of_ok {m : Memo} {text : String} {e : Expression} (h : m.lookup text = none)
    (he : Expression.read text = .ok e) : m.lookupStep text = .store text e := by
  rw [lookupStep, h, he]

/-- A text that cannot be read is answered at once, since no entry is about it. -/
theorem WellKept.lookupStep_of_error {m : Memo} (h : m.WellKept) {text : String}
    {error : ReadError} (he : Expression.read text = .error error) :
    m.lookupStep text = .done text (.error error) := by
  rw [lookupStep]
  cases hm : m.lookup text with
  | none => rw [he]
  | some e =>
    rw [h.read_eq text e hm] at he
    cases he

theorem WellKept.right_lookupStep {m : Memo} (h : m.WellKept) (text : String) :
    (m.lookupStep text).Right := by
  rw [lookupStep]
  cases hm : m.lookup text with
  | some e => exact (h.read_eq text e hm).symm
  | none =>
    cases he : Expression.read text with
    | ok e => exact he
    | error error => exact he.symm

/-! ## Steps -/

/-- What holds of a memo of the given capacity and of those who share it. -/
structure Shared.Sound (capacity : Nat) (s : Shared) : Prop where
  capacity_eq : s.memo.capacity = max capacity 1
  wellKept : s.memo.WellKept
  right : ∀ call ∈ s.calls, call.Right

variable {capacity : Nat} {s t : Shared}

/-- Where one reader moves and is right afterwards, all are right. -/
theorem right_replaced {before after : List Call} {old new : Call}
    (h : ∀ call ∈ before ++ old :: after, call.Right) (hnew : new.Right) :
    ∀ call ∈ before ++ new :: after, call.Right := by
  intro call hcall
  rcases List.mem_append.1 hcall with hcall | hcall
  · exact h call (List.mem_append_left _ hcall)
  · rcases List.mem_cons.1 hcall with rfl | hcall
    · exact hnew
    · exact h call (List.mem_append_right _ (List.mem_cons_of_mem _ hcall))

/-- One step keeps it, whoever takes it. -/
theorem Shared.Sound.step (h : s.Sound capacity) (hstep : Step s t) : t.Sound capacity := by
  obtain ⟨hcapacity, hkept, hright⟩ := h
  cases hstep with
  | enter m calls text =>
    refine ⟨hcapacity, hkept, fun call hcall => ?_⟩
    rcases List.mem_append.1 hcall with hcall | hcall
    · exact hright call hcall
    · rw [List.mem_singleton.1 hcall]
      trivial
  | lookup m before after text =>
    exact ⟨hcapacity, hkept, right_replaced hright (hkept.right_lookupStep text)⟩
  | store m before after text e =>
    -- the reader has what its text reads as, however the memo has changed since it looked
    have he : Expression.read text = .ok e := hright (.store text e) (by simp)
    refine ⟨?_, hkept.store he, right_replaced hright he.symm⟩
    rw [capacity_store]
    exact hcapacity
  | clear m calls => exact ⟨hcapacity, .clear, hright⟩

/-- All that is reachable has it. -/
theorem Reachable.sound (h : Reachable capacity s) : s.Sound capacity := by
  induction h with
  | start => exact ⟨rfl, wellKept_ofCapacity capacity, nofun⟩
  | step _ hstep ih => exact ih.step hstep

theorem getElem?_replaced {before after : List Call} {old new : Call} {i : Nat}
    (h : i ≠ before.length) : (before ++ new :: after)[i]? = (before ++ old :: after)[i]? := by
  rw [List.getElem?_append, List.getElem?_append]
  split
  · rfl
  · obtain ⟨k, hk⟩ : ∃ k, i - before.length = k + 1 := Nat.exists_eq_add_one.2 (by omega)
    rw [hk, List.getElem?_cons_succ, List.getElem?_cons_succ]

/-- All that a step can do for the reader with the given number: it looks its text up, and the
memo stays; or it stores what it read. -/
theorem Step.moves (hstep : Step s t) {i : Nat} {call : Call} (hi : s.calls[i]? = some call)
    (hmoves : t.calls[i]? ≠ some call) :
    (∃ text, call = .lookup text ∧ t.memo = s.memo ∧
      t.calls[i]? = some (s.memo.lookupStep text)) ∨
    ∃ text e, call = .store text e ∧ t.memo = s.memo.store text e ∧
      t.calls[i]? = some (.done text (.ok e)) := by
  cases hstep with
  | enter m calls text =>
    obtain ⟨hlt, -⟩ := List.getElem?_eq_some_iff.1 hi
    exact absurd ((List.getElem?_append_left hlt).trans hi) hmoves
  | lookup m before after text =>
    by_cases hindex : i = before.length
    · subst hindex
      exact .inl ⟨text, by simpa using hi.symm, rfl, by simp⟩
    · exact absurd ((getElem?_replaced hindex).trans hi) hmoves
  | store m before after text e =>
    by_cases hindex : i = before.length
    · subst hindex
      exact .inr ⟨text, e, by simpa using hi.symm, rfl, by simp⟩
    · exact absurd ((getElem?_replaced hindex).trans hi) hmoves
  | clear m calls => exact absurd hi hmoves

/-- A reader whose text cannot be read has one step to take, which changes no entry and
answers with the error. -/
theorem Shared.Sound.moves_of_error (h : s.Sound capacity) (hstep : Step s t) {i : Nat}
    {call : Call} (hi : s.calls[i]? = some call) (hmoves : t.calls[i]? ≠ some call)
    {error : ReadError} (he : Expression.read call.text = .error error) :
    t.memo = s.memo ∧ t.calls[i]? = some (.done call.text (.error error)) := by
  rcases hstep.moves hi hmoves with ⟨text, rfl, hmemo, hnext⟩ | ⟨text, e, rfl, -, -⟩
  · rw [hnext]
    exact ⟨hmemo, congrArg some (h.wellKept.lookupStep_of_error he)⟩
  · -- no reader is about to store a text that cannot be read
    have hright : Expression.read text = .ok e := h.right _ (List.mem_of_getElem? hi)
    exact absurd (hright.symm.trans he) nofun

end DecisionTable.Memo
