import Mathlib.Data.List.DropRight
import DecisionTable.Condition.Memo

/-!
# What a memo holds

A memo is emptied when a new text comes and it is full, so it holds the texts that were stored
last: as many as came since it was emptied (`Memo.holds_last_newcomers`). A text that is there
already, or that cannot be read, changes nothing, however often it comes.
-/

namespace DecisionTable.Memo

/-! ## Reading texts one after the other -/

/-- The memo after texts were read through it, one after the other. -/
def after (m : Memo) (texts : List String) : Memo :=
  texts.foldl (fun m text => (m.read text).2) m

/-- Whether reading a text stores it: it is not there, but can be read. -/
def isNew (m : Memo) (text : String) : Bool := !m.contains text && (Expression.read text).isOk

/-- Those of the texts that could be read and were not there when their turn came. -/
def newcomers (m : Memo) : List String → List String
  | [] => []
  | text :: texts =>
    if m.isNew text then text :: (m.read text).2.newcomers texts
    else (m.read text).2.newcomers texts

theorem after_append (m : Memo) (texts more : List String) :
    m.after (texts ++ more) = (m.after texts).after more := List.foldl_append

theorem newcomers_append_singleton (m : Memo) (texts : List String) (text : String) :
    m.newcomers (texts ++ [text]) =
      m.newcomers texts ++ if (m.after texts).isNew text then [text] else [] := by
  induction texts generalizing m with
  | nil => rfl
  | cons t texts ih =>
    rw [List.cons_append, newcomers, newcomers, ih]
    split
    · exact List.cons_append.symm
    · rfl

/-! ## One text -/

theorem contains_eq_isSome (m : Memo) (text : String) :
    m.contains text = (m.lookup text).isSome := rfl

/-- All that reading a text can do: a new one is stored, and any other changes nothing, whether it
is there or cannot be read. -/
theorem read_cases (m : Memo) (text : String) :
    (∃ e, m.isNew text = true ∧ m.contains text = false ∧
      m.read text = (.ok e, m.store text e)) ∨
    (m.isNew text = false ∧ (m.read text).2 = m ∧
      ((m.read text).1.isOk = true → m.contains text = true)) := by
  rw [isNew, contains_eq_isSome, read]
  cases m.lookup text with
  | some e => exact .inr ⟨rfl, rfl, fun _ => rfl⟩
  | none =>
    cases Expression.read text with
    | ok e => exact .inl ⟨e, rfl, rfl, rfl⟩
    | error error => exact .inr ⟨rfl, rfl, fun hok => absurd hok Bool.false_ne_true⟩

variable {m : Memo} {text : String}

theorem isNew_eq_false_of_contains (h : m.contains text = true) : m.isNew text = false := by
  rw [isNew, h, Bool.not_true, Bool.false_and]

theorem read_snd_of_not_isNew (h : m.isNew text = false) : (m.read text).2 = m := by
  rcases m.read_cases text with ⟨e, hnew, -, -⟩ | ⟨-, hsame, -⟩
  · exact absurd (hnew.symm.trans h) (by decide)
  · exact hsame

/-- Storing a text that is not there adds it, and leaves it alone where the memo was full. -/
theorem keys_store (h : m.contains text = false) (e : Expression) :
    (m.store text e).entries.keys =
      if m.capacity ≤ m.size then [text] else m.entries.keys ++ [text] := by
  have hkey : text ∉ m.entries.keys := by
    rw [← OrderedMap.contains_iff, Bool.not_eq_true]
    exact h
  by_cases hfull : m.capacity ≤ m.size
  · rw [if_pos hfull, entries_store_of_full ⟨hfull, by rw [h]; rfl⟩, OrderedMap.keys_insert,
      if_neg (by simp)]
    rfl
  · rw [if_neg hfull, entries_store_of_room fun hand => hfull hand.1, OrderedMap.keys_insert,
      if_neg hkey]

theorem capacity_read_snd (m : Memo) (text : String) : (m.read text).2.capacity = m.capacity := by
  rcases m.read_cases text with ⟨e, -, -, hread⟩ | ⟨-, hsame, -⟩
  · rw [hread, capacity_store]
  · rw [hsame]

/-- A text that was read is there afterwards. -/
theorem contains_read_snd (h : (m.read text).1.isOk = true) :
    (m.read text).2.contains text = true := by
  rcases m.read_cases text with ⟨e, -, -, hread⟩ | ⟨-, hsame, hthere⟩
  · rw [hread, contains_eq_isSome, lookup_store_self, Option.isSome_some]
  · rw [hsame]
    exact hthere h

/-! ## Counting -/

/-- How many of the texts that were stored are there still: as many as came since the memo was
emptied. -/
def remaining (capacity stored : Nat) : Nat :=
  if stored = 0 then 0 else (stored - 1) % capacity + 1

theorem remaining_le (capacity stored : Nat) : remaining capacity stored ≤ stored := by
  rw [remaining]
  split
  · exact Nat.zero_le _
  · have hmod : (stored - 1) % capacity ≤ stored - 1 := Nat.mod_le _ _
    omega

/-- One more is one more, unless the memo was full. -/
theorem remaining_succ {capacity : Nat} (hpos : 0 < capacity) (stored : Nat) :
    remaining capacity (stored + 1) =
      if capacity ≤ remaining capacity stored then 1 else remaining capacity stored + 1 := by
  cases stored with
  | zero => simp [remaining, Nat.ne_of_gt hpos]
  | succ k =>
    have hlt : k % capacity < capacity := Nat.mod_lt k hpos
    have hnext : (k + 1) % capacity = (k % capacity + 1) % capacity :=
      (Nat.mod_add_mod k capacity 1).symm
    simp only [remaining, Nat.add_one_ne_zero, if_false, Nat.add_sub_cancel, hnext]
    split
    · next hfull =>
      have hlast : k % capacity + 1 = capacity := by omega
      rw [hlast, Nat.mod_self]
    · next hroom => rw [Nat.mod_eq_of_lt (by omega)]

/-! ## Runs -/

theorem capacity_after (m : Memo) (texts : List String) :
    (m.after texts).capacity = m.capacity := by
  induction texts generalizing m with
  | nil => rfl
  | cons t texts ih => exact (ih _).trans (capacity_read_snd m t)

theorem after_of_contains {texts : List String} (h : ∀ text ∈ texts, m.contains text = true) :
    m.after texts = m := by
  induction texts with
  | nil => rfl
  | cons t texts ih =>
    have hsame : (m.read t).2 = m :=
      read_snd_of_not_isNew (isNew_eq_false_of_contains (h t List.mem_cons_self))
    have hcons : m.after (t :: texts) = (m.read t).2.after texts := rfl
    rw [hcons, hsame]
    exact ih fun text htext => h text (List.mem_cons_of_mem _ htext)

theorem size_eq_length_keys (m : Memo) : m.size = m.entries.keys.length := by
  rw [OrderedMap.keys, List.length_map]
  rfl

theorem length_rtake {α : Type} {l : List α} {n : Nat} (h : n ≤ l.length) :
    (l.rtake n).length = n := by
  rw [List.rtake, List.length_drop]
  omega

/-- After any run an empty memo holds the last newcomers, as many as came since it was emptied. -/
theorem keys_after {m : Memo} (hempty : m.entries = .empty) (texts : List String) :
    (m.after texts).entries.keys =
      (m.newcomers texts).rtake (remaining m.capacity (m.newcomers texts).length) := by
  induction texts using List.reverseRecOn with
  | nil => exact congrArg OrderedMap.keys hempty
  | append_singleton texts text ih =>
    have hsize : (m.after texts).size = remaining m.capacity (m.newcomers texts).length := by
      rw [size_eq_length_keys, ih, length_rtake (remaining_le _ _)]
    have hafter : m.after (texts ++ [text]) = ((m.after texts).read text).2 :=
      after_append m texts [text]
    rw [hafter, newcomers_append_singleton]
    rcases (m.after texts).read_cases text with ⟨e, hnew, hcontains, hread⟩ | ⟨hnew, hsame, -⟩
    · rw [hnew, if_pos rfl, List.length_append, List.length_singleton,
        remaining_succ m.capacity_pos, hread, keys_store hcontains, capacity_after, hsize]
      split
      · rw [List.rtake_concat_succ, List.rtake_zero, List.nil_append]
      · rw [List.rtake_concat_succ, ih]
    · rw [hnew, if_neg Bool.false_ne_true, List.append_nil, hsame, ih]

/-- What a memo holds that was empty before texts were read through it. Where no text was stored it
is empty still, and otherwise it holds the last texts that were stored, one for each since it was
emptied. A text that was read is there afterwards. One that is there already or cannot be read
changes nothing, so texts that are there can be read again and again. -/
theorem holds_last_newcomers {m : Memo} (hempty : m.entries = .empty) (texts : List String) :
    ((m.newcomers texts).length = 0 → (m.after texts).entries = .empty) ∧
      ((m.newcomers texts).length ≠ 0 →
        (m.after texts).size = ((m.newcomers texts).length - 1) % m.capacity + 1 ∧
          (m.after texts).entries.keys =
            (m.newcomers texts).rtake (((m.newcomers texts).length - 1) % m.capacity + 1)) ∧
      (∀ text, ((m.after texts).read text).1.isOk = true →
        ((m.after texts).read text).2.contains text = true) ∧
      (∀ text, (m.after texts).contains text = true ∨
          ((m.after texts).read text).1.isOk = false →
        ((m.after texts).read text).2 = m.after texts) ∧
      ∀ again, (∀ text ∈ again, (m.after texts).contains text = true) →
        (m.after texts).after again = m.after texts := by
  have hkeys := keys_after hempty texts
  refine ⟨fun hnone => ?_, fun hsome => ?_, fun text => contains_read_snd, fun text h => ?_,
    fun again => after_of_contains⟩
  · rw [hnone, remaining, if_pos rfl, List.rtake_zero] at hkeys
    exact OrderedMap.ext (List.map_eq_nil_iff.1 hkeys)
  · have hremaining : remaining m.capacity (m.newcomers texts).length =
        ((m.newcomers texts).length - 1) % m.capacity + 1 := if_neg hsome
    rw [size_eq_length_keys, hkeys, length_rtake (remaining_le _ _), hremaining]
    exact ⟨rfl, rfl⟩
  · rcases (m.after texts).read_cases text with ⟨e, -, hcontains, hread⟩ | ⟨-, hsame, -⟩
    · rw [hcontains, hread] at h
      rcases h with h | h
      · exact absurd h Bool.false_ne_true
      · exact absurd h.symm Bool.false_ne_true
    · exact hsame

/-- A memo for two: the third text is there when it comes, the fourth cannot be read, and the last
one finds the memo full. -/
theorem holds_last_newcomers_full :
    let texts := ["a = 1", "b = 2", "a = 1", "c", "c = 3"]
    let m := ofCapacity 2
    m.entries = .empty ∧ m.newcomers texts = ["a = 1", "b = 2", "c = 3"] ∧
      (m.after texts).size = 1 ∧ (m.after texts).entries.keys = ["c = 3"] := by
  intro texts m
  have hempty : m.entries = .empty := rfl
  have hnew : m.newcomers texts = ["a = 1", "b = 2", "c = 3"] := by decide +kernel
  have hcapacity : m.capacity = 2 := rfl
  have hcount : (["a = 1", "b = 2", "c = 3"].length - 1) % m.capacity + 1 = 1 := by
    rw [hcapacity]
    rfl
  have hholds := (holds_last_newcomers hempty texts).2.1
  rw [hnew, hcount] at hholds
  obtain ⟨hsize, hkeys⟩ := hholds (by decide)
  exact ⟨hempty, hnew, hsize, hkeys⟩

end DecisionTable.Memo
