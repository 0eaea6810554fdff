import Mathlib.Data.List.Induction
import DecisionTable.Distinct
import DecisionTable.Proofs.Row.Merging

/-!
# How rows come about

A row is made from nothing, from one pair or from many, and then grows by insertions and by
merging. Written down one after the other, the pairs that were given to it on the way are its
history (`Row.Recorded`). A row is what inserting the pairs of its history one by one gives
(`Row.Recorded.eq_ofList`): its columns stand in the order in which they first came, each with
the value that came last.
-/

namespace DecisionTable

namespace OrderedMap

variable {κ α : Type} [DecidableEq κ]

/-! ## Inserting pairs one by one -/

/-- The value that the last pair with a key gives it. -/
def lastValue? (k : κ) (es : List (κ × α)) : Option α := lookup k es.reverse

theorem lastValue?_append (k : κ) (es fs : List (κ × α)) :
    lastValue? k (es ++ fs) = (lastValue? k fs).or (lastValue? k es) := by
  rw [lastValue?, List.reverse_append, lookup_append]
  rfl

theorem ofList_append_singleton (es : List (κ × α)) (k : κ) (v : α) :
    ofList (es ++ [(k, v)]) = (ofList es).insert k v := by
  rw [ofList, insertAll, List.foldl_append]
  rfl

/-- The keys stand in the order in which they first came. -/
theorem keys_ofList (es : List (κ × α)) : (ofList es).keys = (es.map Prod.fst).eraseDups := by
  induction es using List.reverseRecOn with
  | nil => rfl
  | append_singleton es e ih =>
    obtain ⟨k, v⟩ := e
    rw [ofList_append_singleton, keys_insert, ih, List.map_append, List.eraseDups_append]
    by_cases hk : k ∈ es.map Prod.fst
    · simp [hk, List.removeAll]
    · simp [hk, List.removeAll, List.eraseDups_cons]

/-- Every key has the value that it was given last. -/
theorem get?_ofList (es : List (κ × α)) (k : κ) : (ofList es).get? k = lastValue? k es := by
  induction es using List.reverseRecOn with
  | nil => rfl
  | append_singleton es e ih =>
    obtain ⟨j, v⟩ := e
    rw [ofList_append_singleton, get?_insert, ih, lastValue?_append]
    by_cases hj : j = k
    · simp [lastValue?, lookup, hj]
    · simp [lastValue?, lookup, hj]

theorem contains_eq_decide (a : OrderedMap κ α) (k : κ) : a.contains k = decide (k ∈ a.keys) := by
  rw [Bool.eq_iff_iff, contains_iff, decide_eq_true_iff]

theorem keys_extend (a b : OrderedMap κ α) :
    (a.extend b).keys = a.keys ++ b.keys.filter (· ∉ a.keys) := by
  rw [keys, entries_extend, List.map_append, keys, keys, List.filter_map]
  simp only [contains_eq_decide, Function.comp_def, decide_not]
  rfl

/-- Maps that go together are joined as if the pairs of both were inserted one by one. -/
theorem extend_ofList {es fs : List (κ × α)} (h : (ofList es).Compatible (ofList fs)) :
    (ofList es).extend (ofList fs) = ofList (es ++ fs) := by
  refine ext_get? ?_ fun k => ?_
  · rw [keys_extend, keys_ofList, keys_ofList, keys_ofList, List.map_append,
      List.eraseDups_append, List.removeAll, eraseDups_filter]
    congr 1
    refine List.filter_congr fun k _ => ?_
    rw [List.elem_eq_mem, ← decide_not, decide_eq_decide, List.mem_eraseDups]
  · rw [get?_extend, h.or_comm, get?_ofList, get?_ofList, get?_ofList, lastValue?_append]

end OrderedMap

namespace Row

open OrderedMap

/-! ## Histories -/

/-- A row that came about by the operations on rows, with the pairs that were given to it, one
after the other. To merge two rows is to give the pairs of the second to the first. -/
inductive Recorded : List (String × String) → Row → Prop where
  | empty : Recorded [] .empty
  | single (k v : String) : Recorded [(k, v)] (.single k v)
  | ofList (pairs : List (String × String)) : Recorded pairs (.ofList pairs)
  | insert {history : List (String × String)} {row : Row} (k v : String) :
      Recorded history row → Recorded (history ++ [(k, v)]) (row.insert k v)
  | merge {first second : List (String × String)} {a b c : Row} :
      Recorded first a → Recorded second b → a.merge? b = some c → Recorded (first ++ second) c

/-- However it came about, a row is what inserting its history gives. -/
theorem Recorded.eq_ofList {history : List (String × String)} {row : Row}
    (h : Recorded history row) : row = .ofList history := by
  induction h with
  | empty => rfl
  | single k v => rfl
  | ofList pairs => rfl
  | insert k v _ ih => rw [ih, ofList_append_singleton]
  | merge _ _ hmerge ih₁ ih₂ =>
    subst ih₁ ih₂
    obtain ⟨hagrees, rfl⟩ := merge?_eq_some_iff.1 hmerge
    exact extend_ofList (compatible_iff_agrees.2 hagrees)

/-! ## The laws of rows -/

/-- Rows are maps that remember the order of insertion. The columns of a row that came about by
operations on rows are distinct, stand in the order in which they first came, and have the values
that they were given last. Rows are the same where they have the same values, which is an
equivalence. Two rows merge exactly if they have the same value for every column of both; the
merged row has the pairs of the first and then those of the second whose columns the first lacks,
and this is what adding the pairs one by one gives. Which row is merged into the other makes no
difference to the values, and how three rows are grouped makes none at all. -/
theorem recorded_laws :
    (∀ history row, Recorded history row →
      row.keys.Nodup ∧ row.keys = (history.map Prod.fst).eraseDups ∧
        ∀ k, row.get? k = lastValue? k history) ∧
      (∀ a b : Row, a.sameEntries b = true ↔ ∀ k, a.get? k = b.get? k) ∧
      (Equivalence fun a b : Row => a.sameEntries b = true) ∧
      (∀ a b : Row, (a.merge? b).isSome ↔ ∀ k ∈ a.keys, k ∈ b.keys → a.get? k = b.get? k) ∧
      (∀ a b : Row, (a.merge? b).map entries = addEntries? a.entries b.entries) ∧
      (∀ a b c : Row, a.merge? b = some c →
        c.entries = a.entries ++ b.entries.filter (·.1 ∉ a.keys)) ∧
      (∀ a b : Row,
        Option.Rel (fun r s : Row => r.sameEntries s = true) (a.merge? b) (b.merge? a)) ∧
      ∀ a b c : Row,
        ((a.merge? b).bind fun m => m.merge? c) = (b.merge? c).bind fun m => a.merge? m := by
  refine ⟨fun history row h => ?_, fun a b => sameEntries_iff, equivalence_sameEntries,
    fun a b => ?_, map_entries_merge?, fun a b c h => ?_, merge?_comm, merge?_assoc⟩
  · obtain rfl := h.eq_ofList
    rw [keys_ofList]
    exact ⟨nodup_eraseDups _, rfl, get?_ofList history⟩
  · rw [isSome_merge?_iff, compatible_iff_shared]
  · obtain ⟨-, rfl⟩ := merge?_eq_some_iff.1 h
    simp only [entries_extend, contains_eq_decide, decide_not]

/-- A column that comes twice and one that both rows have. -/
theorem recorded_laws_merged :
    let first : Row := OrderedMap.insert (.ofList [("a", "1"), ("b", "2"), ("a", "3")]) "c" "4"
    let second : Row := OrderedMap.insert (.single "b" "2") "d" "5"
    let history := [("a", "1"), ("b", "2"), ("a", "3"), ("c", "4"), ("b", "2"), ("d", "5")]
    ∃ merged, first.merge? second = some merged ∧ Recorded history merged ∧
      merged.keys = ["a", "b", "c", "d"] ∧ merged.get? "a" = some "3" := by
  intro first second history
  have hmerge : first.merge? second = some (first.extend second) := by decide +kernel
  have hrecorded : Recorded history (first.extend second) :=
    .merge (.insert "c" "4" (.ofList _)) (.insert "d" "5" (.single "b" "2")) hmerge
  obtain ⟨-, hkeys, hget⟩ := recorded_laws.1 history (first.extend second) hrecorded
  refine ⟨first.extend second, hmerge, hrecorded, ?_, ?_⟩
  · rw [hkeys]
    decide +kernel
  · rw [hget]
    decide +kernel

end Row

end DecisionTable
