import Mathlib.Data.List.Nodup
import Mathlib.Data.List.Perm.Subperm
import DecisionTable.Row

/-!
# Comparing and merging rows

Two rows are compared, and one is merged into another, entry by entry and in one direction only.
What comes of it depends on the values of the columns alone. Rows are the same where they have the
same values (`OrderedMap.sameEntries_iff`), since distinct keys leave no room for further entries.
Rows go together where no column has two values (`OrderedMap.Compatible`), and merging is then
associative, and commutative but for the order of the columns. `Row.map_entries_merge?` says that
adding one entry after the other comes to the same.
-/

namespace DecisionTable

namespace OrderedMap

variable {κ α : Type} {a b c : OrderedMap κ α}

theorem nodup_entries (a : OrderedMap κ α) : a.entries.Nodup := List.Nodup.of_map _ a.nodup

variable [DecidableEq κ]

/-! ## Comparing -/

/-- Maps with the same values have the same entries, in some order. -/
theorem perm_entries_of_get?_eq (h : ∀ k, a.get? k = b.get? k) : a.entries.Perm b.entries := by
  refine (List.perm_ext_iff_of_nodup a.nodup_entries b.nodup_entries).2 fun e => ?_
  rw [← get?_eq_some_iff, ← get?_eq_some_iff, h]

section Comparing

variable [DecidableEq α]

/-- Rows with the same entries in whatever order are the same assignment. -/
theorem sameEntries_of_perm (h : a.entries.Perm b.entries) : a.sameEntries b = true := by
  rw [sameEntries, Bool.and_eq_true, decide_eq_true_iff, List.all_eq_true]
  refine ⟨h.length_eq, fun e he => ?_⟩
  rw [decide_eq_true_iff, get?_eq_some_iff]
  exact h.mem_iff.1 he

/-- To look every entry of the one map up in the other is enough where the other has no more
entries: distinct entries that all stand there leave no further one. -/
theorem sameEntries_iff : a.sameEntries b = true ↔ ∀ k, a.get? k = b.get? k := by
  constructor
  · intro h
    rw [sameEntries, Bool.and_eq_true, decide_eq_true_iff, List.all_eq_true] at h
    have hsubset : a.entries ⊆ b.entries := fun e he =>
      get?_eq_some_iff.1 (of_decide_eq_true (h.2 e he))
    have hperm : a.entries.Perm b.entries :=
      (List.subperm_of_subset a.nodup_entries hsubset).perm_of_length_le (Nat.le_of_eq h.1.symm)
    intro k
    ext v
    rw [get?_eq_some_iff, get?_eq_some_iff, hperm.mem_iff]
  · exact fun h => sameEntries_of_perm (perm_entries_of_get?_eq h)

theorem equivalence_sameEntries :
    Equivalence fun a b : OrderedMap κ α => a.sameEntries b = true := by
  simp only [sameEntries_iff]
  exact ⟨fun _ _ => rfl, fun h k => (h k).symm, fun h₁ h₂ k => (h₁ k).trans (h₂ k)⟩

end Comparing

/-! ## Going together -/

/-- No key has a value in the one map and another value in the other. -/
def Compatible (a b : OrderedMap κ α) : Prop :=
  ∀ k v w, a.get? k = some v → b.get? k = some w → v = w

theorem compatible_iff_agrees [DecidableEq α] : a.Compatible b ↔ a.agrees b = true :=
  agrees_iff.symm

instance [DecidableEq α] : Decidable (a.Compatible b) := decidable_of_iff _ agrees_iff

theorem compatible_iff_shared :
    a.Compatible b ↔ ∀ k ∈ a.keys, k ∈ b.keys → a.get? k = b.get? k := by
  constructor
  · intro h k ha hb
    obtain ⟨v, hv⟩ := Option.isSome_iff_exists.1 (contains_iff.2 ha)
    obtain ⟨w, hw⟩ := Option.isSome_iff_exists.1 (contains_iff.2 hb)
    rw [hv, hw, h k v w hv hw]
  · intro h k v w hv hw
    have hvw := h k (mem_keys_of_get? hv) (mem_keys_of_get? hw)
    rw [hv, hw] at hvw
    exact Option.some.inj hvw

theorem Compatible.symm (h : a.Compatible b) : b.Compatible a :=
  fun k v w hv hw => (h k w v hw hv).symm

/-- It does not matter which of two maps that go together is asked first. -/
theorem Compatible.or_comm (h : a.Compatible b) (k : κ) :
    (a.get? k).or (b.get? k) = (b.get? k).or (a.get? k) := by
  cases ha : a.get? k with
  | none => rw [Option.none_or, Option.or_none]
  | some v =>
    cases hb : b.get? k with
    | none => rfl
    | some w => rw [Option.some_or, Option.some_or, h k v w ha hb]

/-- A third map goes together with two joined ones exactly where it does with each. -/
theorem compatible_extend_iff (h : a.Compatible b) :
    (a.extend b).Compatible c ↔ a.Compatible c ∧ b.Compatible c := by
  have hleft : ∀ k v, a.get? k = some v → (a.extend b).get? k = some v := by
    intro k v hv
    rw [get?_extend, hv, Option.some_or]
  have hright : ∀ k v, b.get? k = some v → (a.extend b).get? k = some v := by
    intro k v hv
    rw [get?_extend, h.or_comm, hv, Option.some_or]
  constructor
  · intro hc
    exact ⟨fun k v w hv => hc k v w (hleft k v hv), fun k v w hv => hc k v w (hright k v hv)⟩
  · rintro ⟨ha, hb⟩ k v w hv hw
    rw [get?_extend, Option.or_eq_some_iff] at hv
    rcases hv with hv | ⟨-, hv⟩
    · exact ha k v w hv hw
    · exact hb k v w hv hw

theorem compatible_comm : a.Compatible b ↔ b.Compatible a := ⟨.symm, .symm⟩

/-- Joined in whatever groups, three maps have the same entries in the same order. -/
theorem extend_assoc (a b c : OrderedMap κ α) :
    (a.extend b).extend c = a.extend (b.extend c) := by
  have hcontains (k : κ) : (a.extend b).contains k = (a.contains k || b.contains k) := by
    rw [contains, get?_extend, Option.isSome_or]
    rfl
  refine OrderedMap.ext ?_
  simp only [entries_extend, List.filter_append, List.filter_filter, List.append_assoc, hcontains,
    Bool.not_or]

/-! ## Entry by entry -/

variable [DecidableEq α]

/-- The entries of a map with those of another added one by one: an entry whose key is there is
left out, unless it has another value, in which case nothing comes of it. -/
def addEntries? (merged : List (κ × α)) : List (κ × α) → Option (List (κ × α))
  | [] => some merged
  | e :: es =>
    match lookup e.1 merged with
    | some v => if v = e.2 then addEntries? merged es else none
    | none => addEntries? (merged ++ [e]) es

/-- Entries with distinct keys add up as if each were looked up among the first entries only: what
was added in the meantime has other keys. -/
theorem addEntries?_eq {merged es : List (κ × α)} (hes : (es.map Prod.fst).Nodup)
    (hmerged : ∀ e ∈ es, lookup e.1 merged = a.get? e.1) :
    addEntries? merged es =
      if es.all fun e => (a.get? e.1).all (· = e.2) then
        some (merged ++ es.filter fun e => !a.contains e.1)
      else none := by
  induction es generalizing merged with
  | nil => simp [addEntries?]
  | cons e es ih =>
    rw [List.map_cons, List.nodup_cons] at hes
    rw [addEntries?, hmerged e List.mem_cons_self, List.all_cons]
    have hrest : ∀ f ∈ es, lookup f.1 merged = a.get? f.1 := fun f hf =>
      hmerged f (List.mem_cons_of_mem _ hf)
    cases hget : a.get? e.1 with
    | some v =>
      have hthere : a.contains e.1 = true := by rw [contains, hget]; rfl
      by_cases hv : v = e.2
      · rw [List.filter_cons_of_neg (by simp [hthere])]
        simp only [hv, if_true, ih hes.2 hrest, Option.all_some, decide_true, Bool.true_and]
      · simp [hv]
    | none =>
      have hnew : a.contains e.1 = false := by rw [contains, hget]; rfl
      have hadded : ∀ f ∈ es, lookup f.1 (merged ++ [e]) = a.get? f.1 := by
        intro f hf
        have hne : e.1 ≠ f.1 := fun h => hes.1 (h ▸ List.mem_map_of_mem hf)
        rw [lookup_append, hrest f hf, lookup, if_neg hne, lookup, Option.or_none]
      rw [List.filter_cons_of_pos (by simp [hnew])]
      simp only [ih hes.2 hadded, Option.all_none, Bool.true_and, List.append_assoc,
        List.singleton_append]

end OrderedMap

namespace Row

open OrderedMap

variable {a b c : Row}

/-! ## Merging -/

theorem merge?_of_compatible (h : a.Compatible b) : a.merge? b = some (a.extend b) :=
  if_pos (compatible_iff_agrees.1 h)

theorem merge?_of_not_compatible (h : ¬ a.Compatible b) : a.merge? b = none :=
  if_neg (mt compatible_iff_agrees.2 h)

theorem isSome_merge?_iff : (a.merge? b).isSome ↔ a.Compatible b := by
  by_cases h : a.Compatible b
  · simp [merge?_of_compatible h, h]
  · simp [merge?_of_not_compatible h, h]

/-- Merging is adding entry by entry. -/
theorem map_entries_merge? (a b : Row) :
    (a.merge? b).map entries = addEntries? a.entries b.entries := by
  rw [addEntries?_eq b.nodup fun _ _ => rfl, merge?, agrees, apply_ite (Option.map entries)]
  rfl

/-- Either of two rows can be merged into the other, and only the order of the columns tells. -/
theorem merge?_comm (a b : Row) :
    Option.Rel (fun r s : Row => r.sameEntries s = true) (a.merge? b) (b.merge? a) := by
  by_cases h : a.Compatible b
  · rw [merge?_of_compatible h, merge?_of_compatible h.symm]
    refine .some (sameEntries_iff.2 fun k => ?_)
    rw [get?_extend, get?_extend, h.or_comm]
  · rw [merge?_of_not_compatible h, merge?_of_not_compatible (mt Compatible.symm h)]
    exact .none

/-- Three rows merge if any two of them go together, in whatever groups they are merged. -/
theorem merge?_assoc (a b c : Row) :
    ((a.merge? b).bind fun m => m.merge? c) = (b.merge? c).bind fun m => a.merge? m := by
  by_cases hab : a.Compatible b
  · by_cases hbc : b.Compatible c
    · rw [merge?_of_compatible hab, merge?_of_compatible hbc, Option.bind_some, Option.bind_some]
      have hleft : (a.extend b).Compatible c ↔ a.Compatible c := by
        rw [compatible_extend_iff hab, and_iff_left hbc]
      have hright : a.Compatible (b.extend c) ↔ a.Compatible c := by
        rw [compatible_comm, compatible_extend_iff hbc, compatible_comm (a := b),
          compatible_comm (a := c), and_iff_right hab]
      by_cases hac : a.Compatible c
      · rw [merge?_of_compatible (hleft.2 hac), merge?_of_compatible (hright.2 hac), extend_assoc]
      · rw [merge?_of_not_compatible (mt hleft.1 hac), merge?_of_not_compatible (mt hright.1 hac)]
    · rw [merge?_of_compatible hab, merge?_of_not_compatible hbc, Option.bind_some,
        Option.bind_none]
      exact merge?_of_not_compatible fun h => hbc ((compatible_extend_iff hab).1 h).2
  · rw [merge?_of_not_compatible hab, Option.bind_none]
    by_cases hbc : b.Compatible c
    · rw [merge?_of_compatible hbc, Option.bind_some]
      refine (merge?_of_not_compatible fun h => hab ?_).symm
      exact ((compatible_extend_iff hbc).1 h.symm).1.symm
    · rw [merge?_of_not_compatible hbc, Option.bind_none]

end Row

end DecisionTable
