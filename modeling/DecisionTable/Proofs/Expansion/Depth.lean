import DecisionTable.Condition.Printer
import DecisionTable.Expansion.Depth
import DecisionTable.Proofs.Condition.Soundness

/-!
# Depth follows nesting

A chain is one node however long it is, and a chain of one term is none. So there are two nodes at
most, an alternative and its factors, between a group and the groups in it (`Factor.height_le`),
and the depth of a condition that was read is bounded by how deep its groups were nested
(`withinDepth_of_ofTokens`). A tree is no deeper than it is high, and walking it nests no more
calls than that (`withinDepth_of_height_le`).
-/

namespace DecisionTable

/-- A walk of a list is a fold if every step of it comes to something. -/
theorem foldlM_eq_some {α β : Type} {f : β → α → Option β} {g : β → α → β} {l : List α}
    (h : ∀ b, ∀ a ∈ l, f b a = some (g b a)) (b : β) : l.foldlM f b = some (l.foldl g b) := by
  induction l generalizing b with
  | nil => rfl
  | cons a l ih =>
    rw [List.foldlM_cons, h b a List.mem_cons_self]
    exact ih (fun b c hc => h b c (List.mem_cons_of_mem a hc)) (g b a)

namespace Expression

variable {n : Nat} {e : Expression} {es : List Expression}

/-! ## Height -/

theorem height_pos (e : Expression) : 0 < height e := by cases e <;> simp [height]

theorem heightOf_le_iff : heightOf es ≤ n ↔ ∀ e ∈ es, height e ≤ n := by
  induction es with
  | nil => simp [heightOf]
  | cons e es ih => rw [heightOf, Nat.max_le, ih, List.forall_mem_cons]

theorem height_all_le_iff : height (all es) ≤ n + 1 ↔ ∀ e ∈ es, height e ≤ n := by
  rw [height, Nat.add_le_add_iff_right, heightOf_le_iff]

theorem height_any_le_iff : height (any es) ≤ n + 1 ↔ ∀ e ∈ es, height e ≤ n := by
  rw [height, Nat.add_le_add_iff_right, heightOf_le_iff]

/-! ## Paths and walks -/

theorem IsPath.length_le_height {path : List Expression} (h : IsPath e path) :
    path.length ≤ height e := by
  induction h with
  | @root e => exact e.height_pos
  | all ht _ ih =>
    rw [height, List.length_cons]
    exact Nat.succ_le_succ (Nat.le_trans ih (height_le_heightOf ht))
  | any ht _ ih =>
    rw [height, List.length_cons]
    exact Nat.succ_le_succ (Nat.le_trans ih (height_le_heightOf ht))

theorem rowsWithin_of_height_le (h : height e ≤ n) : rowsWithin n e = some e.rows := by
  induction n generalizing e with
  | zero => exact absurd h (Nat.not_le_of_lt e.height_pos)
  | succ n ih =>
    cases e with
    | clause c => rw [rowsWithin, rows_clause]
    | all ts =>
      rw [height_all_le_iff] at h
      cases ts with
      | nil => rw [rowsWithin, rows_all_nil]
      | cons t ts =>
        rw [List.forall_mem_cons] at h
        rw [rowsWithin, ih h.1, rows_all_cons]
        refine foldlM_eq_some (fun found u hu => ?_) t.rows
        -- a term that is skipped would have brought nothing
        split
        · next hempty => rw [List.isEmpty_iff.1 hempty, mergeRows_nil_left]
        · rw [ih (h.2 u hu), Option.map_some]
    | any ts =>
      rw [height_any_le_iff] at h
      rw [rowsWithin, rows_any, List.flatMap_eq_foldl]
      refine foldlM_eq_some (fun found t ht => ?_) []
      rw [ih (h t ht), Option.map_some]

theorem collectWithin_of_height_le (h : height e ≤ n) (found : List String) :
    collectWithin n found e = some (e.mentions.foldl addNew found) := by
  induction n generalizing e found with
  | zero => exact absurd h (Nat.not_le_of_lt e.height_pos)
  | succ n ih =>
    cases e with
    | clause c => rw [collectWithin, mentions_clause, List.foldl_cons, List.foldl_nil]
    | all ts =>
      rw [height_all_le_iff] at h
      rw [collectWithin, mentions_all, List.foldl_flatMap]
      exact foldlM_eq_some (fun found t ht => ih (h t ht) found) found
    | any ts =>
      rw [height_any_le_iff] at h
      rw [collectWithin, mentions_any, List.foldl_flatMap]
      exact foldlM_eq_some (fun found t ht => ih (h t ht) found) found

theorem withinDepth_of_height_le (h : height e ≤ n) : e.WithinDepth n where
  length_path _ hpath := Nat.le_trans hpath.length_le_height h
  rowsWithin_eq := rowsWithin_of_height_le h
  columnsWithin_eq := by rw [columnsWithin, collectWithin_of_height_le h, foldl_addNew_nil, columns]

end Expression

/-! ## Derivations -/

namespace Grammar

open Expression

/-- A chain is one node at most. -/
theorem Chain.height_le {node : List Expression → Expression} {n : Nat} {es : List Expression}
    {e : Expression} (hchain : Chain node es e)
    (hnode : (∀ e ∈ es, height e ≤ n) → height (node es) ≤ n + 1) (h : ∀ e ∈ es, height e ≤ n) :
    height e ≤ n + 1 := by
  cases hchain with
  | one => exact Nat.le_succ_of_le (h _ List.mem_cons_self)
  | several => exact hnode h

-- A level of nesting adds two nodes at most: the chain of its alternatives, and the chain of
-- factors that one of them is.
mutual

theorem Alternatives.height_le {n : Nat} {ts : List Token} {es : List Expression} :
    Alternatives n ts es → ∀ e ∈ es, height e ≤ 2 * n + 2
  | .single h he => by
    rw [List.forall_mem_singleton]
    exact he.height_le height_all_le_iff.2 h.height_le
  | .cons h he hs => by
    rw [List.forall_mem_cons]
    exact ⟨he.height_le height_all_le_iff.2 h.height_le, hs.height_le⟩

theorem Factors.height_le {n : Nat} {ts : List Token} {es : List Expression} :
    Factors n ts es → ∀ e ∈ es, height e ≤ 2 * n + 1
  | .single h => by
    rw [List.forall_mem_singleton]
    exact h.height_le
  | .cons h hs => by
    rw [List.forall_mem_cons]
    exact ⟨h.height_le, hs.height_le⟩

theorem Factor.height_le {n : Nat} {ts : List Token} {e : Expression} :
    Factor n ts e → height e ≤ 2 * n + 1
  | .group h he => he.height_le height_any_le_iff.2 h.height_le
  | .oneOf _ => by simp [height]
  | .equation _ => by simp [height]
  | .joined _ _ => by simp [height]
  | .tagged _ _ => by simp [height]

end

/-- The outermost level has no parentheses, and adds its two chains like any other. -/
theorem Derives.height_le {n : Nat} {ts : List Token} {e : Expression} (h : Derives n ts e) :
    height e ≤ 2 * (n + 1) + 1 := by
  obtain ⟨es, hes, he⟩ := h
  exact he.height_le height_any_le_iff.2 hes.height_le

end Grammar

/-- However many tokens a condition has that was read: if no more than `d` groups were open at
once, no path in it has more than `2 * (d + 1) + 1` nodes, and its rows are found and its columns
are collected with no more calls nested. As no more groups can be open than are allowed, 259 nodes
and nested calls are always enough. -/
theorem Expression.withinDepth_of_ofTokens {ts : List Token} {e : Expression}
    (h : ofTokens ts = .ok e) :
    (∀ d, Reader.start.deepest ts ≤ d → e.WithinDepth (2 * (d + 1) + 1)) ∧ e.WithinDepth 259 := by
  have hwithin : ∀ d, Reader.start.deepest ts ≤ d → e.WithinDepth (2 * (d + 1) + 1) :=
    fun d hd => withinDepth_of_height_le (Grammar.Derives.of_ofTokens_within h hd).height_le
  have hdeepest : Reader.start.deepest ts ≤ 128 := Reader.deepest_le (Nat.zero_le _) ts
  exact ⟨hwithin, hwithin 128 hdeepest⟩

/-- `(a = 1 AND b = 2 OR c = 3) AND d = 4 OR e = 5`: one group is open at most, and the path to the
first clause has all the five nodes that this allows. -/
theorem Expression.withinDepth_of_ofTokens_group :
    let ts : List Token :=
      [.openParen, .word "a", .comparison .equal, .word "1", .andKw, .word "b",
        .comparison .equal, .word "2", .orKw, .word "c", .comparison .equal, .word "3", .closeParen,
        .andKw, .word "d", .comparison .equal, .word "4", .orKw, .word "e", .comparison .equal,
        .word "5"]
    let group : Expression :=
      .any [.all [.clause ⟨"a", .equal, ["1"]⟩, .clause ⟨"b", .equal, ["2"]⟩],
        .clause ⟨"c", .equal, ["3"]⟩]
    let e : Expression :=
      .any [.all [group, .clause ⟨"d", .equal, ["4"]⟩], .clause ⟨"e", .equal, ["5"]⟩]
    ofTokens ts = .ok e ∧ Reader.start.deepest ts = 1 ∧ (∃ path, IsPath e path ∧ path.length = 5) ∧
      e.WithinDepth 5 ∧ e.WithinDepth 259 := by
  intro ts group e
  have hread : ofTokens ts = .ok e := rfl
  have hdeepest : Reader.start.deepest ts = 1 := rfl
  have hpath : ∃ path, IsPath e path ∧ path.length = 5 :=
    ⟨_, .any List.mem_cons_self <| .all List.mem_cons_self <| .any List.mem_cons_self <|
      .all List.mem_cons_self .root, rfl⟩
  obtain ⟨hwithin, hbound⟩ := withinDepth_of_ofTokens hread
  exact ⟨hread, hdeepest, hpath, hwithin 1 (Nat.le_of_eq hdeepest), hbound⟩

end DecisionTable
