import DecisionTable.Condition.Grammar
import DecisionTable.Proofs.Condition.Column

/-!
# Derived trees are in normal form

A chain of one term is no node, so the nodes of a derived tree have two terms at least, and a
term that is a node of its own came from a group. Hence the tree is in normal form, and writing
it nests parentheses no deeper than they were (`Derives.isNormal`).
-/

namespace DecisionTable

namespace Expression

open Grammar (Chain)

/-! ## Terms of a chain -/

/-- The term can stand in a node with `n` levels of parentheses, one of which are its own if it is
a group there. -/
def FitsIn (group : Expression → Bool) (n : Nat) (e : Expression) : Prop :=
  e.isNormal = true ∧ e.nesting + (if group e then 1 else 0) ≤ n

variable {group : Expression → Bool} {n : Nat} {e : Expression} {es : List Expression}

theorem nestingIn_le_iff :
    nestingIn group es ≤ n ↔ ∀ e ∈ es, e.nesting + (if group e then 1 else 0) ≤ n := by
  induction es with
  | nil => simp [nestingIn]
  | cons e es ih => rw [nestingIn, Nat.max_le, ih, List.forall_mem_cons]

/-- A node of two terms or more that fit in it is in normal form. -/
theorem isNormal_node {f : Expression} {node : List Expression → Expression}
    (hnormal : ∀ ts, (node ts).isNormal = (2 ≤ ts.length && areNormal ts))
    (hnesting : ∀ ts, (node ts).nesting = nestingIn group ts)
    (h : ∀ t ∈ e :: f :: es, FitsIn group n t) :
    (node (e :: f :: es)).isNormal = true ∧ (node (e :: f :: es)).nesting ≤ n := by
  rw [hnormal, Bool.and_eq_true, decide_eq_true_iff, areNormal_iff, hnesting, nestingIn_le_iff]
  exact ⟨⟨by simp, fun t ht => (h t ht).1⟩, fun t ht => (h t ht).2⟩

/-- A conjunction needs no parentheses in a disjunction. -/
theorem fitsIn_isGroupInAny (hchain : Chain .all es e)
    (h : ∀ t ∈ es, FitsIn isGroupInAll n t) : FitsIn isGroupInAny n e := by
  cases hchain with
  | one =>
    obtain ⟨hnormal, hnesting⟩ := h e List.mem_cons_self
    refine ⟨hnormal, Nat.le_trans (Nat.add_le_add_left ?_ _) hnesting⟩
    cases e <;> simp [isGroupInAll, isGroupInAny]
  | several => exact isNormal_node (by simp [isNormal]) (by simp [nesting]) h

theorem isNormal_of_chain_any (hchain : Chain .any es e)
    (h : ∀ t ∈ es, FitsIn isGroupInAny n t) : e.isNormal = true ∧ e.nesting ≤ n := by
  cases hchain with
  | one =>
    obtain ⟨hnormal, hnesting⟩ := h e List.mem_cons_self
    exact ⟨hnormal, Nat.le_trans (Nat.le_add_right _ _) hnesting⟩
  | several => exact isNormal_node (by simp [isNormal]) (by simp [nesting]) h

theorem fitsIn_clause {c : Clause} (h : normalClause c = true) (n : Nat) :
    FitsIn isGroupInAll n (.clause c) := by
  refine ⟨by rwa [isNormal], ?_⟩
  simp [nesting, isGroupInAll]

end Expression

/-! ## Derivations -/

namespace Grammar

open Expression

mutual

theorem Alternatives.fits {n : Nat} {ts : List Token} {es : List Expression} :
    Alternatives n ts es → ∀ e ∈ es, FitsIn isGroupInAny n e
  | .single h he => by
    rw [List.forall_mem_singleton]
    exact fitsIn_isGroupInAny he h.fits
  | .cons h he hs => by
    rw [List.forall_mem_cons]
    exact ⟨fitsIn_isGroupInAny he h.fits, hs.fits⟩

theorem Factors.fits {n : Nat} {ts : List Token} {es : List Expression} :
    Factors n ts es → ∀ e ∈ es, FitsIn isGroupInAll n e
  | .single h => by
    rw [List.forall_mem_singleton]
    exact h.fits
  | .cons h hs => by
    rw [List.forall_mem_cons]
    exact ⟨h.fits, hs.fits⟩

theorem Factor.fits {n : Nat} {ts : List Token} {e : Expression} :
    Factor n ts e → FitsIn isGroupInAll n e
  | .group h he => by
    obtain ⟨hnormal, hnesting⟩ := isNormal_of_chain_any he h.fits
    refine ⟨hnormal, ?_⟩
    -- its own parentheses are the one level more
    split <;> omega
  | .oneOf _ => fitsIn_clause (by simp [normalClause, not_mem_unqualified]) _
  | .equation _ => fitsIn_clause (by simp [normalClause, not_mem_unqualified]) _
  | .joined _ _ => fitsIn_clause (by simp [normalClause, not_mem_unqualified]) _
  | .tagged hc _ =>
    fitsIn_clause (by simp [normalClause, not_mem_unqualified, hc, tagPrefix]) _

end

/-- A derived tree is in normal form, and is written with parentheses nested no deeper than in
its derivation. -/
theorem Derives.isNormal {n : Nat} {ts : List Token} {e : Expression} (h : Derives n ts e) :
    e.isNormal = true ∧ e.nesting ≤ n := by
  obtain ⟨es, hes, he⟩ := h
  exact isNormal_of_chain_any he hes.fits

end Grammar

end DecisionTable
