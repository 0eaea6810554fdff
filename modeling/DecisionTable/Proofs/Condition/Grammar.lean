import DecisionTable.Proofs.Condition.Completeness
import DecisionTable.Proofs.Condition.Soundness

/-!
# Reading is the grammar

A list of tokens reads as a tree if and only if it derives that tree with groups nested at
most `maxDepth` deep. Reading is a function, so no list derives two trees.
-/

namespace DecisionTable.Expression

open Grammar

/-- Tokens read as a condition exactly where they derive it, and they derive at most one. -/
theorem ofTokens_eq_ok_iff_derives (ts : List Token) :
    (∀ e, ofTokens ts = .ok e ↔ Derives maxDepth ts e) ∧
      ∀ e f, Derives maxDepth ts e → Derives maxDepth ts f → e = f := by
  refine ⟨fun e => ⟨Derives.of_ofTokens, Derives.ofTokens⟩, ?_⟩
  intro e f he hf
  have hboth : (Except.ok e : Except ReadError Expression) = .ok f :=
    he.ofTokens.symm.trans hf.ofTokens
  exact Except.ok.inj hboth

/-- `t.a = 007 OR ((c IN ('x', y,) OR d > (u THEN v)) AND e = w x)`: the tree has a node for each
chain of two terms and none for the parentheses. -/
theorem ofTokens_eq_ok_iff_derives_nested :
    let ts : List Token :=
      [.word "t.a", .comparison .equal, .word "007", .orKw, .openParen, .openParen, .word "c",
        .inKw, .openParen, .literal "'x'", .comma, .word "y", .comma, .closeParen, .orKw,
        .word "d", .comparison .greater, .openParen, .word "u", .thenKw, .word "v", .closeParen,
        .closeParen, .andKw, .word "e", .comparison .equal, .word "w", .word "x", .closeParen]
    let e : Expression :=
      .any [.clause ⟨"a", .equal, ["7"]⟩,
        .all [.any [.clause ⟨"c", .oneOf, ["x", "y"]⟩,
            .clause ⟨"d", .tagged .greater, ["> ( u THEN v )"]⟩],
          .clause ⟨"e", .equal, ["w x"]⟩]]
    ofTokens ts = .ok e ∧ Derives maxDepth ts e ∧ ∀ f, Derives maxDepth ts f → f = e := by
  intro ts e
  have hread : ofTokens ts = .ok e := rfl
  obtain ⟨hiff, hunique⟩ := ofTokens_eq_ok_iff_derives ts
  have hderives : Derives maxDepth ts e := (hiff e).1 hread
  exact ⟨hread, hderives, fun f hf => hunique f e hf hderives⟩

end DecisionTable.Expression
