import DecisionTable.Condition.Expression
import DecisionTable.Condition.Token

/-!
# The grammar of conditions

Which lists of tokens are conditions, and of which tree, said by rules and not by reading:

* a condition is one or more alternatives with `OR` between them;
* an alternative is one or more factors with `AND` between them;
* a factor is a condition in parentheses, a column with `IN` and a list, or a column with a
  comparison and a run of tokens. An equation with one token has the value of that token; with
  more it has their text, and any other comparison has a tag.

One alternative or one factor has its own tree, two or more are the terms of one node (`Chain`).
The number that goes through the rules bounds how deep groups are nested.
-/

namespace DecisionTable.Grammar

/-! ## Values -/

/-- The tokens of a list, with the values that they denote. A comma may end the list. -/
inductive Entries : List Token → List String → Prop where
  | nil : Entries [] []
  | last {t : Token} : t.isValue = true → Entries [t] [t.value]
  | cons {t : Token} {ts : List Token} {values : List String} :
      t.isValue = true → Entries ts values → Entries (t :: .comma :: ts) (t.value :: values)

/-- The keywords that stand in a value inside parentheses only. -/
def PartsValues (t : Token) : Prop := t = .andKw ∨ t = .orKw ∨ t = .thenKw

/-- Tokens with balanced parentheses. With `top`, the keywords that part values stand inside
parentheses only. -/
inductive Balanced : Bool → List Token → Prop where
  | nil {top : Bool} : Balanced top []
  | token {top : Bool} {t : Token} {ts : List Token} :
      t ≠ .openParen → t ≠ .closeParen → (top = true → ¬ PartsValues t) →
      Balanced top ts → Balanced top (t :: ts)
  | group {top : Bool} {ts us : List Token} :
      Balanced false ts → Balanced top us →
      Balanced top (.openParen :: ts ++ .closeParen :: us)

/-- The tokens to the right of a comparison. -/
def IsRun (ts : List Token) : Prop := ts ≠ [] ∧ Balanced true ts

/-! ## Conditions -/

/-- The tree of a chain of terms: a term by itself is the tree, and several are one node with the
terms in their order. -/
inductive Chain (node : List Expression → Expression) : List Expression → Expression → Prop where
  | one {e : Expression} : Chain node [e] e
  | several {e f : Expression} {es : List Expression} :
      Chain node (e :: f :: es) (node (e :: f :: es))

mutual

/-- Alternatives with `OR` between them, and their trees. -/
inductive Alternatives : Nat → List Token → List Expression → Prop where
  | single {n : Nat} {ts : List Token} {es : List Expression} {e : Expression} :
      Factors n ts es → Chain .all es e → Alternatives n ts [e]
  | cons {n : Nat} {ts us : List Token} {es fs : List Expression} {e : Expression} :
      Factors n ts es → Chain .all es e → Alternatives n us fs →
      Alternatives n (ts ++ .orKw :: us) (e :: fs)

/-- Factors with `AND` between them, and their trees. -/
inductive Factors : Nat → List Token → List Expression → Prop where
  | single {n : Nat} {ts : List Token} {e : Expression} : Factor n ts e → Factors n ts [e]
  | cons {n : Nat} {ts us : List Token} {e : Expression} {es : List Expression} :
      Factor n ts e → Factors n us es → Factors n (ts ++ .andKw :: us) (e :: es)

/-- A factor and its tree. -/
inductive Factor : Nat → List Token → Expression → Prop where
  | group {n : Nat} {ts : List Token} {es : List Expression} {e : Expression} :
      Alternatives n ts es → Chain .any es e → Factor (n + 1) (.openParen :: ts ++ [.closeParen]) e
  | oneOf {n : Nat} {name : String} {ts : List Token} {values : List String} :
      Entries ts values →
      Factor n (.word name :: .inKw :: .openParen :: ts ++ [.closeParen])
        (.clause (.on name .oneOf values))
  | equation {n : Nat} {name : String} {t : Token} :
      IsRun [t] →
      Factor n [.word name, .comparison .equal, t] (.clause (.on name .equal [t.value]))
  | joined {n : Nat} {name : String} {ts : List Token} :
      IsRun ts → 2 ≤ ts.length →
      Factor n (.word name :: .comparison .equal :: ts)
        (.clause (.on name .equal [Token.join ts]))
  | tagged {n : Nat} {name : String} {c : Comparison} {ts : List Token} :
      c ≠ .equal → IsRun ts →
      Factor n (.word name :: .comparison c :: ts)
        (.clause (.on name (.tagged c) [c.symbol ++ " " ++ Token.join ts]))

end

/-- The tokens are a condition with the given tree, with groups nested `n` deep at most. -/
def Derives (n : Nat) (ts : List Token) (e : Expression) : Prop :=
  ∃ es, Alternatives n ts es ∧ Chain .any es e

/-! ## Small conditions -/

theorem Balanced.append {top : Bool} {ts us : List Token} (ht : Balanced top ts)
    (hu : Balanced top us) : Balanced top (ts ++ us) := by
  induction ht with
  | nil => exact hu
  | token h₁ h₂ h₃ _ ih => exact .token h₁ h₂ h₃ (ih hu)
  | group h _ _ ih => simpa using Balanced.group h (ih hu)

/-- A value is a run by itself. -/
theorem isRun_of_isValue {t : Token} (h : t.isValue = true) : IsRun [t] := by
  refine ⟨nofun, .token ?_ ?_ (fun _ => ?_) .nil⟩
  · rintro rfl
    cases h
  · rintro rfl
    cases h
  · rintro (rfl | rfl | rfl) <;> cases h

theorem Derives.of_factor {n : Nat} {ts : List Token} {e : Expression} (h : Factor n ts e) :
    Derives n ts e := ⟨[e], .single (.single h) .one, .one⟩

/-- In parentheses every condition is a factor. -/
theorem Derives.parenthesised {n : Nat} {ts : List Token} {e : Expression} (h : Derives n ts e) :
    Factor (n + 1) (.openParen :: ts ++ [.closeParen]) e := by
  obtain ⟨es, hes, he⟩ := h
  exact .group hes he

end DecisionTable.Grammar
