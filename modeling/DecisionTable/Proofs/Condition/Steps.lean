import DecisionTable.Condition.Reader

/-!
# What a reader does at a token

`Reader.Step` lists all that reading one token can come to, and `Reader.Reads` is any number
of steps. Whatever is said about reading is said about these two: `Reader.step_eq_ok_iff`
and `Reader.run_eq_ok_iff` tie them to the functions that read.
-/

namespace DecisionTable.Reader

/-! ## One step -/

/-- What follows a clause or a group. -/
inductive Joins (g : Group) : List Group → Token → Reader → Prop where
  | and {outer : List Group} : Joins g outer .andKw ⟨g, outer, .factor⟩
  | or {outer : List Group} : Joins g outer .orKw ⟨g.endAlternative, outer, .factor⟩
  | close {h : Group} {outer : List Group} :
      Joins g (h :: outer) .closeParen ⟨h.addTerm g.close, outer, .junction⟩

/-- A token that can be read, and the reader after it. -/
inductive Step (g : Group) (outer : List Group) : Phase → Token → Reader → Prop where
  | group : outer.length < maxDepth → Step g outer .factor .openParen ⟨.empty, g :: outer, .factor⟩
  | column {name : String} : Step g outer .factor (.word name) ⟨g, outer, .operator name⟩
  | membership {name : String} : Step g outer (.operator name) .inKw ⟨g, outer, .list name⟩
  | comparison {name : String} {c : Comparison} :
      Step g outer (.operator name) (.comparison c) ⟨g, outer, .value name c [] 0⟩
  | list {name : String} : Step g outer (.list name) .openParen ⟨g, outer, .entry name []⟩
  | entry {name : String} {values : List String} {t : Token} :
      t.isValue = true →
      Step g outer (.entry name values) t ⟨g, outer, .separator name (t.value :: values)⟩
  | comma {name : String} {values : List String} :
      Step g outer (.separator name values) .comma ⟨g, outer, .entry name values⟩
  | entryClose {name : String} {values : List String} :
      Step g outer (.entry name values) .closeParen
        ⟨g.addTerm (.clause (.on name .oneOf values.reverse)), outer, .junction⟩
  | separatorClose {name : String} {values : List String} :
      Step g outer (.separator name values) .closeParen
        ⟨g.addTerm (.clause (.on name .oneOf values.reverse)), outer, .junction⟩
  | value {name : String} {c : Comparison} {tokens : List Token} {depth : Nat} {t : Token} :
      ¬ (depth = 0 ∧ endsValue t = true) →
      Step g outer (.value name c tokens depth) t
        ⟨g, outer, .value name c (t :: tokens) (depthAfter depth t)⟩
  | valueEnd {name : String} {c : Comparison} {tokens : List Token} {t : Token} {s : Reader} :
      tokens ≠ [] →
      Joins (g.addTerm (.clause (.ofComparison name c tokens.reverse))) outer t s →
      Step g outer (.value name c tokens 0) t s
  | junction {t : Token} {s : Reader} : Joins g outer t s → Step g outer .junction t s

theorem stepJunction_eq_ok_iff {r s : Reader} {t : Token} :
    r.stepJunction t = .ok s ↔ Joins r.group r.outer t s := by
  obtain ⟨g, outer, phase⟩ := r
  constructor
  · intro h
    cases t <;> cases outer <;> simp [stepJunction, expect] at h <;> subst h <;> constructor
  · intro h
    cases h <;> rfl

theorem Joins.endsValue {g : Group} {outer : List Group} {t : Token} {s : Reader}
    (h : Joins g outer t s) : endsValue t = true := by
  cases h <;> rfl

/-- All that reading a token can come to. -/
theorem step_eq_ok_iff {g : Group} {outer : List Group} {phase : Phase} {t : Token} {s : Reader} :
    step ⟨g, outer, phase⟩ t = .ok s ↔ Step g outer phase t s := by
  constructor
  · intro h
    cases phase with
    | factor =>
      cases t <;> simp only [step, reduceCtorEq, Except.ok.injEq] at h
      case openParen =>
        by_cases hd : maxDepth ≤ outer.length
        · simp [hd] at h
        · simp only [if_neg hd, Except.ok.injEq] at h
          exact h ▸ .group (by omega)
      case word name => exact h ▸ .column
    | operator name =>
      cases t <;> simp only [step, reduceCtorEq, Except.ok.injEq] at h
      case comparison c => exact h ▸ .comparison
      case inKw => exact h ▸ .membership
    | list name =>
      cases t <;> simp only [step, reduceCtorEq, Except.ok.injEq] at h
      exact h ▸ .list
    | entry name values =>
      -- a closing parenthesis is asked for first, so an entry is any other value
      simp only [step] at h
      split at h
      · next ht =>
        simp only [Except.ok.injEq] at h
        exact ht ▸ h ▸ .entryClose
      · split at h
        · next hv =>
          simp only [Except.ok.injEq] at h
          exact h ▸ .entry hv
        · simp at h
    | separator name values =>
      cases t <;> simp only [step, reduceCtorEq, Except.ok.injEq] at h
      case closeParen => exact h ▸ .separatorClose
      case comma => exact h ▸ .comma
    | value name c tokens depth =>
      simp only [step] at h
      split at h
      · next hend =>
        -- the token ends the run, which must not be empty, and then joins
        obtain ⟨rfl, -⟩ := hend
        split at h
        · simp at h
        · next htokens => exact .valueEnd htokens (stepJunction_eq_ok_iff.1 h)
      · next hend =>
        simp only [Except.ok.injEq] at h
        exact h ▸ .value hend
    | junction => exact .junction (stepJunction_eq_ok_iff.1 h)
  · intro h
    cases h with
    | group hd => simp [step, Nat.not_le.2 hd]
    | entry hv => cases t <;> simp_all [step, Token.isValue, expect]
    | value hend => simp [step, hend, expect]
    | valueEnd htokens hj =>
      simp only [step, hj.endsValue, and_self, if_true, if_neg htokens]
      exact stepJunction_eq_ok_iff.2 hj
    | junction hj => exact stepJunction_eq_ok_iff.2 hj
    | _ => rfl

/-! ## Many steps -/

/-- The tokens can be read one by one, and lead from one reader to another. -/
inductive Reads : Reader → List Token → Reader → Prop where
  | nil {r : Reader} : Reads r [] r
  | cons {r s u : Reader} {t : Token} {ts : List Token} :
      r.step t = .ok s → Reads s ts u → Reads r (t :: ts) u

theorem Reads.append {r s u : Reader} {ts us : List Token} (h : Reads r ts s)
    (h' : Reads s us u) : Reads r (ts ++ us) u := by
  induction h with
  | nil => exact h'
  | cons hstep _ ih => exact .cons hstep (ih h')

theorem Reads.single {r s : Reader} {t : Token} (h : r.step t = .ok s) : Reads r [t] s :=
  .cons h .nil

/-- Tokens are a condition where they can all be read and the input may end after them. -/
theorem run_eq_ok_iff {r : Reader} {index : Nat} {ts : List Token} {e : Expression} :
    r.run index ts = .ok e ↔ ∃ s, Reads r ts s ∧ s.finish = .ok e := by
  induction ts generalizing r index with
  | nil =>
    constructor
    · intro h
      rw [run] at h
      split at h
      · next e' he =>
        cases h
        exact ⟨r, .nil, he⟩
      · cases h
    · rintro ⟨s, hs, he⟩
      cases hs
      rw [run, he]
  | cons t ts ih =>
    constructor
    · intro h
      rw [run] at h
      split at h
      · next s hs =>
        obtain ⟨u, hu, he⟩ := ih.1 h
        exact ⟨u, .cons hs hu, he⟩
      · cases h
    · rintro ⟨u, hu, he⟩
      cases hu with
      | cons hs hu =>
        rw [run, hs]
        exact ih.2 ⟨u, hu, he⟩

end DecisionTable.Reader
