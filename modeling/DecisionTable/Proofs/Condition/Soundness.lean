import DecisionTable.Condition.Grammar
import DecisionTable.Proofs.Condition.Steps

/-!
# What was read is derived

The tokens that led to a reader, taken apart by its groups: `Reader.Derived` says what they
are in terms of the grammar. The start has it, each step keeps it (`Derived.step`), and at the
end of the input it is a derivation (`Derived.finish`). The bound on the nesting is a
parameter, so that a run which never has more than `n` groups open derives with `n`.
-/

namespace DecisionTable

namespace Grammar

/-! ## Chains -/

/-- A reader makes the tree of a chain out of its terms. -/
theorem Chain.of_ne_nil {node : List Expression → Expression} {es : List Expression}
    (h : es ≠ []) : Chain node es (chain node es) := by
  match es, h with
  | [_], _ => exact .one
  | _ :: _ :: _, _ => exact .several

theorem Factors.ne_nil {n : Nat} {ts : List Token} {es : List Expression}
    (h : Factors n ts es) : es ≠ [] := by
  cases h <;> exact List.cons_ne_nil _ _

theorem Alternatives.ne_nil {n : Nat} {ts : List Token} {es : List Expression}
    (h : Alternatives n ts es) : es ≠ [] := by
  cases h <;> exact List.cons_ne_nil _ _

/-! ## Growing at the end -/

theorem Factors.snoc {n : Nat} {ts us : List Token} {es : List Expression} {e : Expression} :
    Factors n ts es → Factor n us e → Factors n (ts ++ .andKw :: us) (es ++ [e])
  | .single h, hf => .cons h (.single hf)
  | .cons h hs, hf => by simpa using Factors.cons h (hs.snoc hf)

theorem Alternatives.snoc {n : Nat} {ts us : List Token} {es fs : List Expression}
    {f : Expression} :
    Alternatives n ts es → Factors n us fs → Chain .all fs f →
      Alternatives n (ts ++ .orKw :: us) (es ++ [f])
  | .single h he, hfs, hf => .cons h he (.single hfs hf)
  | .cons h he hs, hfs, hf => by simpa using Alternatives.cons h he (hs.snoc hfs hf)

theorem endsValue_eq_false_iff {t : Token} :
    Reader.endsValue t = false ↔ t ≠ .closeParen ∧ ¬ PartsValues t := by
  cases t <;> simp [Reader.endsValue, PartsValues]

/-- The clause of a comparison with a run, whichever of the three kinds it is. -/
theorem Factor.comparison {n : Nat} {name : String} {c : Comparison} {ts : List Token}
    (h : IsRun ts) :
    Factor n (.word name :: .comparison c :: ts) (.clause (.ofComparison name c ts)) := by
  by_cases hc : c = .equal
  · subst hc
    match ts, h with
    | [], h => exact absurd rfl h.1
    | [t], h => exact .equation h
    | t :: u :: ts, h => exact .joined h (by simp)
  · rw [Clause.ofComparison_of_ne hc]
    exact .tagged hc h

end Grammar

namespace Reader

open Grammar

/-! ## Groups -/

/-- Tokens of a group after which a factor has to come: finished alternatives, each with its
`OR`, then finished terms, each with its `AND`. -/
inductive Open (n : Nat) : List Token → Group → Prop where
  | start : Open n [] .empty
  | or {ts : List Token} {es : List Expression} :
      Alternatives n ts es → Open n (ts ++ [.orKw]) ⟨es.reverse, []⟩
  | and {ts us : List Token} {es fs : List Expression} :
      Alternatives n ts es → Factors n us fs →
      Open n (ts ++ .orKw :: us ++ [.andKw]) ⟨es.reverse, fs.reverse⟩
  | andFirst {us : List Token} {fs : List Expression} :
      Factors n us fs → Open n (us ++ [.andKw]) ⟨[], fs.reverse⟩

/-- Tokens of a group that could be over. -/
inductive Full (n : Nat) : List Token → Group → Prop where
  | first {us : List Token} {fs : List Expression} : Factors n us fs → Full n us ⟨[], fs.reverse⟩
  | further {ts us : List Token} {es fs : List Expression} :
      Alternatives n ts es → Factors n us fs →
      Full n (ts ++ .orKw :: us) ⟨es.reverse, fs.reverse⟩

variable {n m : Nat} {ts us qs ps : List Token} {g : Group} {outer : List Group}

theorem Open.addTerm {e : Expression} (h : Open n ts g) (he : Factor n us e) :
    Full n (ts ++ us) (g.addTerm e) := by
  cases h with
  | start => exact .first (.single he)
  | or h => simpa [Group.addTerm] using Full.further h (.single he)
  | and h hf => simpa [Group.addTerm] using Full.further h (hf.snoc he)
  | andFirst hf => simpa [Group.addTerm] using Full.first (hf.snoc he)

theorem Full.and (h : Full n ts g) : Open n (ts ++ [.andKw]) g := by
  cases h with
  | first hf => exact .andFirst hf
  | further h hf => exact .and h hf

/-- The alternatives of a group that is over. -/
theorem Full.alternatives (h : Full n ts g) :
    Alternatives n ts g.endAlternative.alternatives.reverse := by
  cases h with
  | first hf => simpa [Group.endAlternative] using Alternatives.single hf (.of_ne_nil hf.ne_nil)
  | further h hf => simpa [Group.endAlternative] using h.snoc hf (.of_ne_nil hf.ne_nil)

theorem Full.or (h : Full n ts g) : Open n (ts ++ [.orKw]) g.endAlternative := by
  have hopen := Open.or h.alternatives
  rwa [List.reverse_reverse] at hopen

theorem Full.derives (h : Full n ts g) : Derives n ts g.close :=
  ⟨_, h.alternatives, .of_ne_nil h.alternatives.ne_nil⟩

/-- The tokens before the innermost group. `n` bounds the nesting of the whole condition, `m`
that of the innermost group. -/
inductive Stack (n : Nat) : Nat → List Token → List Group → Prop where
  | base : Stack n n [] []
  | push {m : Nat} {qs ts : List Token} {g : Group} {outer : List Group} :
      Stack n (m + 1) qs outer → Open (m + 1) ts g →
      Stack n m (qs ++ ts ++ [.openParen]) (g :: outer)

theorem Stack.add_length (h : Stack n m qs outer) : m + outer.length = n := by
  induction h with
  | base => rfl
  | push _ _ ih => rw [List.length_cons, ← ih]; omega

/-! ## Clauses -/

/-- Entries of a list, each with the comma after it. -/
inductive Listed : List Token → List String → Prop where
  | nil : Listed [] []
  | snoc {ts : List Token} {values : List String} {t : Token} :
      Listed ts values → t.isValue = true →
      Listed (ts ++ [t, .comma]) (values ++ [t.value])

theorem Listed.append {vs ws : List String} (h : Listed ts vs) (h' : Entries us ws) :
    Entries (ts ++ us) (vs ++ ws) := by
  induction h generalizing us ws with
  | nil => exact h'
  | snoc _ ht ih => simpa using ih (.cons ht h')

theorem Listed.entries {vs : List String} (h : Listed ts vs) : Entries ts vs := by
  simpa using h.append .nil

/-- Tokens of a run with `depth` parentheses open. -/
inductive Unclosed : Nat → List Token → Prop where
  | base {ts : List Token} : Balanced true ts → Unclosed 0 ts
  | push {depth : Nat} {ts us : List Token} :
      Unclosed depth ts → Balanced false us → Unclosed (depth + 1) (ts ++ .openParen :: us)

/-- A stretch that is balanced wherever it stands continues a run at any depth. -/
theorem Unclosed.append {depth : Nat} (h : Unclosed depth ts) (hu : ∀ top, Balanced top us) :
    Unclosed depth (ts ++ us) := by
  cases h with
  | base h => exact .base (h.append (hu true))
  | push h hb => simpa using Unclosed.push h (hb.append (hu false))

/-- A run goes on with any token but one that ends it. -/
theorem Unclosed.snoc {depth : Nat} {t : Token} (h : Unclosed depth ts)
    (ht : ¬ (depth = 0 ∧ endsValue t = true)) : Unclosed (depthAfter depth t) (ts ++ [t]) := by
  by_cases hopen : t = .openParen
  · subst hopen
    exact .push h .nil
  by_cases hclose : t = .closeParen
  · -- the innermost parenthesis closes: what it holds becomes a balanced stretch
    subst hclose
    cases h with
    | base => exact absurd ⟨rfl, rfl⟩ ht
    | push h hb => simpa [depthAfter] using h.append fun _ => Balanced.group hb .nil
  have hdepth : depthAfter depth t = depth := by
    cases t <;> first | rfl | exact absurd rfl hopen | exact absurd rfl hclose
  rw [hdepth]
  cases h with
  | base h =>
    have hends : endsValue t = false := by simpa using ht
    exact .base (h.append (.token hopen hclose (fun _ => (endsValue_eq_false_iff.1 hends).2) .nil))
  | push h hb => simpa using Unclosed.push h (hb.append (.token hopen hclose nofun .nil))

/-- Tokens of a factor that is not over, by what has to come next. -/
inductive Begun : Phase → List Token → Prop where
  | factor : Begun .factor []
  | operator {name : String} : Begun (.operator name) [.word name]
  | list {name : String} : Begun (.list name) [.word name, .inKw]
  | entry {name : String} {ts : List Token} {values : List String} :
      Listed ts values.reverse →
      Begun (.entry name values) (.word name :: .inKw :: .openParen :: ts)
  | separator {name : String} {ts : List Token} {t : Token} {values : List String} :
      Listed ts values.reverse → t.isValue = true →
      Begun (.separator name (t.value :: values))
        (.word name :: .inKw :: .openParen :: ts ++ [t])
  | value {name : String} {c : Comparison} {tokens : List Token} {depth : Nat} :
      Unclosed depth tokens.reverse →
      Begun (.value name c tokens depth) (.word name :: .comparison c :: tokens.reverse)

/-! ## Readers -/

/-- What the tokens that led to a reader are. -/
inductive Derived (n : Nat) : List Token → Reader → Prop where
  | begun {m : Nat} {qs ts us : List Token} {g : Group} {outer : List Group} {phase : Phase} :
      Stack n m qs outer → Open m ts g → Begun phase us →
      Derived n (qs ++ ts ++ us) ⟨g, outer, phase⟩
  | junction {m : Nat} {qs ts : List Token} {g : Group} {outer : List Group} :
      Stack n m qs outer → Full m ts g → Derived n (qs ++ ts) ⟨g, outer, .junction⟩

theorem Derived.start : Derived n [] start := .begun .base .start .factor

/-- A factor that is over makes its group full. -/
theorem Derived.addTerm {e : Expression} (hstack : Stack n m qs outer) (hopen : Open m ts g)
    (he : Factor m us e) : Derived n (qs ++ ts ++ us) ⟨g.addTerm e, outer, .junction⟩ := by
  rw [List.append_assoc]
  exact .junction hstack (hopen.addTerm he)

/-- A factor has to come next. -/
theorem Derived.factor (hstack : Stack n m qs outer) (hopen : Open m ts g) :
    Derived n (qs ++ ts) ⟨g, outer, .factor⟩ := by
  simpa using Derived.begun hstack hopen .factor

theorem Derived.joins {t : Token} {s : Reader} (h : Derived n ps ⟨g, outer, .junction⟩)
    (hj : Joins g outer t s) : Derived n (ps ++ [t]) s := by
  cases h with
  | begun _ _ hb => cases hb
  | junction hstack hfull =>
    rw [List.append_assoc]
    cases hj with
    | and => exact .factor hstack hfull.and
    | or => exact .factor hstack hfull.or
    | close =>
      cases hstack with
      | push hstack hopen =>
        -- the group closes, and is a factor of the group around it
        simpa using Derived.addTerm hstack hopen hfull.derives.parenthesised

/-- One step keeps what is known of the tokens, as long as the bound on the nesting holds. -/
theorem Derived.step {r s : Reader} {t : Token} (h : Derived n ps r) (hs : r.step t = .ok s)
    (hbound : s.outer.length ≤ n) : Derived n (ps ++ [t]) s := by
  obtain ⟨g, outer, phase⟩ := r
  have hstep := step_eq_ok_iff.1 hs
  cases h with
  | junction hstack hfull =>
    cases hstep with
    | junction hj => exact Derived.joins (.junction hstack hfull) hj
  | @begun m _ _ _ _ _ _ hstack hopen hbegun =>
    rw [List.append_assoc]
    cases hbegun with
    | factor =>
      cases hstep with
      | group =>
        -- what was read of the group goes onto the stack; the bound leaves room for one more
        have hlen := hstack.add_length
        have hroom : outer.length + 1 ≤ n := hbound
        obtain ⟨k, rfl⟩ : ∃ k, m = k + 1 := Nat.exists_eq_add_one.2 (by omega)
        simpa using Derived.factor (.push hstack hopen) .start
      | column => exact .begun hstack hopen .operator
    | operator =>
      cases hstep with
      | membership => exact .begun hstack hopen .list
      | comparison => exact .begun hstack hopen (.value (.base .nil))
    | list =>
      cases hstep with
      | list => exact .begun hstack hopen (.entry .nil)
    | entry hlisted =>
      cases hstep with
      | entry ht => exact .begun hstack hopen (.separator hlisted ht)
      | entryClose =>
        simpa using Derived.addTerm hstack hopen (.oneOf hlisted.entries)
    | separator hlisted ht =>
      cases hstep with
      | comma =>
        have hmore := hlisted.snoc ht
        rw [← List.reverse_cons] at hmore
        simpa using Derived.begun hstack hopen (.entry hmore)
      | separatorClose =>
        have hentries := hlisted.append (.last ht)
        rw [← List.reverse_cons] at hentries
        simpa using Derived.addTerm hstack hopen (.oneOf hentries)
    | value hunclosed =>
      cases hstep with
      | value ht =>
        have hmore := hunclosed.snoc ht
        rw [← List.reverse_cons] at hmore
        simpa using Derived.begun hstack hopen (.value hmore)
      | valueEnd htokens hj =>
        -- the clause is over before the token that ended its run joins
        cases hunclosed with
        | base hb =>
          have hrun : IsRun _ := ⟨by simpa using htokens, hb⟩
          have hnext := (Derived.addTerm hstack hopen (.comparison hrun)).joins hj
          simpa using hnext

/-- At the end of the input the tokens are a condition. -/
theorem Derived.finish {r : Reader} {e : Expression} (h : Derived n ps r)
    (he : r.finish = .ok e) : Derives n ps e := by
  have hjunction : ∀ {qs : List Token} {g : Group} {outer : List Group},
      Derived n qs ⟨g, outer, .junction⟩ → finishJunction ⟨g, outer, .junction⟩ = .ok e →
      Derives n qs e := by
    intro qs g outer h he
    cases h with
    | begun _ _ hb => cases hb
    | junction hstack hfull =>
      cases hstack with
      | base =>
        cases he
        exact hfull.derives
      | push => cases he
  cases h with
  | junction hstack hfull => exact hjunction (.junction hstack hfull) he
  | begun hstack hopen hbegun =>
    -- of all the factors that are begun only a comparison can be over as it stands
    cases hbegun with
    | @value name c tokens depth hunclosed =>
      simp only [Reader.finish] at he
      split at he
      · cases he
      · next hdepth =>
        split at he
        · cases he
        · next htokens =>
          obtain rfl : depth = 0 := by simpa using hdepth
          cases hunclosed with
          | base hb =>
            have hrun : IsRun tokens.reverse := ⟨by simpa using htokens, hb⟩
            exact hjunction (.addTerm hstack hopen (.comparison hrun)) he
    | _ => cases he

/-! ## Runs -/

theorem length_outer_le_of_step {r s : Reader} {t : Token} (h : r.outer.length ≤ maxDepth)
    (hs : r.step t = .ok s) : s.outer.length ≤ maxDepth := by
  obtain ⟨g, outer, phase⟩ := r
  have hjoins : ∀ {g : Group}, Joins g outer t s → s.outer.length ≤ maxDepth := by
    intro g hj
    cases hj with
    | close => exact Nat.le_of_succ_le h
    | _ => exact h
  cases step_eq_ok_iff.1 hs with
  | group hroom => exact hroom
  | valueEnd _ hj => exact hjoins hj
  | junction hj => exact hjoins hj
  | _ => exact h

/-- Reading never has more groups open than are allowed. -/
theorem deepest_le {r : Reader} (h : r.outer.length ≤ maxDepth) (ts : List Token) :
    r.deepest ts ≤ maxDepth := by
  induction ts generalizing r with
  | nil => exact h
  | cons t ts ih =>
    rw [deepest]
    split
    · next s hs => exact Nat.max_le.2 ⟨h, ih (length_outer_le_of_step h hs)⟩
    · exact h

/-- Many steps keep what is known of the tokens, as long as the bound on the nesting holds. -/
theorem Derived.reads {r s : Reader} (h : Derived n ps r) (hr : Reads r us s)
    (hbound : r.deepest us ≤ n) : Derived n (ps ++ us) s := by
  induction hr generalizing ps with
  | nil => simpa using h
  | @cons r s u t ts hs _ ih =>
    rw [deepest, hs] at hbound
    have hrest : s.deepest ts ≤ n := Nat.le_trans (Nat.le_max_right _ _) hbound
    have hstep := h.step hs (Nat.le_trans (length_outer_le_deepest s ts) hrest)
    simpa using ih hstep hrest

end Reader

/-- What is read with no more than `n` groups open at once is derived with that nesting. -/
theorem Grammar.Derives.of_ofTokens_within {n : Nat} {ts : List Token} {e : Expression}
    (h : Expression.ofTokens ts = .ok e) (hbound : Reader.start.deepest ts ≤ n) :
    Grammar.Derives n ts e := by
  obtain ⟨s, hs, he⟩ := Reader.run_eq_ok_iff.1 h
  have hderived := Reader.Derived.start.reads hs hbound
  exact hderived.finish he

/-- What is read is derived. -/
theorem Grammar.Derives.of_ofTokens {ts : List Token} {e : Expression}
    (h : Expression.ofTokens ts = .ok e) : Grammar.Derives maxDepth ts e :=
  .of_ofTokens_within h (Reader.deepest_le (Nat.zero_le _) ts)

end DecisionTable
