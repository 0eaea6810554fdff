import DecisionTable.Condition.Grammar
import DecisionTable.Proofs.Condition.Steps

/-!
# What can be derived is read

A derivation says which steps a reader takes: `Alternatives.reads`, `Factors.reads` and
`Factor.reads` follow its rules. A comparison is over only when the token after its run is
seen, so the reader is then not at a junction yet but acts as if it were (`Reader.Settled`).
-/

namespace DecisionTable

namespace Reader

open Grammar

/-! ## After a clause -/

/-- The reader acts on whatever may follow a clause as it would at a junction. -/
structure Settled (r : Reader) (g : Group) (outer : List Group) : Prop where
  step_eq : ∀ t, endsValue t = true → r.step t = stepJunction ⟨g, outer, .junction⟩ t
  finish_eq : r.finish = finishJunction ⟨g, outer, .junction⟩

variable {g h : Group} {outer : List Group} {r : Reader} {ts : List Token}

theorem settled_junction : Settled ⟨g, outer, .junction⟩ g outer :=
  ⟨fun _ _ => rfl, rfl⟩

theorem settled_value {name : String} {c : Comparison} {tokens : List Token} (h : tokens ≠ []) :
    Settled ⟨g, outer, .value name c tokens 0⟩
      (g.addTerm (.clause (.ofComparison name c tokens.reverse))) outer where
  step_eq := by
    intro t ht
    simp only [step, ht, and_self, if_true, if_neg h]
    rfl
  finish_eq := by
    simp only [finish, ne_eq, not_true_eq_false, if_false, if_neg h]
    rfl

theorem Settled.and (h : Settled r g outer) : r.step .andKw = .ok ⟨g, outer, .factor⟩ :=
  h.step_eq .andKw rfl

theorem Settled.or (h : Settled r g outer) :
    r.step .orKw = .ok ⟨g.endAlternative, outer, .factor⟩ := h.step_eq .orKw rfl

theorem Settled.close (hr : Settled r g (h :: outer)) :
    r.step .closeParen = .ok ⟨h.addTerm g.close, outer, .junction⟩ := hr.step_eq .closeParen rfl

/-! ## Clauses -/

/-- A list is read entry by entry, through its closing parenthesis. -/
theorem reads_entries {name : String} {ws : List String} (h : Entries ts ws)
    (values : List String) :
    Reads ⟨g, outer, .entry name values⟩ (ts ++ [.closeParen])
      ⟨g.addTerm (.clause (.on name .oneOf (values.reverse ++ ws))), outer, .junction⟩ := by
  induction h generalizing values with
  | nil =>
    rw [List.append_nil]
    exact .single (step_eq_ok_iff.2 .entryClose)
  | @last t ht =>
    rw [← List.reverse_cons]
    exact .cons (step_eq_ok_iff.2 (.entry ht)) (.single (step_eq_ok_iff.2 .separatorClose))
  | @cons t ts ws ht _ ih =>
    have hrest := ih (t.value :: values)
    rw [List.reverse_cons, List.append_assoc] at hrest
    exact .cons (step_eq_ok_iff.2 (.entry ht)) (.cons (step_eq_ok_iff.2 .comma) hrest)

/-- Balanced tokens are read as part of a value, and leave as many parentheses open as there
were. Where the keywords that part values may occur, at least one is open. -/
theorem reads_balanced {name : String} {c : Comparison} {top : Bool} (h : Balanced top ts)
    (tokens : List Token) {depth : Nat} (hdepth : top = false → 0 < depth) :
    Reads ⟨g, outer, .value name c tokens depth⟩ ts
      ⟨g, outer, .value name c (ts.reverse ++ tokens) depth⟩ := by
  induction h generalizing tokens depth with
  | nil => exact .nil
  | @token top t ts hopen hclose hparts _ ih =>
    -- with no parenthesis open the keywords that end a value are excluded
    have hstay : ¬ (depth = 0 ∧ endsValue t = true) := by
      rintro ⟨rfl, hends⟩
      have htop : top = true := Bool.not_eq_false _ ▸ fun ht => Nat.lt_irrefl 0 (hdepth ht)
      cases t <;> simp_all [endsValue, PartsValues]
    have hsame : depthAfter depth t = depth := by
      cases t <;> first | rfl | exact absurd rfl hopen | exact absurd rfl hclose
    have hstep : step ⟨g, outer, .value name c tokens depth⟩ t =
        .ok ⟨g, outer, .value name c (t :: tokens) (depthAfter depth t)⟩ :=
      step_eq_ok_iff.2 (.value hstay)
    rw [hsame] at hstep
    simpa using Reads.cons hstep (ih (t :: tokens) hdepth)
  | @group top ts us _ _ ihin ihout =>
    have hopen : Reads ⟨g, outer, .value name c tokens depth⟩ [.openParen]
        ⟨g, outer, .value name c (.openParen :: tokens) (depth + 1)⟩ :=
      .single (step_eq_ok_iff.2 (.value (by simp [endsValue])))
    -- inside a parenthesis is open, whatever holds outside
    have hin := ihin (.openParen :: tokens) fun _ => Nat.succ_pos depth
    have hclose : Reads
        ⟨g, outer, .value name c (ts.reverse ++ .openParen :: tokens) (depth + 1)⟩ [.closeParen]
        ⟨g, outer, .value name c (.closeParen :: (ts.reverse ++ .openParen :: tokens)) depth⟩ :=
      .single (step_eq_ok_iff.2 (.value (by simp)))
    have hout := ihout (.closeParen :: (ts.reverse ++ .openParen :: tokens)) hdepth
    simpa using (hopen.append hin).append (hclose.append hout)

/-- A comparison with a run leaves a reader that is done with the clause. -/
theorem reads_comparison {name : String} {c : Comparison} (h : IsRun ts) :
    ∃ r, Reads ⟨g, outer, .factor⟩ (.word name :: .comparison c :: ts) r ∧
      Settled r (g.addTerm (.clause (.ofComparison name c ts))) outer := by
  refine ⟨⟨g, outer, .value name c (ts.reverse ++ []) 0⟩, ?_, ?_⟩
  · exact .cons (step_eq_ok_iff.2 .column) (.cons (step_eq_ok_iff.2 .comparison)
      (reads_balanced h.2 [] nofun))
  · have hsettled : Settled ⟨g, outer, .value name c ts.reverse 0⟩ _ outer :=
      settled_value (by simpa using h.1)
    simpa using hsettled

end Reader

namespace Grammar

open Reader

/-! ## Conditions -/

/-- The tree of a chain is what a reader makes out of its terms. -/
theorem Chain.eq_chain {node : List Expression → Expression} {es : List Expression}
    {e : Expression} (h : Chain node es e) : e = chain node es := by
  cases h <;> rfl

mutual

/-- Alternatives are read into a group that has no terms yet. -/
theorem Alternatives.reads {n : Nat} {ts : List Token} {es : List Expression} :
    Alternatives n ts es → ∀ (alternatives : List Expression) (outer : List Group),
      outer.length + n ≤ maxDepth →
      ∃ r h, Reads ⟨⟨alternatives, []⟩, outer, .factor⟩ ts r ∧ Settled r h outer ∧
        h.endAlternative.alternatives = es.reverse ++ alternatives
  | .single hs he, alternatives, outer, hroom => by
    obtain ⟨r, hr, hsettled⟩ := hs.reads ⟨alternatives, []⟩ outer hroom
    exact ⟨r, _, hr, hsettled, by simp [Group.endAlternative, he.eq_chain]⟩
  | .cons hs he hrest, alternatives, outer, hroom => by
    obtain ⟨r, hr, hsettled⟩ := hs.reads ⟨alternatives, []⟩ outer hroom
    obtain ⟨u, h, hu, husettled, halternatives⟩ := hrest.reads _ outer hroom
    refine ⟨u, h, hr.append (.cons hsettled.or hu), husettled, ?_⟩
    rw [halternatives]
    simp [he.eq_chain]

/-- Factors are read as further terms of a group. -/
theorem Factors.reads {n : Nat} {ts : List Token} {es : List Expression} :
    Factors n ts es → ∀ (g : Group) (outer : List Group), outer.length + n ≤ maxDepth →
      ∃ r, Reads ⟨g, outer, .factor⟩ ts r ∧
        Settled r ⟨g.alternatives, es.reverse ++ g.terms⟩ outer
  | .single hf, g, outer, hroom => hf.reads g outer hroom
  | .cons hf hrest, g, outer, hroom => by
    obtain ⟨r, hr, hsettled⟩ := hf.reads g outer hroom
    obtain ⟨u, hu, husettled⟩ := hrest.reads _ outer hroom
    refine ⟨u, hr.append (.cons hsettled.and hu), ?_⟩
    simpa [Group.addTerm] using husettled

/-- A factor is read as one more term of a group. -/
theorem Factor.reads {n : Nat} {ts : List Token} {e : Expression} :
    Factor n ts e → ∀ (g : Group) (outer : List Group), outer.length + n ≤ maxDepth →
      ∃ r, Reads ⟨g, outer, .factor⟩ ts r ∧ Settled r (g.addTerm e) outer
  | .group hs he, g, outer, hroom => by
    have hlen : (g :: outer).length = outer.length + 1 := List.length_cons
    obtain ⟨r, h, hr, hsettled, hes⟩ := hs.reads [] (g :: outer) (by omega)
    have hopen : step ⟨g, outer, .factor⟩ .openParen = .ok ⟨.empty, g :: outer, .factor⟩ :=
      step_eq_ok_iff.2 (.group (by omega))
    refine ⟨_, .cons hopen (hr.append (.single hsettled.close)), ?_⟩
    rw [Group.close, hes, List.append_nil, List.reverse_reverse, ← he.eq_chain]
    exact settled_junction
  | .oneOf hentries, g, outer, _ => by
    refine ⟨_, ?_, settled_junction⟩
    exact .cons (step_eq_ok_iff.2 .column) (.cons (step_eq_ok_iff.2 .membership)
      (.cons (step_eq_ok_iff.2 .list) (reads_entries hentries [])))
  | .equation h, _, _, _ => reads_comparison h
  | .joined h hlen, _, _, _ => by
    rw [← Clause.ofComparison_equal hlen]
    exact reads_comparison h
  | .tagged hc h, _, _, _ => by
    rw [← Clause.ofComparison_of_ne hc]
    exact reads_comparison h

end

/-- What can be derived is read. -/
theorem Derives.ofTokens {ts : List Token} {e : Expression} (h : Derives maxDepth ts e) :
    Expression.ofTokens ts = .ok e := by
  obtain ⟨es, hes, he⟩ := h
  obtain ⟨r, g, hr, hsettled, hclose⟩ := hes.reads [] [] (Nat.le_of_eq (Nat.zero_add _))
  refine run_eq_ok_iff.2 ⟨r, hr, ?_⟩
  rw [hsettled.finish_eq]
  simp [finishJunction, Group.close, hclose, he.eq_chain]

end Grammar

end DecisionTable
