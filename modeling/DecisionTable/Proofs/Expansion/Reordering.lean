import Mathlib.Data.List.Forall2
import Mathlib.Data.List.Perm.Basic
import Mathlib.Data.Multiset.Bind
import DecisionTable.Proofs.Expansion.Regrouping
import DecisionTable.Proofs.Row.Merging

/-!
# Reordering conditions

The order in which the terms of a condition are written decides the order of its rows and of the
columns in a row, and nothing else: conditions that differ by the order of terms, or by writing out
a conjunction over a disjunction at any place, have the same rows up to that order, each as often
(`Expression.rows_reordered`). With the order among and within the choices forgotten a disjunction
adds up what its terms have and a conjunction multiplies it (`Expression.bags`), and both laws are
those of addition and multiplication; whether a choice gives a column two values does not depend on
its order either (`Choice.row?_of_perm`).
-/

namespace DecisionTable

namespace Choice

/-! ## The row of a choice, whatever its order -/

variable {a b : Choice}

theorem consistent_of_perm (h : a.Perm b) (ha : a.consistent = true) : b.consistent = true := by
  rw [consistent_iff] at ha ⊢
  intro k v w hv hw
  exact ha k v w (h.mem_iff.2 hv) (h.mem_iff.2 hw)

theorem pairs_perm (h : a.Perm b) : a.pairs.Perm b.pairs := by
  refine (List.perm_ext_iff_of_nodup (nodup_eraseDups a) (nodup_eraseDups b)).2 fun e => ?_
  rw [List.mem_eraseDups, List.mem_eraseDups, h.mem_iff]

/-- Choices that differ in their order have the same assignment as their row, or none. -/
theorem row?_of_perm (h : a.Perm b) :
    Option.Rel (fun r s : Row => r.sameEntries s = true) a.row? b.row? := by
  cases ha : a.row? with
  | none =>
    have hb : b.row? = none := by
      rw [row?_eq_none_iff, ← Bool.not_eq_true] at ha ⊢
      exact fun hb => ha (consistent_of_perm h.symm hb)
    rw [hb]
    exact .none
  | some r =>
    obtain ⟨hcons, hr⟩ := row?_eq_some_iff.1 ha
    have hb : b.row? = some ⟨b.pairs, nodup_fst_pairs (consistent_of_perm h hcons)⟩ :=
      row?_eq_some_iff.2 ⟨consistent_of_perm h hcons, rfl⟩
    rw [hb]
    refine .some (OrderedMap.sameEntries_of_perm ?_)
    rw [hr]
    exact pairs_perm h

/-! ## Bags of choices -/

/-- Choices with no order among them or within them. -/
def bags (cs : List Choice) : Multiset (Multiset (String × String)) :=
  Multiset.ofList (cs.map Multiset.ofList)

/-- The sums of one bag of each. -/
def times (s t : Multiset (Multiset (String × String))) : Multiset (Multiset (String × String)) :=
  s.bind fun a => t.map (a + ·)

variable (as bs : List Choice)

theorem bags_of_perm (h : as.Perm bs) : bags as = bags bs := Multiset.coe_eq_coe.2 (h.map _)

theorem bags_append : bags (as ++ bs) = bags as + bags bs := by
  rw [bags, List.map_append, ← Multiset.coe_add]
  rfl

theorem bags_joins : bags (joins as bs) = times (bags as) (bags bs) := by
  induction as with
  | nil => rfl
  | cons a as ih =>
    have hhead : bags (bs.map (a ++ ·)) = (bags bs).map (Multiset.ofList a + ·) := by
      rw [bags, bags, Multiset.map_coe, List.map_map, List.map_map]
      exact congrArg _ (List.map_congr_left fun b _ => (Multiset.coe_add a b).symm)
    have hcons : bags (a :: as) = Multiset.ofList a ::ₘ bags as := rfl
    rw [joins_cons_left, bags_append, hhead, ih, hcons]
    exact (Multiset.cons_bind _ _ _).symm

variable (s t u : Multiset (Multiset (String × String)))

theorem times_left_comm : times s (times t u) = times t (times s u) := by
  simp only [times, Multiset.map_bind, Multiset.map_map, Function.comp_def]
  -- both sides go through all pairs of bags, in another order
  rw [Multiset.bind_bind]
  simp only [add_left_comm]

theorem times_add : times s (t + u) = times s t + times s u := by
  simp only [times, Multiset.map_add, Multiset.bind_add]

theorem add_times : times (s + t) u = times s u + times t u := Multiset.add_bind s t _

theorem times_zero : times s 0 = 0 := Multiset.bind_zero s

theorem zero_times : times 0 s = 0 := Multiset.zero_bind _

end Choice

namespace Expression

open Choice

/-! ## Bags of conditions -/

/-- The choices of a condition with no order among them or within them. -/
def bags (e : Expression) : Multiset (Multiset (String × String)) := Choice.bags e.choices

theorem bags_all_insert (before after : List Expression) (e : Expression) :
    bags (all (before ++ e :: after)) =
      times (Choice.bags (choicesOfAll before))
        (times e.bags (Choice.bags (choicesOfAll after))) := by
  rw [bags, choices_all_insert, bags_joins, bags_joins]
  rfl

theorem bags_any_insert (before after : List Expression) (e : Expression) :
    bags (any (before ++ e :: after)) =
      Choice.bags (before.flatMap choices) + (e.bags + Choice.bags (after.flatMap choices)) := by
  rw [bags, choices_any_insert, bags_append, bags_append]
  rfl

theorem bags_any_cons (t : Expression) (ts : List Expression) :
    bags (any (t :: ts)) = t.bags + bags (any ts) := by
  rw [bags, choices_any, List.flatMap_cons, bags_append, ← choices_any]
  rfl

/-- The order of the terms of a conjunction makes no difference to its bags. -/
theorem bags_choicesOfAll_of_perm {ts us : List Expression} (h : ts.Perm us) :
    Choice.bags (choicesOfAll ts) = Choice.bags (choicesOfAll us) := by
  induction h with
  | nil => rfl
  | cons t _ ih => rw [choicesOfAll_cons, choicesOfAll_cons, bags_joins, bags_joins, ih]
  | swap t u ts =>
    simp only [choicesOfAll_cons, bags_joins]
    exact times_left_comm _ _ _
  | trans _ _ ih₁ ih₂ => exact ih₁.trans ih₂

/-! ## Rules that change the order -/

/-- Writing the terms of a node in another order, or writing out a conjunction over one of its
terms that is a disjunction. -/
inductive Reorders : Expression → Expression → Prop where
  | all {ts us : List Expression} : ts.Perm us → Reorders (all ts) (all us)
  | any {ts us : List Expression} : ts.Perm us → Reorders (any ts) (any us)
  | distribute (before ts after : List Expression) :
      Reorders (all (before ++ any ts :: after)) (any (ts.map fun t => all (before ++ t :: after)))

theorem Reorders.bags_eq {e f : Expression} (h : Reorders e f) : e.bags = f.bags := by
  cases h with
  | @all ts us h =>
    -- a conjunction of nothing has no choices, so it is not what `choicesOfAll` gives
    by_cases hts : ts = []
    · subst hts
      rw [List.nil_perm.1 h]
    · have hus : us ≠ [] := fun hus => hts (List.perm_nil.1 (hus ▸ h))
      rw [bags, bags, choices_all_of_ne_nil hts, choices_all_of_ne_nil hus,
        bags_choicesOfAll_of_perm h]
  | any h =>
    rw [bags, bags, choices_any, choices_any]
    exact bags_of_perm _ _ (h.flatMap_right _)
  | distribute before ts after =>
    rw [bags_all_insert]
    induction ts with
    | nil =>
      have hnone : bags (.any []) = 0 := by rw [bags, choices_any]; rfl
      rw [List.map_nil, hnone, zero_times, times_zero]
    | cons t ts ih =>
      rw [List.map_cons, bags_any_cons, bags_any_cons, add_times, times_add, ih, bags_all_insert]

/-- Conditions that differ by the order of terms and by writing out conjunctions only have the same
bags. -/
theorem bags_eq_of_reordered {e f : Expression} (h : Relation.EqvGen (Within Reorders) e f) :
    e.bags = f.bags := by
  refine eq_of_eqvGen_within h (fun _ _ => Reorders.bags_eq) (fun before after e f hef => ?_)
    fun before after e f hef => ?_
  · rw [bags_all_insert, bags_all_insert, hef]
  · rw [bags_any_insert, bags_any_insert, hef]

/-! ## Rows -/

/-- Conditions with the same bags have the same choices up to their order. -/
theorem exists_choices_of_bags_eq {e f : Expression} (h : e.bags = f.bags) :
    ∃ cs, List.Forall₂ List.Perm e.choices cs ∧ cs.Perm f.choices := by
  have hperm : (e.choices.map Multiset.ofList).Perm (f.choices.map Multiset.ofList) :=
    Multiset.coe_eq_coe.1 h
  -- the permutation is of bags; the choices of `f` are brought into the order of those of `e`
  have hself : List.Forall₂ (fun m c => m = Multiset.ofList c) (f.choices.map Multiset.ofList)
      f.choices := List.forall₂_map_left_iff.2 (List.forall₂_same.2 fun _ _ => rfl)
  obtain ⟨cs, hcs, hf⟩ := List.perm_comp_forall₂ hperm hself
  exact ⟨cs, (List.forall₂_map_left_iff.1 hcs).imp fun _ _ => Multiset.coe_eq_coe.1, hf⟩

/-- Conditions that differ by the order of terms and by writing out conjunctions over disjunctions
only, anywhere and in either direction, have the same rows: the rows of the one, each as the same
assignment, are those of the other in another order. -/
theorem rows_reordered {e f : Expression} (h : Relation.EqvGen (Within Reorders) e f) :
    ∃ rows, List.Forall₂ (fun r s : Row => r.sameEntries s = true) e.rows rows ∧
      rows.Perm f.rows := by
  obtain ⟨cs, hcs, hf⟩ := exists_choices_of_bags_eq (bags_eq_of_reordered h)
  have hrow : Relator.LiftFun List.Perm (Option.Rel fun r s : Row => r.sameEntries s = true)
      Choice.row? Choice.row? := fun _ _ => Choice.row?_of_perm
  refine ⟨cs.filterMap Choice.row?, ?_, ?_⟩
  · rw [rows_eq_filterMap_row?]
    exact List.rel_filterMap hrow hcs
  · rw [rows_eq_filterMap_row?]
    exact hf.filterMap _

/-- A conjunction is written out over its second term, and then its terms change places. Written
that way the columns come in another order, and the rows do too. -/
theorem rows_reordered_swapped :
    let p := clause ⟨"a", .oneOf, ["1", "2"]⟩
    let q := clause ⟨"b", .equal, ["1"]⟩
    let r := clause ⟨"a", .equal, ["2"]⟩
    let e := all [p, any [q, r]]
    let f := any [all [r, p], all [q, p]]
    Relation.EqvGen (Within Reorders) e f ∧
      e.rows.map OrderedMap.entries =
        [[("a", "1"), ("b", "1")], [("a", "2"), ("b", "1")], [("a", "2")]] ∧
      f.rows.map OrderedMap.entries =
        [[("a", "2")], [("b", "1"), ("a", "1")], [("b", "1"), ("a", "2")]] ∧
      ∃ rows, List.Forall₂ (fun r s : Row => r.sameEntries s = true) e.rows rows ∧
        rows.Perm f.rows := by
  intro p q r e f
  have hwritten : Within Reorders e (any [all [p, q], all [p, r]]) :=
    .root (.distribute [p] [q, r] [])
  have hfirst : Within Reorders (any [all [p, q], all [p, r]]) (any [all [q, p], all [p, r]]) :=
    .any [] [all [p, r]] (.root (.all (.swap q p [])))
  have hsecond : Within Reorders (any [all [q, p], all [p, r]]) (any [all [q, p], all [r, p]]) :=
    .any [all [q, p]] [] (.root (.all (.swap r p [])))
  have hplaces : Within Reorders (any [all [q, p], all [r, p]]) f := .root (.any (.swap _ _ []))
  have hreordered : Relation.EqvGen (Within Reorders) e f :=
    .trans _ _ _ (.rel _ _ hwritten) (.trans _ _ _ (.rel _ _ hfirst)
      (.trans _ _ _ (.rel _ _ hsecond) (.rel _ _ hplaces)))
  exact ⟨hreordered, by decide +kernel, by decide +kernel, rows_reordered hreordered⟩

end Expression

end DecisionTable
