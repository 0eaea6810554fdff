import Mathlib.Logic.Relation
import DecisionTable.Proofs.Expansion.NormalForm

/-!
# Regrouping conditions

Parentheses around a part of a chain make no difference to the rows of a condition, nor does it
make one whether a conjunction that begins with a disjunction is written out term by term
(`Expression.rows_regrouped`). All of this holds of the choices of a condition already, where a
conjunction joins lists of choices and joining is associative (`Choice.joins_assoc`): what happens
to columns with two values need not be looked at.
-/

namespace DecisionTable

/-! ## Joining choices -/

namespace Choice

/-- The choices that put one choice of each list one after the other. -/
def joins (as bs : List Choice) : List Choice := as.flatMap fun a => bs.map (a ++ ·)

variable (as bs cs : List Choice)

@[simp] theorem joins_nil_left : joins [] bs = [] := rfl

theorem joins_cons_left (a : Choice) : joins (a :: as) bs = bs.map (a ++ ·) ++ joins as bs :=
  List.flatMap_cons

theorem joins_append_left : joins (as ++ bs) cs = joins as cs ++ joins bs cs :=
  List.flatMap_append

@[simp] theorem joins_unit_left : joins [[]] bs = bs := by
  rw [joins_cons_left, joins_nil_left, List.append_nil]
  exact List.map_id' bs

@[simp] theorem joins_unit_right : joins as [[]] = as := by
  induction as with
  | nil => rfl
  | cons a as ih => rw [joins_cons_left, ih, List.map_singleton, List.append_nil,
      List.singleton_append]

theorem joins_map_append (a : Choice) :
    joins (bs.map (a ++ ·)) cs = (joins bs cs).map (a ++ ·) := by
  induction bs with
  | nil => rfl
  | cons b bs ih =>
    rw [List.map_cons, joins_cons_left, ih, joins_cons_left, List.map_append, List.map_map]
    congr 1
    exact List.map_congr_left fun c _ => List.append_assoc a b c

theorem joins_assoc : joins (joins as bs) cs = joins as (joins bs cs) := by
  induction as with
  | nil => rfl
  | cons a as ih =>
    rw [joins_cons_left, joins_append_left, ih, joins_map_append, joins_cons_left]

end Choice

namespace Expression

open Choice

/-! ## Choices of chains -/

@[simp] theorem choicesOfAll_nil : choicesOfAll [] = [[]] := by rw [choicesOfAll]

theorem choicesOfAll_cons (t : Expression) (ts : List Expression) :
    choicesOfAll (t :: ts) = joins t.choices (choicesOfAll ts) := by rw [choicesOfAll, joins]

theorem choicesOfAll_append (ts us : List Expression) :
    choicesOfAll (ts ++ us) = joins (choicesOfAll ts) (choicesOfAll us) := by
  induction ts with
  | nil => simp
  | cons t ts ih => rw [List.cons_append, choicesOfAll_cons, choicesOfAll_cons, ih, joins_assoc]

theorem choices_all_of_ne_nil {ts : List Expression} (h : ts ≠ []) :
    choices (all ts) = choicesOfAll ts := by
  obtain ⟨t, ts, rfl⟩ := List.exists_cons_of_ne_nil h
  exact choices_all_cons t ts

/-- A term of a conjunction takes part with its choices, in its place. -/
theorem choices_all_insert (before after : List Expression) (e : Expression) :
    choices (all (before ++ e :: after)) =
      joins (choicesOfAll before) (joins e.choices (choicesOfAll after)) := by
  rw [choices_all_of_ne_nil (by simp), choicesOfAll_append, choicesOfAll_cons]

/-- A term of a disjunction takes part with its choices, in its place. -/
theorem choices_any_insert (before after : List Expression) (e : Expression) :
    choices (any (before ++ e :: after)) =
      before.flatMap choices ++ (e.choices ++ after.flatMap choices) := by
  rw [choices_any, List.flatMap_append, List.flatMap_cons]

/-! ## Rules at any node -/

/-- One use of a rule, at a condition as a whole or at a node within it. -/
inductive Within (rule : Expression → Expression → Prop) : Expression → Expression → Prop where
  | root {e f : Expression} : rule e f → Within rule e f
  | all {e f : Expression} (before after : List Expression) :
      Within rule e f → Within rule (all (before ++ e :: after)) (all (before ++ f :: after))
  | any {e f : Expression} (before after : List Expression) :
      Within rule e f → Within rule (any (before ++ e :: after)) (any (before ++ f :: after))

/-- What a rule keeps, and every node passes on from its terms, is kept by the rule at any node and
in either direction. -/
theorem eq_of_eqvGen_within {α : Type} {value : Expression → α}
    {rule : Expression → Expression → Prop} {e f : Expression}
    (h : Relation.EqvGen (Within rule) e f) (hrule : ∀ e f, rule e f → value e = value f)
    (hall : ∀ before after e f, value e = value f →
      value (.all (before ++ e :: after)) = value (.all (before ++ f :: after)))
    (hany : ∀ before after e f, value e = value f →
      value (.any (before ++ e :: after)) = value (.any (before ++ f :: after))) :
    value e = value f := by
  induction h with
  | rel _ _ h =>
    induction h with
    | root h => exact hrule _ _ h
    | all before after _ ih => exact hall before after _ _ ih
    | any before after _ ih => exact hany before after _ _ ih
  | refl => rfl
  | symm _ _ _ ih => exact ih.symm
  | trans _ _ _ _ _ ih₁ ih₂ => exact ih₁.trans ih₂

/-- Taking parentheses away: the terms of a conjunction within a conjunction, or of a disjunction
within a disjunction, become terms of the node around it, and a conjunction that begins with a
disjunction becomes a disjunction of conjunctions. -/
inductive Regroups : Expression → Expression → Prop where
  | all (before ts after : List Expression) :
      ts ≠ [] → Regroups (all (before ++ all ts :: after)) (all (before ++ ts ++ after))
  | any (before ts after : List Expression) :
      Regroups (any (before ++ any ts :: after)) (any (before ++ ts ++ after))
  | distribute (ts after : List Expression) :
      Regroups (all (any ts :: after)) (any (ts.map fun t => all (t :: after)))

theorem Regroups.choices_eq {e f : Expression} (h : Regroups e f) : e.choices = f.choices := by
  cases h with
  | all before ts after hts =>
    rw [choices_all_insert, choices_all_of_ne_nil hts, choices_all_of_ne_nil (by simp [hts]),
      choicesOfAll_append, choicesOfAll_append, joins_assoc]
  | any before ts after =>
    rw [choices_any_insert, choices_any, choices_any, List.append_assoc, List.flatMap_append,
      List.flatMap_append]
  | distribute ts after =>
    rw [choices_all_cons, choicesOfAll_cons, choices_any, choices_any]
    induction ts with
    | nil => rfl
    | cons t ts ih =>
      rw [List.flatMap_cons, joins_append_left, ih, List.map_cons, List.flatMap_cons,
        choices_all_cons, choicesOfAll_cons]

/-- Conditions that differ by regrouping only, anywhere and in either direction, have the same
choices. -/
theorem choices_eq_of_regrouped {e f : Expression} (h : Relation.EqvGen (Within Regroups) e f) :
    e.choices = f.choices := by
  refine eq_of_eqvGen_within h (fun _ _ => Regroups.choices_eq) (fun before after e f hef => ?_)
    fun before after e f hef => ?_
  · rw [choices_all_insert, choices_all_insert, hef]
  · rw [choices_any_insert, choices_any_insert, hef]

/-! ## Binary chains -/

/-- A chain written with two terms in each node, the first two innermost. -/
def nestedLeft (node : List Expression → Expression) (e : Expression) (ts : List Expression) :
    Expression := ts.foldl (fun e t => node [e, t]) e

/-- A chain written with two terms in each node, the last two innermost. -/
def nestedRight (node : List Expression → Expression) (e : Expression) :
    List Expression → Expression
  | [] => e
  | t :: ts => node [e, nestedRight node t ts]

theorem choices_nestedLeft_all (e : Expression) (ts : List Expression) :
    (nestedLeft all e ts).choices = choicesOfAll (e :: ts) := by
  induction ts generalizing e with
  | nil => rw [choicesOfAll_cons, choicesOfAll_nil, joins_unit_right]; rfl
  | cons t ts ih =>
    have hstep : nestedLeft all e (t :: ts) = nestedLeft all (all [e, t]) ts := rfl
    rw [hstep, ih, choicesOfAll_cons, choices_all_cons, ← choicesOfAll_append]
    rfl

theorem choices_nestedRight_all (e : Expression) (ts : List Expression) :
    (nestedRight all e ts).choices = choicesOfAll (e :: ts) := by
  induction ts generalizing e with
  | nil => rw [choicesOfAll_cons, choicesOfAll_nil, joins_unit_right]; rfl
  | cons t ts ih =>
    rw [nestedRight, choices_all_cons, choicesOfAll_cons e,
      choicesOfAll_cons (nestedRight all t ts), choicesOfAll_nil, joins_unit_right, ih,
      choicesOfAll_cons e]

theorem choices_nestedLeft_any (e : Expression) (ts : List Expression) :
    (nestedLeft any e ts).choices = e.choices ++ ts.flatMap choices := by
  induction ts generalizing e with
  | nil => exact (List.append_nil _).symm
  | cons t ts ih =>
    have hstep : nestedLeft any e (t :: ts) = nestedLeft any (any [e, t]) ts := rfl
    rw [hstep, ih, choices_any, List.flatMap_cons, List.flatMap_cons, List.flatMap_nil,
      List.flatMap_cons, List.append_nil, List.append_assoc]

theorem choices_nestedRight_any (e : Expression) (ts : List Expression) :
    (nestedRight any e ts).choices = e.choices ++ ts.flatMap choices := by
  induction ts generalizing e with
  | nil => exact (List.append_nil _).symm
  | cons t ts ih =>
    rw [nestedRight, choices_any, List.flatMap_cons, List.flatMap_cons, ih, List.flatMap_nil,
      List.append_nil, List.flatMap_cons]

/-! ## Rows -/

theorem rows_eq_of_choices_eq {e f : Expression} (h : e.choices = f.choices) : e.rows = f.rows := by
  rw [rows_eq_filterMap_row?, rows_eq_filterMap_row?, h]

/-- Conditions that differ by regrouping only, anywhere and in either direction, have the same
rows in the same order. In particular a chain has the rows of the binary chains that are nested to
the left and to the right. -/
theorem rows_regrouped :
    (∀ e f, Relation.EqvGen (Within Regroups) e f → e.rows = f.rows) ∧
      ∀ e ts, rows (all (e :: ts)) = rows (nestedLeft all e ts) ∧
        rows (all (e :: ts)) = rows (nestedRight all e ts) ∧
        rows (any (e :: ts)) = rows (nestedLeft any e ts) ∧
        rows (any (e :: ts)) = rows (nestedRight any e ts) := by
  refine ⟨fun e f h => rows_eq_of_choices_eq (choices_eq_of_regrouped h), fun e ts => ?_⟩
  have hall : choices (all (e :: ts)) = choicesOfAll (e :: ts) := choices_all_cons e ts
  have hany : choices (any (e :: ts)) = e.choices ++ ts.flatMap choices := by
    rw [choices_any, List.flatMap_cons]
  refine ⟨?_, ?_, ?_, ?_⟩
  · exact rows_eq_of_choices_eq (hall.trans (choices_nestedLeft_all e ts).symm)
  · exact rows_eq_of_choices_eq (hall.trans (choices_nestedRight_all e ts).symm)
  · exact rows_eq_of_choices_eq (hany.trans (choices_nestedLeft_any e ts).symm)
  · exact rows_eq_of_choices_eq (hany.trans (choices_nestedRight_any e ts).symm)

/-- Within an alternative a conjunction, then a disjunction is taken apart, then the conjunction is
written out; one of its choices gives a column two values. -/
theorem rows_regrouped_nested :
    let p := clause ⟨"a", .equal, ["1"]⟩
    let q := clause ⟨"b", .oneOf, ["1", "2"]⟩
    let r := clause ⟨"b", .equal, ["2"]⟩
    let e := any [all [all [any [p, any [q, r]], r], q], p]
    let f := any [any [all [p, r, q], all [q, r, q], all [r, r, q]], p]
    Relation.EqvGen (Within Regroups) e f ∧ e.rows = f.rows ∧ f.rows.map OrderedMap.entries =
      [[("a", "1"), ("b", "2")], [("b", "2")], [("b", "2")], [("a", "1")]] := by
  intro p q r e f
  have hterm : Within Regroups e (any [all [any [p, any [q, r]], r, q], p]) :=
    .any [] [p] (.root (.all [] [any [p, any [q, r]], r] [q] nofun))
  have hnested : Within Regroups (any [all [any [p, any [q, r]], r, q], p])
      (any [all [any [p, q, r], r, q], p]) :=
    .any [] [p] (.all [] [r, q] (.root (.any [p] [q, r] [])))
  have hwritten : Within Regroups (any [all [any [p, q, r], r, q], p]) f :=
    .any [] [p] (.root (.distribute [p, q, r] [r, q]))
  have hregrouped : Relation.EqvGen (Within Regroups) e f :=
    .trans _ _ _ (.rel _ _ hterm) (.trans _ _ _ (.rel _ _ hnested) (.rel _ _ hwritten))
  exact ⟨hregrouped, rows_regrouped.1 e f hregrouped, by decide +kernel⟩

end Expression

end DecisionTable
