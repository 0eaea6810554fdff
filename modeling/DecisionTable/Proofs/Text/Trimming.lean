import Mathlib.Data.List.TakeWhile
import DecisionTable.Text.Blank

/-!
# What is left of a text without its ends

A text between characters of a class is what `strip` leaves, if it neither begins nor ends with
one of them (`strip_append`), and nothing else is (`strip_eq_iff`). Nothing is left of a text that
has no others (`strip_eq_nil_iff`).
-/

namespace DecisionTable.Text

variable {p : Char → Bool} {before mid after : List Char}

theorem stripRight_eq_nil_iff {cs : List Char} :
    stripRight p cs = [] ↔ ∀ c ∈ cs, p c = true := by
  rw [stripRight, List.reverse_eq_nil_iff, List.dropWhile_eq_nil_iff]
  simp only [List.mem_reverse]

theorem strip_eq_nil_iff {cs : List Char} : strip p cs = [] ↔ ∀ c ∈ cs, p c = true := by
  rw [strip, stripRight_eq_nil_iff, stripLeft]
  constructor
  · intro h c hc
    rw [← List.takeWhile_append_dropWhile (p := p) (l := cs), List.mem_append] at hc
    rcases hc with hc | hc
    · exact List.mem_takeWhile_imp hc
    · exact h c hc
  · intro h c hc
    exact h c ((List.dropWhile_suffix p).mem hc)

theorem stripLeft_append (hbefore : ∀ c ∈ before, p c = true)
    (hmid : ∀ d, mid.head? = some d → p d = false) : stripLeft p (before ++ mid) = mid := by
  rw [stripLeft, List.dropWhile_append_of_pos hbefore]
  cases mid with
  | nil => rfl
  | cons d ds => exact List.dropWhile_cons_of_neg (by simp [hmid d rfl])

theorem stripRight_append (hafter : ∀ c ∈ after, p c = true)
    (hmid : ∀ d, mid.getLast? = some d → p d = false) : stripRight p (mid ++ after) = mid := by
  have hreverse : stripLeft p (after.reverse ++ mid.reverse) = mid.reverse := by
    refine stripLeft_append (fun c hc => hafter c (List.mem_reverse.1 hc)) fun d hd => ?_
    rw [List.head?_reverse] at hd
    exact hmid d hd
  rw [stripLeft, ← List.reverse_append] at hreverse
  rw [stripRight, hreverse, List.reverse_reverse]

theorem stripRight_eq_self {cs : List Char} (hlast : ∀ d, cs.getLast? = some d → p d = false) :
    stripRight p cs = cs := by
  have hnone : ∀ c ∈ ([] : List Char), p c = true := nofun
  have hstrip := stripRight_append hnone hlast
  rwa [List.append_nil] at hstrip

/-- The ends go, and what is between them stays. -/
theorem strip_append (hbefore : ∀ c ∈ before, p c = true) (hafter : ∀ c ∈ after, p c = true)
    (hhead : ∀ d, mid.head? = some d → p d = false)
    (hlast : ∀ d, mid.getLast? = some d → p d = false) :
    strip p (before ++ (mid ++ after)) = mid := by
  cases mid with
  | nil =>
    refine strip_eq_nil_iff.2 fun c hc => ?_
    rcases List.mem_append.1 hc with hc | hc
    · exact hbefore c hc
    · exact hafter c hc
  | cons d ds =>
    have hleft : stripLeft p (before ++ (d :: ds ++ after)) = d :: ds ++ after :=
      stripLeft_append hbefore hhead
    rw [strip, hleft, stripRight_append hafter hlast]

/-- A text without such characters at its ends stays as it is. -/
theorem strip_eq_self {cs : List Char} (hhead : ∀ d, cs.head? = some d → p d = false)
    (hlast : ∀ d, cs.getLast? = some d → p d = false) : strip p cs = cs := by
  have hends : ∀ c ∈ ([] : List Char), p c = true := nofun
  have hstrip := strip_append hends hends hhead hlast
  rwa [List.nil_append, List.append_nil] at hstrip

/-! ## The ends of what is left -/

theorem head?_stripLeft {cs : List Char} {d : Char} (h : (stripLeft p cs).head? = some d) :
    p d = false := by
  have hnot := List.head?_dropWhile_not p cs
  rw [stripLeft] at h
  rwa [h] at hnot

theorem getLast?_stripRight {cs : List Char} {d : Char}
    (h : (stripRight p cs).getLast? = some d) : p d = false := by
  rw [stripRight, List.getLast?_reverse] at h
  exact head?_stripLeft h

theorem getLast?_strip {cs : List Char} {d : Char} (h : (strip p cs).getLast? = some d) :
    p d = false := getLast?_stripRight h

/-- What is taken off the right end is of the class. -/
theorem exists_stripRight (p : Char → Bool) (cs : List Char) :
    ∃ after, cs = stripRight p cs ++ after ∧ ∀ c ∈ after, p c = true := by
  refine ⟨(cs.reverse.takeWhile p).reverse, ?_, fun c hc => ?_⟩
  · rw [stripRight, ← List.reverse_append, List.takeWhile_append_dropWhile, List.reverse_reverse]
  · exact List.mem_takeWhile_imp (List.mem_reverse.1 hc)

theorem head?_strip {cs : List Char} {d : Char} (h : (strip p cs).head? = some d) :
    p d = false := by
  obtain ⟨after, hafter, -⟩ := exists_stripRight p (stripLeft p cs)
  have hhead : (stripLeft p cs).head? = some d := by
    rw [hafter, List.head?_append]
    exact Option.or_eq_some_iff.2 (.inl h)
  exact head?_stripLeft hhead

/-- A text is what is left of it, between characters of the class. -/
theorem exists_strip (p : Char → Bool) (cs : List Char) :
    ∃ before after, cs = before ++ (strip p cs ++ after) ∧ (∀ c ∈ before, p c = true) ∧
      ∀ c ∈ after, p c = true := by
  obtain ⟨after, hafter, hall⟩ := exists_stripRight p (stripLeft p cs)
  refine ⟨cs.takeWhile p, after, ?_, fun c hc => List.mem_takeWhile_imp hc, hall⟩
  rw [strip, ← hafter, stripLeft, List.takeWhile_append_dropWhile]

/-- A part of a text with nothing but characters of the class around it, and none of them at its
own ends. -/
structure IsCore (p : Char → Bool) (cs core : List Char) : Prop where
  around : ∃ before after, cs = before ++ (core ++ after) ∧ (∀ c ∈ before, p c = true) ∧
    ∀ c ∈ after, p c = true
  head : ∀ d, core.head? = some d → p d = false
  last : ∀ d, core.getLast? = some d → p d = false

/-- Stripping leaves this part, and there is no other of the kind. -/
theorem strip_eq_iff {cs core : List Char} : strip p cs = core ↔ IsCore p cs core := by
  constructor
  · rintro rfl
    exact ⟨exists_strip p cs, fun _ => head?_strip, fun _ => getLast?_strip⟩
  · rintro ⟨⟨before, after, rfl, hbefore, hafter⟩, hhead, hlast⟩
    exact strip_append hbefore hafter hhead hlast

/-- What is left has nothing more to take off. -/
theorem strip_strip (p : Char → Bool) (cs : List Char) : strip p (strip p cs) = strip p cs :=
  strip_eq_self (fun _ => head?_strip) fun _ => getLast?_strip

/-- Characters of the class at the ends make no difference. -/
theorem strip_between (hbefore : ∀ c ∈ before, p c = true) (hafter : ∀ c ∈ after, p c = true)
    (cs : List Char) : strip p (before ++ (cs ++ after)) = strip p cs := by
  obtain ⟨front, back, hcs, hfront, hback⟩ := exists_strip p cs
  have hends : before ++ (cs ++ after) =
      (before ++ front) ++ (strip p cs ++ (back ++ after)) := by
    conv => lhs; rw [hcs]
    simp only [List.append_assoc]
  rw [hends]
  exact strip_append (List.forall_mem_append.2 ⟨hbefore, hfront⟩)
    (List.forall_mem_append.2 ⟨hback, hafter⟩) (fun _ => head?_strip) fun _ => getLast?_strip

theorem trim_eq_nil_iff {cs : List Char} : trim cs = [] ↔ ∀ c ∈ cs, isBlank c = true :=
  strip_eq_nil_iff

end DecisionTable.Text
