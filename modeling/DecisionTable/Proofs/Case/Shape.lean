import Mathlib.Data.List.Forall2
import DecisionTable.Proofs.Case.Output

/-!
# The shape of a block

An `Outline` gives the segments of a text their parts in a block: `CASE`, branches of a `WHEN`
and a `THEN` each, perhaps an `ELSE`, the `END` that closes the block, and what follows it. A
text is a block exactly where its segments have an outline with no further `END`, nothing
stands between `CASE` and the next keyword, and every condition can be read
(`Block.read_outlined`). The outline leaves nothing of the text out.
-/

namespace DecisionTable.Case

open Text

/-! ## The last `END` -/

theorem splitAtLastEnd_eq_none_iff {segs : List Segment} :
    splitAtLastEnd segs = none ↔ ∀ s ∈ segs, s.keyword ≠ .endKw := by
  induction segs with
  | nil => simp [splitAtLastEnd]
  | cons s rest ih =>
    rw [splitAtLastEnd, List.forall_mem_cons, ← ih]
    cases splitAtLastEnd rest with
    | none => by_cases hs : s.keyword = .endKw <;> simp [hs]
    | some found => simp

theorem splitAtLastEnd_eq_some_iff {segs body after : List Segment} {last : Segment} :
    splitAtLastEnd segs = some (body, last, after) ↔
      segs = body ++ last :: after ∧ last.keyword = .endKw ∧
        ∀ s ∈ after, s.keyword ≠ .endKw := by
  induction segs generalizing body last after with
  | nil => simp [splitAtLastEnd]
  | cons s rest ih =>
    rw [splitAtLastEnd]
    cases hrest : splitAtLastEnd rest with
    | none =>
      dsimp only
      rw [splitAtLastEnd_eq_none_iff] at hrest
      constructor
      · intro h
        split at h
        · next hs =>
          cases h
          exact ⟨rfl, hs, hrest⟩
        · cases h
      · rintro ⟨heq, hlast, -⟩
        -- no later segment is an END, so the last one is the first
        cases body with
        | nil =>
          cases heq
          exact if_pos hlast
        | cons b body =>
          cases heq
          exact absurd hlast (hrest last (by simp))
    | some found =>
      obtain ⟨front, found, behind⟩ := found
      obtain ⟨hsplit, hfound, -⟩ := ih.1 hrest
      constructor
      · intro h
        cases h
        obtain ⟨-, -, hafter⟩ := ih.1 hrest
        exact ⟨by rw [hsplit]; rfl, hfound, hafter⟩
      · rintro ⟨heq, hlast, hafter⟩
        cases body with
        | nil =>
          cases heq
          exact absurd hfound (hafter found (by simp [hsplit]))
        | cons b body =>
          cases heq
          have hunique := hrest.symm.trans (ih.2 ⟨rfl, hlast, hafter⟩)
          cases hunique
          rfl

/-! ## Branches -/

/-- The segments of branches and of an `ELSE`. -/
def bodyOf (branches : List (Segment × Segment)) (fallback : Option Segment) : List Segment :=
  branches.flatMap (fun b => [b.1, b.2]) ++ fallback.toList

/-- Branches have a `WHEN` and a `THEN` each, and the fallback an `ELSE`. -/
structure IsBody (branches : List (Segment × Segment)) (fallback : Option Segment) : Prop where
  branch : ∀ b ∈ branches, b.1.keyword = .whenKw ∧ b.2.keyword = .thenKw
  fallback : ∀ s ∈ fallback, s.keyword = .elseKw

/-- The branch has the condition that follows `WHEN` and the output that follows `THEN`. -/
def Denotes (b : Segment × Segment) (branch : Branch) : Prop :=
  Expression.read (.ofList b.1.text) = .ok branch.condition ∧ HasOutput b.2.text branch.output

/-- The output of a block without a matching branch is the one that follows `ELSE`. -/
def FallsBack : Option Segment → Option String → Prop :=
  Option.Rel fun s output => HasOutput s.text output

variable {segs rest : List Segment} {branches : List (Segment × Segment)}
  {fallback : Option Segment}

theorem readBranches_pair {w t : Segment} (hw : w.keyword = .whenKw) (ht : t.keyword = .thenKw)
    (rest : List Segment) :
    readBranches (w :: t :: rest) = (do
      let condition ← conditionOf w.text
      let (branches, fallback) ← readBranches rest
      .ok (⟨condition, outputOf t.text⟩ :: branches, fallback)) := by
  rw [readBranches]
  · simp only [ht, if_true]
  · exact hw

theorem conditionOf_eq_ok_iff {cs : List Char} {e : Expression} :
    conditionOf cs = .ok e ↔ Expression.read (.ofList cs) = .ok e := by
  rw [conditionOf]
  cases Expression.read (.ofList cs) <;> simp

/-- One branch is read after the other. -/
theorem readBranches_pair_eq_ok_iff {w t : Segment} (hw : w.keyword = .whenKw)
    (ht : t.keyword = .thenKw) {bs : List Branch} {output : Option String} :
    readBranches (w :: t :: rest) = .ok (bs, output) ↔
      ∃ branch others, Denotes (w, t) branch ∧ readBranches rest = .ok (others, output) ∧
        bs = branch :: others := by
  rw [readBranches_pair hw ht]
  constructor
  · intro h
    cases hc : conditionOf w.text with
    | error error =>
      rw [hc] at h
      cases h
    | ok e =>
      rw [hc] at h
      cases hrest : readBranches rest with
      | error error =>
        rw [hrest] at h
        cases h
      | ok found =>
        rw [hrest] at h
        cases h
        exact ⟨⟨e, outputOf t.text⟩, found.1,
          ⟨conditionOf_eq_ok_iff.1 hc, outputOf_eq_iff.1 rfl⟩, rfl, rfl⟩
  · rintro ⟨⟨e, o⟩, others, ⟨he, ho⟩, hrest, rfl⟩
    obtain rfl : outputOf t.text = o := outputOf_eq_iff.2 ho
    have hc : conditionOf w.text = .ok e := conditionOf_eq_ok_iff.2 he
    rw [hc, hrest]
    rfl

theorem readBranches_fallback {s : Segment} (hs : s.keyword = .elseKw) :
    readBranches [s] = .ok ([], some (outputOf s.text)) := by
  rw [readBranches.eq_def]
  simp only [hs]

theorem fallsBack_iff {output : Option String} :
    FallsBack fallback output ↔ output = fallback.map fun s => outputOf s.text := by
  cases fallback with
  | none => cases output <;> simp [FallsBack]
  | some s => cases output <;> simp [FallsBack, ← outputOf_eq_iff, eq_comm]

/-- Branches are read from segments that are branches. -/
theorem exists_bodyOf {found : List Branch × Option String} (h : readBranches segs = .ok found) :
    ∃ branches fallback, segs = bodyOf branches fallback ∧ IsBody branches fallback := by
  fun_induction readBranches segs generalizing found with
  | case1 => exact ⟨[], none, rfl, nofun, nofun⟩
  | case2 w t rest hw ht ih =>
    obtain ⟨bs, output⟩ := found
    rw [← readBranches_pair hw ht, readBranches_pair_eq_ok_iff hw ht] at h
    obtain ⟨-, others, -, hrest, -⟩ := h
    obtain ⟨branches, fallback, rfl, hbranch, hfallback⟩ := ih hrest
    exact ⟨(w, t) :: branches, fallback, rfl, List.forall_mem_cons.2 ⟨⟨hw, ht⟩, hbranch⟩, hfallback⟩
  | case5 s hs => exact ⟨[], some s, rfl, nofun, by simpa using hs⟩
  | _ => cases h

/-- What is read from branches: the condition and the output of each, and those of `ELSE`. -/
theorem readBranches_bodyOf_eq_ok_iff (h : IsBody branches fallback) {bs : List Branch}
    {output : Option String} :
    readBranches (bodyOf branches fallback) = .ok (bs, output) ↔
      List.Forall₂ Denotes branches bs ∧ FallsBack fallback output := by
  rw [fallsBack_iff]
  induction branches generalizing bs with
  | nil =>
    cases fallback with
    | none => simp [bodyOf, readBranches, eq_comm]
    | some s => simp [bodyOf, readBranches_fallback (h.fallback s rfl), eq_comm]
  | cons b branches ih =>
    obtain ⟨hb, hbranches⟩ := List.forall_mem_cons.1 h.branch
    have hbody : bodyOf (b :: branches) fallback = b.1 :: b.2 :: bodyOf branches fallback := rfl
    rw [hbody, readBranches_pair_eq_ok_iff hb.1 hb.2, List.forall₂_cons_left_iff]
    simp only [ih ⟨hbranches, h.fallback⟩]
    constructor
    · rintro ⟨branch, others, hdenotes, ⟨hall, hout⟩, rfl⟩
      exact ⟨⟨branch, others, hdenotes, hall, rfl⟩, hout⟩
    · rintro ⟨⟨branch, others, hdenotes, hall, rfl⟩, hout⟩
      exact ⟨branch, others, hdenotes, ⟨hall, hout⟩, rfl⟩

/-- The branches can be read exactly where each condition can. -/
theorem exists_forall₂_denotes_iff :
    (∃ bs, List.Forall₂ Denotes branches bs) ↔
      ∀ b ∈ branches, ∃ e, Expression.read (.ofList b.1.text) = .ok e := by
  induction branches with
  | nil => exact ⟨fun _ => nofun, fun _ => ⟨[], .nil⟩⟩
  | cons b branches ih =>
    rw [List.forall_mem_cons, ← ih]
    constructor
    · rintro ⟨bs, hall⟩
      obtain ⟨branch, others, hdenotes, hothers, -⟩ := List.forall₂_cons_left_iff.1 hall
      exact ⟨⟨branch.condition, hdenotes.1⟩, others, hothers⟩
    · rintro ⟨⟨e, he⟩, others, hothers⟩
      exact ⟨⟨e, outputOf b.2.text⟩ :: others, .cons ⟨he, outputOf_eq_iff.1 rfl⟩ hothers⟩

/-- What is wrong with branches is a fault within a block. -/
theorem kind_of_readBranches {error : BlockError} (h : readBranches segs = .error error) :
    error.kind = .malformed := by
  fun_induction readBranches segs generalizing error with
  | case2 w t rest hw ht ih =>
    cases hc : conditionOf w.text with
    | error cause =>
      rw [hc] at h
      cases h
      rw [conditionOf] at hc
      split at hc
      · cases hc
      · cases hc
        rfl
    | ok e =>
      rw [hc] at h
      cases hrest : readBranches rest with
      | error cause =>
        rw [hrest] at h
        cases h
        exact ih hrest
      | ok found =>
        rw [hrest] at h
        cases h
  | _ => cases h <;> rfl

/-! ## Blocks -/

theorem isOutermost_of_isBody (h : IsBody branches fallback) :
    ∀ s ∈ bodyOf branches fallback, isOutermost s.keyword = false := by
  intro s hs
  rcases List.mem_append.1 hs with hs | hs
  · obtain ⟨b, hb, hs⟩ := List.mem_flatMap.1 hs
    obtain ⟨hw, ht⟩ := h.branch b hb
    rcases List.mem_pair.1 hs with rfl | rfl
    · rw [hw]
      rfl
    · rw [ht]
      rfl
  · rw [h.fallback s (Option.mem_toList.1 hs)]
    rfl

/-- The segments of a text by their parts in a block. -/
structure Outline where
  /-- `CASE`. -/
  opening : Segment
  /-- Each `WHEN` with its `THEN`. -/
  branches : List (Segment × Segment)
  /-- `ELSE`. -/
  fallback : Option Segment
  /-- The `END` that closes the block. -/
  closing : Segment
  /-- What follows the block. -/
  after : List Segment

namespace Outline

/-- All segments in order. -/
def segments (o : Outline) : List Segment :=
  o.opening :: (bodyOf o.branches o.fallback ++ o.closing :: o.after)

/-- The text after the `END` that closes the block. -/
def tail (o : Outline) : List Char := o.closing.text ++ o.after.flatMap Segment.chars

/-- The text, keyword by keyword. -/
def text (o : Outline) : List Char :=
  o.opening.word ++ o.opening.text ++
    o.branches.flatMap (fun b => b.1.word ++ b.1.text ++ b.2.word ++ b.2.text) ++
    o.fallback.toList.flatMap (fun s => s.word ++ s.text) ++ o.closing.word ++ o.tail

/-- The segments have the keywords that their parts ask for, `CASE` stands at the front of the
text with nothing but blanks after it, and no `END` follows the one that closes the block. -/
structure WellShaped (o : Outline) : Prop where
  opening : o.opening.keyword = .caseKw
  offset : o.opening.offset = 0
  blank : ∀ c ∈ o.opening.text, isBlank c = true
  isBody : IsBody o.branches o.fallback
  closing : o.closing.keyword = .endKw
  after : ∀ s ∈ o.after, s.keyword ≠ .endKw

/-- The block has a branch for each `WHEN`, in order, the output of `ELSE`, and the column that
what follows it names. -/
structure Names (o : Outline) (block : Block) : Prop where
  branches : List.Forall₂ Denotes o.branches block.branches
  fallback : FallsBack o.fallback block.fallback
  outputColumn : NamesColumn o.tail block.outputColumn

end Outline

/-- With `END` found, no other block begun or ended and only blanks after `CASE`, the branches
decide. -/
theorem readAfterCase_append {leading : List Char} {body after : List Segment} {closing : Segment}
    (hbody : ∀ s ∈ body, isOutermost s.keyword = false) (hclosing : closing.keyword = .endKw)
    (hafter : ∀ s ∈ after, s.keyword ≠ .endKw) (hblank : ∀ c ∈ leading, isBlank c = true) :
    readAfterCase leading (body ++ closing :: after) =
      (readBranches body).map fun found =>
        ⟨found.1, found.2,
          (aliasOf? (closing.text ++ after.flatMap Segment.chars)).getD defaultOutputColumn⟩ := by
  have hsplit : splitAtLastEnd (body ++ closing :: after) = some (body, closing, after) :=
    splitAtLastEnd_eq_some_iff.2 ⟨rfl, hclosing, hafter⟩
  have hfind : body.find? (fun s => isOutermost s.keyword) = none := by
    rw [List.find?_eq_none]
    intro s hs
    simp [hbody s hs]
  rw [readAfterCase, hsplit]
  simp only [hfind, trim_eq_nil_iff.2 hblank, ne_eq, not_true_eq_false, if_false]
  cases readBranches body <;> rfl

/-- What reading after `CASE` can come to: there is no `END`; or there is a fault within the
block; or the segments are those of a block. -/
theorem readAfterCase_cases (leading : List Char) (segs : List Segment) :
    (readAfterCase leading segs = .error .noEnd ∧ ∀ s ∈ segs, s.keyword ≠ .endKw) ∨
      (∃ s ∈ segs, s.keyword = .endKw) ∧
        ((∃ error, readAfterCase leading segs = .error error ∧ error.kind = .malformed) ∨
          ∃ block branches fallback closing after, readAfterCase leading segs = .ok block ∧
            segs = bodyOf branches fallback ++ closing :: after ∧ IsBody branches fallback ∧
            closing.keyword = .endKw ∧ (∀ s ∈ after, s.keyword ≠ .endKw) ∧
            ∀ c ∈ leading, isBlank c = true) := by
  cases hsplit : splitAtLastEnd segs with
  | none => exact .inl ⟨by rw [readAfterCase, hsplit], splitAtLastEnd_eq_none_iff.1 hsplit⟩
  | some found =>
    obtain ⟨body, closing, after⟩ := found
    obtain ⟨rfl, hclosing, hafter⟩ := splitAtLastEnd_eq_some_iff.1 hsplit
    refine .inr ⟨⟨closing, by simp, hclosing⟩, ?_⟩
    rw [readAfterCase, hsplit]
    dsimp only
    split
    · exact .inl ⟨_, rfl, rfl⟩
    · split
      · exact .inl ⟨_, rfl, rfl⟩
      · next hblank =>
        cases hread : readBranches body with
        | error error => exact .inl ⟨error, rfl, kind_of_readBranches hread⟩
        | ok found =>
          obtain ⟨branches, fallback, rfl, hbody⟩ := exists_bodyOf hread
          rw [ne_eq, Classical.not_not] at hblank
          exact .inr ⟨_, branches, fallback, closing, after, rfl, rfl, hbody, hclosing, hafter,
            trim_eq_nil_iff.1 hblank⟩

namespace Outline

variable {o : Outline} {block : Block}

/-- A block is read from an outline that has its shape, and is the one that the outline
names. -/
theorem WellShaped.readAfterCase_eq_ok_iff (h : o.WellShaped) :
    readAfterCase o.opening.text (bodyOf o.branches o.fallback ++ o.closing :: o.after) =
      .ok block ↔ o.Names block := by
  rw [readAfterCase_append (isOutermost_of_isBody h.isBody) h.closing h.after h.blank]
  constructor
  · intro hread
    cases hbranches : readBranches (bodyOf o.branches o.fallback) with
    | error error =>
      rw [hbranches] at hread
      cases hread
    | ok found =>
      rw [hbranches] at hread
      cases hread
      obtain ⟨hall, hout⟩ := (readBranches_bodyOf_eq_ok_iff h.isBody).1 hbranches
      exact ⟨hall, hout, getD_aliasOf?_eq_iff.1 rfl⟩
  · rintro ⟨hall, hout, hcolumn⟩
    rw [(readBranches_bodyOf_eq_ok_iff h.isBody).2 ⟨hall, hout⟩]
    obtain ⟨bs, output, column⟩ := block
    obtain rfl := getD_aliasOf?_eq_iff.2 hcolumn
    rfl

/-- An outline gives back the whole text, from the first keyword on. -/
theorem text_eq_flatMap_chars (o : Outline) : o.text = o.segments.flatMap Segment.chars := by
  have hfallback : (fun s : Segment => s.word ++ s.text) = Segment.chars := rfl
  simp [text, segments, tail, bodyOf, Segment.chars, List.flatMap_assoc, hfallback]

/-- An outline that begins at the start of the text gives back all of it. -/
theorem text_eq_of_segments {cs : List Char} (h : (Case.segments cs).2 = o.segments)
    (hoffset : o.opening.offset = 0) : o.text = cs := by
  have hall := flatMap_segments cs
  rw [(fst_segments_eq_nil_iff h).2 hoffset, List.flatMap_nil, List.nil_append, h] at hall
  rw [text_eq_flatMap_chars, hall]

/-- There is a block for an outline as soon as its conditions can be read. -/
theorem exists_names_iff :
    (∃ block, o.Names block) ↔
      ∀ b ∈ o.branches, ∃ e, Expression.read (.ofList b.1.text) = .ok e := by
  rw [← exists_forall₂_denotes_iff]
  constructor
  · rintro ⟨block, hall, -, -⟩
    exact ⟨block.branches, hall⟩
  · rintro ⟨bs, hall⟩
    exact ⟨⟨bs, _, _⟩, hall, fallsBack_iff.2 rfl, getD_aliasOf?_eq_iff.1 rfl⟩

end Outline

/-- The first keyword is `CASE`, at the start of the text. -/
def OpensWithCase (segs : List Segment) : Prop :=
  ∃ s ∈ segs.head?, s.keyword = .caseKw ∧ s.offset = 0

namespace Block

variable {text : String}

theorem read_of_opensWithCase {s : Segment} {rest : List Segment}
    (h : (segments (trim text.toList)).2 = s :: rest) (hcase : s.keyword = .caseKw)
    (hoffset : s.offset = 0) : read text = readAfterCase s.text rest := by
  have hsegments : segments (trim text.toList) = ([], s :: rest) :=
    Prod.ext ((fst_segments_eq_nil_iff h).2 hoffset) h
  rw [read, hsegments]
  exact if_pos hcase

theorem read_of_not_opensWithCase (h : ¬ OpensWithCase (segments (trim text.toList)).2) :
    read text = .error .noCase := by
  rw [read]
  split
  · next s rest hsegments =>
    have hfound := congrArg Prod.snd hsegments
    have hoffset := (fst_segments_eq_nil_iff hfound).1 (congrArg Prod.fst hsegments)
    rw [hfound] at h
    exact if_neg fun hcase => h ⟨s, rfl, hcase, hoffset⟩
  · rfl

/-- What reading a text can come to: it does not open with `CASE`, or has no `END`; or there is
a fault within the block; or it has the outline of a block. -/
theorem read_cases (text : String) :
    let found := (segments (trim text.toList)).2
    (∃ error, read text = .error error ∧ error.kind = .precondition ∧
        (¬ OpensWithCase found ∨ ∀ s ∈ found, s.keyword ≠ .endKw)) ∨
      (OpensWithCase found ∧ ∃ s ∈ found, s.keyword = .endKw) ∧
        ((∃ error, read text = .error error ∧ error.kind = .malformed) ∨
          ∃ block o, read text = .ok block ∧ found = Outline.segments o ∧ o.WellShaped) := by
  intro found
  by_cases hopens : OpensWithCase found
  · obtain ⟨s, hhead, hcase, hoffset⟩ := hopens
    obtain ⟨rest, hfound⟩ : ∃ rest, found = s :: rest := List.head?_eq_some_iff.1 hhead
    rw [read_of_opensWithCase hfound hcase hoffset]
    have hfirst : s.keyword ≠ .endKw := by rw [hcase]; decide
    rcases readAfterCase_cases s.text rest with ⟨herror, hnone⟩ | ⟨⟨last, hlast, hend⟩, h⟩
    · refine .inl ⟨.noEnd, herror, rfl, .inr ?_⟩
      rw [hfound]
      exact List.forall_mem_cons.2 ⟨hfirst, hnone⟩
    · refine .inr ⟨⟨⟨s, hhead, hcase, hoffset⟩, last, ?_, hend⟩, h.imp_right ?_⟩
      · rw [hfound]
        exact List.mem_cons_of_mem s hlast
      · rintro ⟨block, branches, fallback, closing, after, hread, hrest, hbody, hclosing, hafter,
          hblank⟩
        refine ⟨block, ⟨s, branches, fallback, closing, after⟩, hread, ?_,
          ⟨hcase, hoffset, hblank, hbody, hclosing, hafter⟩⟩
        rw [hfound, hrest]
        rfl
  · exact .inl ⟨.noCase, read_of_not_opensWithCase hopens, rfl, .inl hopens⟩

/-- A text with the outline of a block is read as what the outline names, and as nothing
else. -/
theorem read_eq_ok_iff_names {o : Outline} {block : Block}
    (h : (segments (trim text.toList)).2 = o.segments) (hshape : o.WellShaped) :
    read text = .ok block ↔ o.Names block := by
  rw [read_of_opensWithCase h hshape.opening hshape.offset]
  exact hshape.readAfterCase_eq_ok_iff

/-- A block is read from an outline. -/
theorem exists_outline {block : Block} (h : read text = .ok block) :
    ∃ o : Outline, (segments (trim text.toList)).2 = o.segments ∧ o.WellShaped := by
  rcases read_cases text with ⟨error, herror, -⟩ |
      ⟨-, ⟨error, herror, -⟩ | ⟨-, o, -, hsegments, hshape⟩⟩
  · rw [h] at herror
    cases herror
  · rw [h] at herror
    cases herror
  · exact ⟨o, hsegments, hshape⟩

/-- What a block says is what its outline names. -/
theorem exists_names {block : Block} (h : read text = .ok block) :
    ∃ o : Outline, (segments (trim text.toList)).2 = o.segments ∧ o.WellShaped ∧ o.Names block := by
  obtain ⟨o, hsegments, hshape⟩ := exists_outline h
  exact ⟨o, hsegments, hshape, (read_eq_ok_iff_names hsegments hshape).1 h⟩

/-- What a refusal says: the text is no block if its `CASE` or its `END` is missing, and has a
fault within the block if neither is. -/
theorem kind_of_read {error : BlockError} (h : read text = .error error) :
    let found := (segments (trim text.toList)).2
    (error.kind = .precondition ↔ ¬ OpensWithCase found ∨ ∀ s ∈ found, s.keyword ≠ .endKw) ∧
      (error.kind = .malformed ↔ OpensWithCase found ∧ ∃ s ∈ found, s.keyword = .endKw) := by
  intro found
  have hexclusive : (¬ OpensWithCase found ∨ ∀ s ∈ found, s.keyword ≠ .endKw) →
      ¬ (OpensWithCase found ∧ ∃ s ∈ found, s.keyword = .endKw) := by
    rintro hmissing ⟨hopens, s, hs, hend⟩
    exact hmissing.elim (fun h => h hopens) (fun h => h s hs hend)
  rcases read_cases text with ⟨error', herror, hkind, hmissing⟩ |
      ⟨hboth, ⟨error', herror, hkind⟩ | ⟨block, o, hok, -⟩⟩
  · obtain rfl : error = error' := Except.error.inj (h.symm.trans herror)
    rw [hkind]
    exact ⟨iff_of_true rfl hmissing, iff_of_false (by decide) (hexclusive hmissing)⟩
  · obtain rfl : error = error' := Except.error.inj (h.symm.trans herror)
    rw [hkind]
    exact ⟨iff_of_false (by decide) fun hmissing => hexclusive hmissing hboth,
      iff_of_true rfl hboth⟩
  · rw [h] at hok
    cases hok

/-- A text is read as a block exactly where its keywords have the shape of one, there is
nothing but blanks after `CASE`, and each condition can be read; the block is then the one that
its outline names, and the outline leaves out nothing of the text. Any other text is refused:
without its `CASE` or its `END` for not being a block, else for a fault within the block. -/
theorem read_outlined (text : String) :
    let found := (segments (trim text.toList)).2
    ((∃ block, read text = .ok block) ↔
      ∃ o : Outline, found = o.segments ∧ o.WellShaped ∧
        ∀ b ∈ o.branches, ∃ e, Expression.read (.ofList b.1.text) = .ok e) ∧
    (∀ o : Outline, found = o.segments → o.WellShaped →
      o.text = trim text.toList ∧ ∀ block, read text = .ok block ↔ o.Names block) ∧
    ∀ error, read text = .error error →
      (error.kind = .precondition ↔
        ¬ OpensWithCase found ∨ ∀ s ∈ found, s.keyword ≠ .endKw) ∧
      (error.kind = .malformed ↔
        OpensWithCase found ∧ ∃ s ∈ found, s.keyword = .endKw) := by
  refine ⟨⟨?_, ?_⟩, ?_, fun error hread => kind_of_read hread⟩
  · rintro ⟨block, hread⟩
    obtain ⟨o, hsegments, hshape⟩ := exists_outline hread
    have hnames : o.Names block := (read_eq_ok_iff_names hsegments hshape).1 hread
    exact ⟨o, hsegments, hshape, Outline.exists_names_iff.1 ⟨block, hnames⟩⟩
  · rintro ⟨o, hsegments, hshape, hconditions⟩
    obtain ⟨block, hnames⟩ := Outline.exists_names_iff.2 hconditions
    exact ⟨block, (read_eq_ok_iff_names hsegments hshape).2 hnames⟩
  · intro o hsegments hshape
    exact ⟨Outline.text_eq_of_segments hsegments hshape.offset,
      fun block => read_eq_ok_iff_names hsegments hshape⟩

/-- Outputs with blanks and quote marks around them, one of them with blanks and a keyword in it and
one with a quote mark; and a name behind a long s, which ends before the comma, with a further
keyword behind it. -/
theorem read_outlined_named :
    let text := " CASE When t.c = 1 THEN ' else ' WHEN d IN (2) then \"x\" " ++
      "ELSE  'the \"rest\"'\nEND\n aſ  tier2, when "
    let segment (k : Keyword) (word : String) (offset : Nat) (following : String) : Segment :=
      ⟨k, word.toList, offset, pieces rule following.toList⟩
    let o : Outline :=
      ⟨segment .caseKw "CASE" 0 " ",
        [(segment .whenKw "When" 5 " t.c = 1 ", segment .thenKw "THEN" 18 " ' else ' "),
          (segment .whenKw "WHEN" 32 " d IN (2) ", segment .thenKw "then" 46 " \"x\" ")],
        some (segment .elseKw "ELSE" 55 "  'the \"rest\"'\n"),
        segment .endKw "END" 74 "\n aſ  tier2, ", [segment .whenKw "when" 91 ""]⟩
    let block : Block :=
      ⟨[⟨.clause ⟨"c", .equal, ["1"]⟩, " else "⟩, ⟨.clause ⟨"d", .oneOf, ["2"]⟩, "x"⟩],
        some "the \"rest", "tier2"⟩
    (segments (trim text.toList)).2 = o.segments ∧ o.WellShaped ∧ o.Names block ∧
      o.text = trim text.toList ∧ read text = .ok block := by
  intro text segment o block
  have hsegments : (segments (trim text.toList)).2 = o.segments := by decide +kernel
  have hshape : o.WellShaped := by
    refine ⟨rfl, rfl, ?_, ⟨?_, ?_⟩, rfl, ?_⟩
    · exact List.all_eq_true.1 (by decide +kernel)
    · simp [o, segment]
    · simp [o, segment]
    · simp [o, segment]
  have hfirst : Expression.read " t.c = 1 " = .ok (.clause ⟨"c", .equal, ["1"]⟩) := by
    have hscan : Token.scan " t.c = 1 " = [.word "t.c", .comparison .equal, .word "1"] := by
      decide +kernel
    rw [Expression.read, hscan]
    decide +kernel
  have hsecond : Expression.read " d IN (2) " = .ok (.clause ⟨"d", .oneOf, ["2"]⟩) := by
    have hscan : Token.scan " d IN (2) " =
        [.word "d", .inKw, .openParen, .word "2", .closeParen] := by decide +kernel
    rw [Expression.read, hscan]
    decide +kernel
  have hnames : o.Names block := by
    refine ⟨.cons ⟨?_, ?_⟩ (.cons ⟨?_, ?_⟩ .nil), .some ?_, .inl ?_⟩
    · simpa [segment, Segment.text] using hfirst
    · exact outputOf_eq_iff.1 (by decide +kernel)
    · simpa [segment, Segment.text] using hsecond
    · exact outputOf_eq_iff.1 (by decide +kernel)
    · exact outputOf_eq_iff.1 (by decide +kernel)
    · exact aliasOf?_eq_some_iff.1 (by decide +kernel)
  obtain ⟨htext, hread⟩ := (read_outlined text).2.1 o hsegments hshape
  exact ⟨hsegments, hshape, hnames, htext, (hread block).2 hnames⟩

end Block

end DecisionTable.Case
