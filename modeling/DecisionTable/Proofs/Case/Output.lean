import DecisionTable.Case.Reader
import DecisionTable.Proofs.Text.Locality
import DecisionTable.Proofs.Text.Trimming
import DecisionTable.Proofs.Text.Words

/-!
# Outputs and their column

What the texts of a block say, by rules and not by reading.

* The text after a `THEN` or an `ELSE` has an output (`HasOutput`): what is left without the blanks
  around it, and then without the quote marks around that.
* The text after a block may give the output a column (`GivesName`): `AS`, blanks and a word.
  Where it does not, the column is `output` (`NamesColumn`).

Reading finds the output and the column that the rules say (`outputOf_eq_iff`,
`getD_aliasOf?_eq_iff`), so there is one of each.
-/

namespace DecisionTable.Case

open Text

variable {cs : List Char} {name column output : String}

/-! ## Outputs -/

/-- What is left of the text without the blanks around it, and of that without the quote marks
around it, is the output. -/
def HasOutput (cs : List Char) (output : String) : Prop :=
  ∃ quoted, IsCore isBlank cs quoted ∧
    IsCore (fun c => c = '\'' || c = '"') quoted output.toList

theorem outputOf_eq_iff : outputOf cs = output ↔ HasOutput cs output := by
  have hstrip : outputOf cs = output ↔ strip isQuoteMark (trim cs) = output.toList := by
    rw [outputOf, ← String.toList_inj, String.toList_ofList]
  rw [hstrip]
  constructor
  · intro h
    exact ⟨trim cs, strip_eq_iff.1 rfl, strip_eq_iff.1 h⟩
  · rintro ⟨quoted, hquoted, houtput⟩
    obtain rfl : trim cs = quoted := strip_eq_iff.2 hquoted
    exact strip_eq_iff.2 houtput

/-! ## The column of the output -/

/-- The text gives a name: after blanks, if any, it has `AS` in any letter case, blanks, and the
name, which is all of a word. For the s there may be a long s. -/
inductive GivesName : List Char → String → Prop where
  | as {before gap rest : List Char} {a s : Char} {name : String} :
      (∀ c ∈ before, isBlank c = true) →
      a.toLower = 'a' → s.toLower = 's' ∨ s = 'ſ' →
      gap ≠ [] → (∀ c ∈ gap, isBlank c = true) →
      name ≠ "" → (∀ c ∈ name.toList, isWord c = true) →
      (∀ c, rest.head? = some c → isWord c = false) →
      GivesName (before ++ a :: s :: (gap ++ (name.toList ++ rest))) name

/-- The column of the output, by the text after a block: the name that it gives, or `output` if it
gives none. -/
def NamesColumn (cs : List Char) (column : String) : Prop :=
  GivesName cs column ∨ (∀ name, ¬ GivesName cs name) ∧ column = "output"

theorem GivesName.isWord_of_mem (h : GivesName cs name) : ∀ c ∈ name.toList, isWord c = true := by
  cases h with
  | as _ _ _ _ _ _ hword _ => exact hword

theorem foldCase_eq_a_iff {c : Char} : foldCase c = 'a' ↔ c.toLower = 'a' := by
  rw [foldCase]
  split
  · next hc =>
    subst hc
    decide
  · exact Iff.rfl

theorem foldCase_eq_s_iff {c : Char} : foldCase c = 's' ↔ c.toLower = 's' ∨ c = 'ſ' := by
  rw [foldCase]
  split
  · next hc => exact iff_of_true rfl (.inr hc)
  · next hc => exact (or_iff_left hc).symm

/-- A name begins with a word character, so with no blank. -/
theorem isBlank_of_head?_name (hname : name ≠ "") (hword : ∀ c ∈ name.toList, isWord c = true)
    (rest : List Char) : ∀ d, (name.toList ++ rest).head? = some d → isBlank d = false := by
  intro d hd
  obtain ⟨c, cs, hcs⟩ := List.exists_cons_of_ne_nil (mt String.toList_eq_nil_iff.1 hname)
  rw [hcs] at hd hword
  cases hd
  exact isBlank_of_isWord (hword _ List.mem_cons_self)

/-- Where `AS` and blanks are at the front of a text, the run behind them is the name. -/
theorem givesName_run {a s : Char} {rest : List Char}
    (hfront : stripLeft isBlank cs = a :: s :: rest) (ha : a.toLower = 'a')
    (hs : s.toLower = 's' ∨ s = 'ſ') (hgap : rest.takeWhile isBlank ≠ [])
    (hname : run (stripLeft isBlank rest) ≠ []) :
    GivesName cs (.ofList (run (stripLeft isBlank rest))) := by
  let after := stripLeft isBlank rest
  have hgives : GivesName (cs.takeWhile isBlank ++ a :: s ::
      (rest.takeWhile isBlank ++ ((String.ofList (run after)).toList ++ afterRun after)))
      (.ofList (run after)) := by
    refine .as (fun c hc => List.mem_takeWhile_imp hc) ha hs hgap
      (fun c hc => List.mem_takeWhile_imp hc) (by simpa using hname) (fun c hc => ?_)
      fun c => head?_afterRun
    rw [String.toList_ofList] at hc
    exact isWord_of_mem_run hc
  -- the stretches that were taken off the front make up the text
  have hrest : rest.takeWhile isBlank ++
      ((String.ofList (run after)).toList ++ afterRun after) = rest := by
    rw [String.toList_ofList, run_append_afterRun]
    exact List.takeWhile_append_dropWhile
  have hcs : cs.takeWhile isBlank ++ a :: s :: rest = cs := by
    rw [← hfront]
    exact List.takeWhile_append_dropWhile
  rwa [hrest, hcs] at hgives

/-- A name that is given is found. -/
theorem GivesName.aliasOf?_eq (h : GivesName cs name) : aliasOf? cs = some name := by
  cases h with
  | @as before gap rest a s _ hbefore ha hs hgap hblank hname hword hrest =>
    have hletter : isBlank a = false :=
      isBlank_of_isWord (isWord_of_isWord_toLower (ha ▸ by decide))
    have hfront : stripLeft isBlank (before ++ a :: s :: (gap ++ (name.toList ++ rest))) =
        a :: s :: (gap ++ (name.toList ++ rest)) := by
      refine stripLeft_append hbefore fun d hd => ?_
      cases hd
      exact hletter
    have hhead := isBlank_of_head?_name hname hword rest
    have hafter : stripLeft isBlank (gap ++ (name.toList ++ rest)) = name.toList ++ rest :=
      stripLeft_append hblank hhead
    have hbetween : (gap ++ (name.toList ++ rest)).takeWhile isBlank = gap :=
      takeWhile_append_of_all hblank hhead
    have hrun : run (name.toList ++ rest) = name.toList := takeWhile_append_of_all hword hrest
    rw [aliasOf?, hfront]
    simp only [hafter, hbetween, hrun, List.map_cons, List.map_nil, foldCase_eq_a_iff.2 ha,
      foldCase_eq_s_iff.2 hs, String.ofList_toList]
    exact if_pos ⟨trivial, hgap, by simpa using hname⟩

/-- A name is found where one is given, and it is the one that is given. -/
theorem aliasOf?_eq_some_iff : aliasOf? cs = some name ↔ GivesName cs name := by
  refine ⟨fun h => ?_, GivesName.aliasOf?_eq⟩
  rw [aliasOf?] at h
  split at h
  · next a s rest hfront =>
    dsimp only at h
    split at h
    · next hfound =>
      cases h
      obtain ⟨hletters, hgap, hname⟩ := hfound
      obtain ⟨ha, hs⟩ : foldCase a = 'a' ∧ foldCase s = 's' := by simpa using hletters
      exact givesName_run hfront (foldCase_eq_a_iff.1 ha) (foldCase_eq_s_iff.1 hs) hgap hname
    · cases h
  · cases h

/-- The column that is found is the one that the text names. -/
theorem getD_aliasOf?_eq_iff :
    (aliasOf? cs).getD defaultOutputColumn = column ↔ NamesColumn cs column := by
  rw [NamesColumn]
  simp only [← aliasOf?_eq_some_iff]
  cases aliasOf? cs with
  | none => simp [defaultOutputColumn, eq_comm]
  | some name => simp

end DecisionTable.Case
