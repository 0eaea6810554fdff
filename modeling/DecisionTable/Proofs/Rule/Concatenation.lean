import Mathlib.Data.List.Induction
import DecisionTable.Proofs.Rule.Lines

/-!
# Rule files one after the other

A rule file that begins with a key line can be put behind another file: what is read of both
together is what is read of the first, with the rules of the second inserted one by one
(`Rulebook.read_concatenated`). The second file opens a section of its own, so the lines of either
file are read as they are read alone; and inserting what was read of some rules is the same as
inserting these rules (`Rulebook.foldl_addRule`).
-/

namespace DecisionTable.Rulebook

open Text

/-- Whether the first line of a text is the key line of a rule. -/
def OpensWithKey (text : String) : Prop :=
  ∃ line rest key, lines text.toList = line :: rest ∧ keyOf? line = some key

/-- Rules that are added to a rulebook come to the same as the rulebook that they are alone, its
rules inserted one by one. -/
theorem foldl_addRule (found : List (String × List (List Char))) (book : Rulebook) :
    found.foldl addRule book = book.insertAll (found.foldl addRule .empty).entries := by
  -- from the end: the rule that is added last is the one that is inserted last on both sides
  induction found using List.reverseRecOn with
  | nil => rfl
  | append_singleton found rule ih =>
    simp only [List.foldl_append, List.foldl_cons, List.foldl_nil, ih, addRule]
    split
    · rfl
    · rw [OrderedMap.insertAll_entries_insert]

/-- A file that opens with a key line has its own sections, wherever it stands. -/
theorem split_concatenated {b : String} (hb : OpensWithKey b) (a : String) :
    split (a ++ "\n" ++ b) = ((split a).1, (split a).2 ++ (split b).2) := by
  obtain ⟨line, rest, key, hlines, hkey⟩ := hb
  -- no line of the second file is left over for the last rule of the first
  have hfront : (sections keyOf? (lines b.toList)).1 = [] := by
    rw [hlines, sections_cons_of_some hkey]
  have htext : (a ++ "\n" ++ b).toList = a.toList ++ '\n' :: b.toList := by simp
  rw [split, htext, lines_append_newline, sections_append hfront]
  rfl

/-- What is read of a file with another behind it, that opens with a key line, is what is read of
the first with the rules of the second inserted one by one. So the keys of the first keep their
places and new ones come after them in their order; and a key has the body that the second file
gives it, or, where that gives it none, the body that the first one did. -/
theorem read_concatenated {a b : String} (hb : OpensWithKey b) :
    read (a ++ "\n" ++ b) = (read a).insertAll (read b).entries ∧
      (read (a ++ "\n" ++ b)).keys =
        (read a).keys ++ (read b).keys.filter (· ∉ (read a).keys) ∧
      ∀ key, (read (a ++ "\n" ++ b)).get? key = ((read b).get? key).or ((read a).get? key) := by
  have hread : read (a ++ "\n" ++ b) = (read a).insertAll (read b).entries := by
    rw [read, split_concatenated hb, List.foldl_append, foldl_addRule (split b).2]
    rfl
  refine ⟨hread, ?_, fun key => ?_⟩
  · rw [hread]
    exact OrderedMap.keys_insertAll (read b).nodup (read a)
  · rw [hread]
    exact OrderedMap.get?_insertAll (read b).nodup (read a) key

/-- Of the keys in both files one has a body in the second and one has none; the second file
repeats a key of its own, too. -/
theorem read_concatenated_repeated :
    let a := "stray\nx:\n  p = 1\ny :\n  q = 2\n"
    let b := " z:\nr = 3\ny:\n\nx:\n  s = 4\n\nz:\nt = 5"
    OpensWithKey b ∧ (read b).entries = [("z", "t = 5"), ("x", "s = 4")] ∧
      (read (a ++ "\n" ++ b)).entries = [("x", "s = 4"), ("y", "q = 2"), ("z", "t = 5")] := by
  intro a b
  have hb : OpensWithKey b := ⟨_, _, "z", rfl, by decide +kernel⟩
  have ha : read a = .ofList [("x", "p = 1"), ("y", "q = 2")] := by decide +kernel
  have hentries : (read b).entries = [("z", "t = 5"), ("x", "s = 4")] := by decide +kernel
  refine ⟨hb, hentries, ?_⟩
  rw [(read_concatenated hb).1, hentries, ha]
  decide +kernel

end DecisionTable.Rulebook
