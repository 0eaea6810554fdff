import DecisionTable.Text.WordTable
import DecisionTable.Text.Blank

/-!
# Word characters

What a name, a keyword or a number is made of: letters, marks, digits, the underscore and
its kin. A *run* is a longest stretch of word characters; keywords are recognised as whole
runs, so `android` holds no `and`.
-/

namespace DecisionTable.Text

/-- Whether a character may stand inside a word. -/
def isWord (c : Char) : Bool :=
  if c.toNat < 0x80 then c.isAlphanum || c = '_' else inRanges wordRanges c.toNat

/-- Within ASCII the word characters are the letters, the digits and the underscore. -/
theorem isWord_of_lt {c : Char} (h : c.toNat < 0x80) :
    isWord c = (c.isAlphanum || c = '_') := by
  simp [isWord, h]

/-- The run of word characters at the front of a text. -/
def run (cs : List Char) : List Char := cs.takeWhile isWord

/-- What follows the run at the front of a text. -/
def afterRun (cs : List Char) : List Char := cs.dropWhile isWord

@[simp] theorem run_append_afterRun (cs : List Char) : run cs ++ afterRun cs = cs :=
  List.takeWhile_append_dropWhile

theorem isWord_of_mem_run {c : Char} {cs : List Char} (h : c ∈ run cs) : isWord c = true := by
  induction cs with
  | nil => simp [run] at h
  | cons d cs ih =>
    rw [run, List.takeWhile_cons] at h
    split at h
    · next hd =>
      rcases List.mem_cons.1 h with rfl | h
      · exact hd
      · exact ih h
    · simp at h

/-- What follows a run begins with no word character. -/
theorem head?_afterRun {c : Char} {cs : List Char} (h : (afterRun cs).head? = some c) :
    isWord c = false := by
  have hnot := List.head?_dropWhile_not isWord cs
  rw [afterRun] at h
  rwa [h] at hnot

end DecisionTable.Text
