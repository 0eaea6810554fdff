import DecisionTable.OrderedMap
import DecisionTable.Text.Word
import DecisionTable.Text.Sections

/-!
# Rule files

A rule file is a sequence of named rules. A line that holds a word and a colon, and nothing
else but blanks, opens the rule of that name; the lines up to the next such line are its
body. A rule without a body is left out, and a repeated name replaces the earlier body in
its place. Lines before the first rule belong to none.
-/

namespace DecisionTable

/-- The bodies of rules by their keys, in the order in which the keys first appeared. -/
abbrev Rulebook := OrderedMap String String

namespace Rulebook

open Text

/-! ## Lines -/

/-- The lines of a text, without the line feeds between them. -/
def lines (cs : List Char) : List (List Char) :=
  let (first, rest) := sections (fun c => if c = '\n' then some () else none) cs
  first :: rest.map Prod.snd

/-- The key that a line opens a rule with. -/
def keyOf? (line : List Char) : Option String :=
  let stripped := trim line
  let key := run stripped
  if key ≠ [] ∧ stripLeft isBlank (afterRun stripped) = [':'] then some (.ofList key) else none

/-- The body of a rule with the given lines: no line has blanks at its end, and the whole
has none around it. -/
def bodyOf (lines : List (List Char)) : String :=
  .ofList (trim (['\n'].intercalate (lines.map trimRight)))

/-! ## Rules -/

/-- A rulebook with one more rule, unless the rule has no body. -/
def addRule (book : Rulebook) (rule : String × List (List Char)) : Rulebook :=
  let body := bodyOf rule.2
  if body = "" then book else book.insert rule.1 body

/-- The lines before the first rule, and the rules with their lines. -/
def split (text : String) : List (List Char) × List (String × List (List Char)) :=
  sections keyOf? (lines text.toList)

/-- The rules of a text. -/
def read (text : String) : Rulebook := (split text).2.foldl addRule .empty

/-- How many lines of a text stand before its first rule, blank ones apart. -/
def strayLines (text : String) : Nat := ((split text).1.filter fun l => trim l ≠ []).length

end Rulebook

end DecisionTable
