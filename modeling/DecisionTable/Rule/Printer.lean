import DecisionTable.Rule.Book

/-!
# Writing rule files

The text of a rule file, and which lists of rules can be written so that they read back the
same.
-/

namespace DecisionTable.Rulebook

open Text

/-- A rule as text: its key and a colon, then its body. -/
def ruleText (rule : String × String) : String := rule.1 ++ ":\n" ++ rule.2 ++ "\n"

/-- Rules as text, one after the other. -/
def write (rules : List (String × String)) : String := String.join (rules.map ruleText)

/-- Whether a text can be the key of a rule. -/
def IsKey (key : String) : Prop := key ≠ "" ∧ ∀ c ∈ key.toList, isWord c = true

/-- Whether a text can be the body of a rule: it is not empty, has no blanks around it or at
the end of a line, and no line of it opens a rule. -/
structure IsBody (body : String) : Prop where
  ne_empty : body ≠ ""
  trim_eq : trim body.toList = body.toList
  trimRight_eq : ∀ line ∈ lines body.toList, trimRight line = line
  keyOf?_eq : ∀ line ∈ lines body.toList, keyOf? line = none

/-- Whether rules are such as a rule file can hold. -/
structure WellFormed (rules : List (String × String)) : Prop where
  nodup : (rules.map Prod.fst).Nodup
  isKey : ∀ rule ∈ rules, IsKey rule.1
  isBody : ∀ rule ∈ rules, IsBody rule.2

end DecisionTable.Rulebook
