import DecisionTable.Rule.Workbook

/-!
# Rule files on disk

What a rule file holds, and what is worth a warning about it.
-/

namespace DecisionTable

/-- The rules of a file with the given content; `none` stands for a file that is not there. -/
def Rulebook.ofFile (content : Option ByteArray) : Except Error Rulebook :=
  match content with
  | none => .error .noFile
  | some bytes =>
    match String.fromUTF8? bytes with
    | none => .error .notText
    | some text => .ok (.read text)

/-- Something about a rule file that is no error. -/
inductive Warning where
  /-- Lines stand before the first rule. -/
  | strayLines (count : Nat)
  /-- The key of a rule is too long for the name of its sheet. -/
  | shortened (key : String)
  deriving DecidableEq, Repr

namespace Warning

/-- The warning in words. -/
def message : Warning → String
  | strayLines count => s!"ignored {count} line(s) before the first rule key"
  | shortened key => s!"sheet name for rule '{key}' truncated to '{sheetName key}'"

/-- The warnings about the text of a rule file. -/
def ofText (text : String) : List Warning :=
  let count := Rulebook.strayLines text
  if count = 0 then [] else [strayLines count]

/-- The warnings about the sheets of a workbook. -/
def ofRulebook (book : Rulebook) : List Warning :=
  (book.keys.filter fun key => maxSheetName < key.length).map shortened

end Warning

end DecisionTable
