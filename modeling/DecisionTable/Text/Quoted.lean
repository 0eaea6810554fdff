import DecisionTable.Text.InvisibleTable
import DecisionTable.Text.Blank

/-!
# Texts in quotes

A text between double quotes in which every character can be seen: quotes and backslashes
are escaped, and so are the characters that have no shape of their own.
-/

namespace DecisionTable.Text.Quoted

/-- Whether a character has no shape of its own: controls, blanks other than the space, marks
that are drawn onto the character before them, and characters that are shown as nothing. -/
def isInvisible (c : Char) : Bool :=
  c.toNat < 0x20 || (0x7F ≤ c.toNat && c.toNat < 0xA0) || (isBlank c && c ≠ ' ') ||
    inRanges invisibleRanges c.toNat

/-- A character by its code point. -/
def codePoint (c : Char) : List Char :=
  '\\' :: 'u' :: '\x7b' :: Nat.toDigits 16 c.toNat ++ ['\x7d']

/-- A character within quotes. -/
def escape (c : Char) : List Char :=
  if c = '\x00' then ['\\', '0']
  else if c = '\t' then ['\\', 't']
  else if c = '\n' then ['\\', 'n']
  else if c = '\r' then ['\\', 'r']
  else if c = '"' then ['\\', '"']
  else if c = '\\' then ['\\', '\\']
  else if isInvisible c then codePoint c
  else [c]

/-- A text in quotes. -/
def quote (s : String) : String := .ofList ('"' :: s.toList.flatMap escape ++ ['"'])

end DecisionTable.Text.Quoted
