/-!
# JSON text

Strings, arrays and objects as JSON, compact or over several lines with an indent of two
blanks. Only what JSON demands is escaped: quotes, backslashes and control characters.
-/

namespace DecisionTable.Text.Json

/-- A character within a JSON string. -/
def escape (c : Char) : List Char :=
  if c = '"' then ['\\', '"']
  else if c = '\\' then ['\\', '\\']
  else if c = '\x08' then ['\\', 'b']
  else if c = '\t' then ['\\', 't']
  else if c = '\n' then ['\\', 'n']
  else if c = '\x0c' then ['\\', 'f']
  else if c = '\r' then ['\\', 'r']
  else if c.toNat < 0x20 then
    ['\\', 'u', '0', '0', Nat.digitChar (c.toNat / 16), Nat.digitChar (c.toNat % 16)]
  else [c]

/-- A text as a JSON string. -/
def string (s : String) : String := .ofList ('"' :: s.toList.flatMap escape ++ ['"'])

/-- An object on one line, its values given as JSON. -/
def compactObject (fields : List (String × String)) : String :=
  "\x7b" ++ ",".intercalate (fields.map fun f => string f.1 ++ ":" ++ f.2) ++ "\x7d"

/-- A line break and the indent of a line. -/
def newline (indent : Nat) : String := .ofList ('\n' :: List.replicate indent ' ')

/-- Items between brackets, each on lines of its own; brackets without items stay on one
line. The brackets stand at the given indent. -/
def bracket (opening closing : String) (indent : Nat) (items : List String) : String :=
  if items.isEmpty then opening ++ closing
  else
    let inner := newline (indent + 2)
    opening ++ inner ++ ("," ++ inner).intercalate items ++ newline indent ++ closing

/-- An array over several lines, its items given as JSON. -/
def array (indent : Nat) (items : List String) : String := bracket "[" "]" indent items

/-- An object over several lines, its values given as JSON. -/
def object (indent : Nat) (fields : List (String × String)) : String :=
  bracket "\x7b" "\x7d" indent (fields.map fun f => string f.1 ++ ": " ++ f.2)

end DecisionTable.Text.Json
