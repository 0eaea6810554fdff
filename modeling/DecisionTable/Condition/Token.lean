import DecisionTable.Numeral.Canonical
import DecisionTable.Condition.Comparison

/-!
# Tokens of a condition

The words of the condition language, the text each is written with, and the value that one
denotes in value position.
-/

namespace DecisionTable

/-- A token of a condition. -/
inductive Token where
  | comparison (c : Comparison)
  | andKw
  | orKw
  | inKw
  | thenKw
  | openParen
  | closeParen
  | comma
  /-- A quoted stretch; `text` has its quotes. -/
  | literal (text : String)
  /-- A name, a number or a parameter such as `@p1`. -/
  | word (text : String)
  deriving DecidableEq, Repr

namespace Token

/-- The text a token is written with: the canonical symbol of a comparison, keywords in
capitals, literals and words as they were read. -/
def text : Token → String
  | comparison c => c.symbol
  | andKw => "AND"
  | orKw => "OR"
  | inKw => "IN"
  | thenKw => "THEN"
  | openParen => "("
  | closeParen => ")"
  | comma => ","
  | literal text => text
  | word text => text

/-- Whether a token may be an entry of an `IN` list. -/
def isValue : Token → Bool
  | literal _ => true
  | word _ => true
  | _ => false

/-- A literal without its quotes; a text that has not a quote at both ends stays as it is. -/
def unquote (cs : List Char) : List Char :=
  match cs with
  | '\'' :: inner => if inner.getLast? = some '\'' then inner.dropLast else cs
  | _ => cs

/-- The value a token denotes: a literal without its quotes, a number in canonical form, any
other token its text. -/
def value : Token → String
  | literal text => .ofList (unquote text.toList)
  | word text => Numeral.canonical text
  | other => other.text

/-- Tokens as one text, with single spaces between them. -/
def join (tokens : List Token) : String := " ".intercalate (tokens.map text)

end Token

end DecisionTable
