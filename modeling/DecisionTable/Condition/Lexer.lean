import DecisionTable.Text.Word
import DecisionTable.Text.Pieces
import DecisionTable.Condition.Token

/-!
# From text to tokens

At each character the first of these that starts there wins: a symbol of two
characters, a keyword that is a whole run of word characters, a symbol of one character, a
quoted stretch, a name. A name is a stretch of word characters and points with an optional
`@` before it, so qualified names such as `t.col` are one token. A character at which none
of them starts is skipped.
-/

namespace DecisionTable.Token

open Text

/-! ## Lexemes -/

/-- The token of a keyword, in any letter case. -/
def ofKeyword? (word : List Char) : Option Token :=
  let upper := word.map Char.toUpper
  if upper = ['A', 'N', 'D'] then some andKw
  else if upper = ['O', 'R'] then some orKw
  else if upper = ['I', 'N'] then some inKw
  else if upper = ['T', 'H', 'E', 'N'] then some thenKw
  else none

/-- The token of a symbol. -/
def ofSymbol? : List Char → Option Token
  | ['('] => some openParen
  | [')'] => some closeParen
  | [','] => some comma
  | symbol => (Comparison.ofSymbol? symbol).map comparison

/-- Whether a character may stand inside a name. -/
def isName (c : Char) : Bool := isWord c || c = '.'

/-- A symbol of two characters. -/
def twoCharSymbol : Rule := fun c cs =>
  match cs with
  | [] => none
  | d :: _ => (ofSymbol? [c, d]).map fun _ => 1

/-- A keyword: a whole run of word characters that spells one. -/
def keyword : Rule := fun c cs =>
  let word := run (c :: cs)
  (ofKeyword? word).map fun _ => word.length - 1

/-- A symbol of one character. -/
def oneCharSymbol : Rule := fun c _ => (ofSymbol? [c]).map fun _ => 0

/-- A name, with an optional `@` before it. -/
def name : Rule := fun c cs =>
  let rest := cs.takeWhile isName
  if isName c ∨ (c = '@' ∧ rest ≠ []) then some rest.length else none

/-- The rule for the lexemes of a condition. -/
def rule : Rule := fun c cs =>
  twoCharSymbol c cs <|> keyword c cs <|> oneCharSymbol c cs <|> quoted c cs <|> name c cs

/-! ## Tokens -/

/-- The token of a lexeme. -/
def ofLexeme (lexeme : List Char) : Token :=
  match ofSymbol? lexeme with
  | some token => token
  | none =>
    if lexeme.head? = some '\'' then literal (.ofList lexeme)
    else (ofKeyword? lexeme).getD (word (.ofList lexeme))

/-- The tokens of a text. -/
def ofChars (cs : List Char) : List Token := (lexemes rule cs).map ofLexeme

/-- The tokens of a condition. -/
def scan (condition : String) : List Token := ofChars condition.toList

end DecisionTable.Token
