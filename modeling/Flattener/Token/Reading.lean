import Flattener.Token.Literal

/-!
# Reading one lexeme

The first character of a lexeme decides its kind. A reader takes that character
and the text behind it, and returns the lexeme together with the rest of its
spelling, which is as long as it can be.
-/

namespace Flattener

/-- The operators, the longest first. -/
def operators : List String :=
  ["<<=", ">>=", "...",
    "::", "->", "++", "--", "+=", "-=", "*=", "/=", "%=", "&=", "|=", "^=", "==", "!=", "<=",
    ">=", "&&", "||", "<<", ">>",
    "+", "-", "*", "/", "%", "&", "|", "^", "~", "!", "=", "<", ">",
    "(", ")", "[", "]", "\x7b", "\x7d", ";", ",", ":", ".", "?", "#"]

/-- The operators as characters. -/
def operatorTexts : List (List Char) :=
  operators.map String.toList

/-- ASCII letters and the underscore begin an identifier. -/
def isNameStart (c : Char) : Bool :=
  c.isAlpha || c = '_'

/-- Identifiers go on with letters, digits and underscores. -/
def isNameChar (c : Char) : Bool :=
  isNameStart c || c.isDigit

/-- The identifier that begins with a character. -/
def readIdentifier (first : Char) (text : List Char) : Lexeme × List Char :=
  let others := text.takeWhile isNameChar
  (.identifier (String.ofList (first :: others)), others)

/-- The longest operator that begins with a character. -/
def readOperator (first : Char) (text : List Char) : Except Flaw (Lexeme × List Char) :=
  match operatorTexts.find? (·.isPrefixOf (first :: text)) with
  | some spelling => .ok (.operator (String.ofList spelling), spelling.tail)
  | none => .error (.invalidCharacter first)

/-- The lexeme that begins with a character that no gap holds. -/
def readLexeme (first : Char) (text : List Char) : Except Flaw (Lexeme × List Char) :=
  if isNameStart first then .ok (readIdentifier first text)
  else if first.isDigit then readNumeral first text
  else if first = '"' ∨ first = '\'' then readLiteral first text
  else if first = '/' ∧ text.head? = some '*' then .error .openComment
  else readOperator first text

end Flattener
