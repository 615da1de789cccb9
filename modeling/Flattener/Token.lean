import Flattener.Location

/-!
# Tokens

A `Lexeme` is what a stretch of source text says: its kind, its exact spelling
and, for a literal, its value. A `Token` is a lexeme and the location of its
first character. Keywords are identifiers with a reserved spelling
(`keywords`); a `Name` is an identifier that is none.
-/

namespace Flattener

/-- The reserved identifiers. -/
def keywords : List String :=
  ["break", "case", "cast", "const", "continue", "default", "do", "else", "enum", "extern",
    "for", "goto", "if", "return", "signed", "sizeof", "static", "struct", "switch", "typedef",
    "union", "unsigned", "while",
    "namespace", "class", "trait", "virtual", "override", "public", "private", "protected"]

/-- The lexical categories. -/
inductive Kind
  | endOfInput
  | identifier
  | integer
  | double
  | string
  | char
  | operator
  deriving DecidableEq, Repr

/-- The name of a category, in capitals. -/
def Kind.name : Kind → String
  | .endOfInput => "EOF"
  | .identifier => "IDENTIFIER"
  | .integer => "INTEGER"
  | .double => "DOUBLE"
  | .string => "STRING"
  | .char => "CHAR"
  | .operator => "OPERATOR"

/-- The category of a given name. -/
def Kind.ofName? (name : String) : Option Kind :=
  [endOfInput, identifier, integer, double, string, char, operator].find? (·.name = name)

/-- A unit of source text. -/
inductive Lexeme
  | endOfInput
  | identifier (name : String)
  | integer (spelling : String) (value : Nat)
  /-- The value of a decimal fraction is kept as the bits of the nearest
      binary64 number. -/
  | double (spelling : String) (bits : UInt64)
  | string (spelling : String) (contents : String)
  | char (spelling : String) (contents : String)
  | operator (spelling : String)
  deriving DecidableEq, Repr

namespace Lexeme

/-- The kind of a lexeme. -/
def kind : Lexeme → Kind
  | .endOfInput => .endOfInput
  | .identifier _ => .identifier
  | .integer _ _ => .integer
  | .double _ _ => .double
  | .string _ _ => .string
  | .char _ _ => .char
  | .operator _ => .operator

/-- The exact source text of a lexeme; the end of input has none. -/
def spelling : Lexeme → String
  | .endOfInput => ""
  | .identifier name => name
  | .integer spelling _ => spelling
  | .double spelling _ => spelling
  | .string spelling _ => spelling
  | .char spelling _ => spelling
  | .operator spelling => spelling

end Lexeme

/-- A lexeme and where it begins. -/
structure Token where
  lexeme : Lexeme
  location : Location
  deriving DecidableEq, Repr

/-- An identifier that is no keyword, and where it stands. -/
structure Name where
  text : String
  location : Location
  deriving DecidableEq, Repr

/-- The token of which a name was read. -/
def Name.token (n : Name) : Token :=
  ⟨.identifier n.text, n.location⟩

namespace Token

/-- The end of input, met at a location. -/
def ending (location : Location) : Token :=
  ⟨.endOfInput, location⟩

/-- The kind of a token. -/
def kind (t : Token) : Kind :=
  t.lexeme.kind

/-- The exact source text of a token. -/
def text (t : Token) : String :=
  t.lexeme.spelling

/-- The token is the end of input. -/
def isEnd (t : Token) : Bool :=
  t.kind = .endOfInput

/-- The token is an operator with one of the spellings. -/
def isOperator (t : Token) (spellings : List String) : Bool :=
  match t.lexeme with
  | .operator spelling => spelling ∈ spellings
  | _ => false

/-- The token is one of the given keywords. A name that is not reserved is
    never one. -/
def isKeyword (t : Token) (names : List String) : Bool :=
  match t.lexeme with
  | .identifier name => name ∈ names ∧ name ∈ keywords
  | _ => false

/-- The name that a token is, if it is an identifier and no keyword. -/
def name? (t : Token) : Option Name :=
  match t.lexeme with
  | .identifier name => if name ∈ keywords then none else some ⟨name, t.location⟩
  | _ => none

/-- How a message speaks of a token. -/
def describe (t : Token) : String :=
  if t.isEnd then "end of input" else s!"'{t.text}'"

end Token

end Flattener
