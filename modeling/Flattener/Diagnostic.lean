import Flattener.Location
import Flattener.Text.Blanks

/-!
# Diagnostics

Everything that can be wrong with a source text is a `Cause`, and a
`SyntaxError` is a cause together with where it was met. The wording of both is
here and nowhere else: `Cause.text` is the bare description, `Cause.hint` a
suggestion, and `SyntaxError.message` the block of lines shown to a reader,

    shapes.tcpp:5:12: error: unknown type 'Pont'
        Pont * origin;
        ^
    hint: declare 'Pont' with 'struct' or 'class' before using it

A location that a caller makes up may be too far right for an excerpt;
`SyntaxError.checked` refuses such an error.
-/

namespace Flattener

/-- What is wrong with a source text. -/
inductive Cause
  /-- A fault of any other kind, in the words of whoever found it. -/
  | general (text : String) (hint : Option String)
  /-- Text that is no lexeme, in the words of whoever found it. -/
  | lexical (text : String) (hint : Option String)
  /-- A comment over several lines without its end. -/
  | openComment
  /-- A numeral that ends behind the letter of its base. -/
  | missingDigits (letter : Char)
  /-- A backslash that ends the text. -/
  | openEscape
  /-- An escape that names a code point without giving it. -/
  | missingHexDigits
  /-- A literal without the text that closes it. -/
  | unterminated (quote : String)
  /-- A character that begins no lexeme. -/
  | invalidCharacter (char : Char)
  /-- A token that the current production does not allow. -/
  | unexpectedToken (found : String) (expected : Option String)
  /-- A name that stands where only a type may stand. -/
  | unknownType (name : String)
  /-- A type name that stands where a new name is declared. -/
  | typeAsName (name : String)
  /-- An array of no elements. -/
  | emptyArray
  /-- A negative literal where only an unsigned one is valid. -/
  | notUnsigned (value : Int)
  /-- A construct that the grammar does not cover. -/
  | unimplemented (construct : String)
  deriving DecidableEq, Repr

namespace Cause

/-- The code point of a character in upper-case hexadecimal, of at least two
    digits. -/
def codePoint (c : Char) : String :=
  let digits := (Nat.toDigits 16 c.toNat).map Char.toUpper
  String.ofList (List.replicate (2 - digits.length) '0' ++ digits)

/-- The bare description of a cause. -/
def text : Cause → String
  | .general text _ => text
  | .lexical text _ => text
  | .openComment => "unterminated multi-line comment"
  | .missingDigits letter => s!"expected digits after '0{letter}'"
  | .openEscape => "unexpected end of input in escape sequence"
  | .missingHexDigits => "expected hexadecimal digits after '\\x'"
  | .unterminated _ => "unterminated string literal"
  | .invalidCharacter c => s!"invalid character '{c}' (0x{codePoint c})"
  | .unexpectedToken found _ => s!"unexpected {found}"
  | .unknownType name => s!"unknown type '{name}'"
  | .typeAsName name => s!"type name '{name}' used as identifier"
  | .emptyArray => "array size must be positive"
  | .notUnsigned value => s!"expected unsigned integer, got {value}"
  | .unimplemented construct => s!"not implemented: {construct}"

/-- What to do about a cause, if there is something to suggest. An empty
    expectation suggests nothing. -/
def hint : Cause → Option String
  | .general _ hint => hint
  | .lexical _ hint => hint
  | .openComment => some "add closing */ to terminate the comment"
  | .unterminated quote => some s!"add closing {quote} to complete the literal"
  | .unexpectedToken _ (some expected) =>
    if expected = "" then none else some s!"expected {expected}"
  | .unknownType name => some s!"declare '{name}' with 'struct' or 'class' before using it"
  | _ => none

end Cause

/-- A cause and where it was met. -/
structure SyntaxError where
  cause : Cause
  location : Option Location
  /-- The fault is that the text stops too early. -/
  atEnd : Bool
  /-- The line of the text to show below the description. -/
  sourceLine : Option String
  deriving DecidableEq, Repr

namespace SyntaxError

/-- The lines that show where the error is: the source line, indented, and a
    caret below the column. Columns before the first have no caret. -/
def excerpt (e : SyntaxError) : List String :=
  match e.sourceLine, e.location with
  | some line, some location =>
    ("    " ++ line) ::
      (if 0 < location.column then
        [String.ofList (List.replicate (3 + location.column.toNat) ' ') ++ "^"]
      else [])
  | _, _ => []

/-- The full message: where and what, the excerpt, and the hint unless it is
    empty. -/
def message (e : SyntaxError) : String :=
  let headline := match e.location with
    | some location => s!"{location.text}: error: {e.cause.text}"
    | none => s!"error: {e.cause.text}"
  let advice := match e.cause.hint with
    | some hint => if hint = "" then [] else [s!"hint: {hint}"]
    | none => []
  "\n".intercalate (headline :: e.excerpt ++ advice)

/-- Why the excerpt cannot be shown, if it cannot: its caret would stand too far
    to the right. -/
def excerptFault (e : SyntaxError) : Option Fault :=
  match e.sourceLine, e.location with
  | some _, some location =>
    if 0 < location.column then Text.blanksFault 1 (location.column + 3) else none
  | _, _ => none

/-- An error of which the message can be shown. -/
def checked (e : SyntaxError) : Except Fault SyntaxError :=
  match e.excerptFault with
  | some fault => .error fault
  | none => .ok e

end SyntaxError

/-- Why an operation has no result. -/
inductive Failure
  | invalid (error : SyntaxError)
  | misuse (fault : Fault)
  deriving DecidableEq, Repr

/-- The message of a failure. -/
def Failure.message : Failure → String
  | .invalid error => error.message
  | .misuse fault => fault.text

end Flattener
