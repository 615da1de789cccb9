import Flattener.Token
import Flattener.Text.Quoted
import Flattener.Binary64.Shortest

/-!
# Tokens on display

One line that shows a token to a reader: its category, its value and its place.
-/

namespace Flattener

/-- The value of a lexeme as shown to a reader; the end of input has none. -/
def Lexeme.shownValue? : Lexeme → Option String
  | .endOfInput => none
  | .identifier name => some (Text.quoted name)
  | .integer _ value => some (toString value)
  | .double _ bits => some (Binary64.text bits)
  | .string _ contents => some (Text.quoted contents)
  | .char _ contents => some (Text.quoted contents)
  | .operator spelling => some (Text.quoted spelling)

/-- A token on display, such as `Token(INTEGER, 8, 1:12)`. -/
def Token.display (t : Token) : String :=
  let place := s!"{t.location.line}:{t.location.column}"
  match t.lexeme.shownValue? with
  | some value => s!"Token({t.kind.name}, {value}, {place})"
  | none => s!"Token({t.kind.name}, {place})"

end Flattener
