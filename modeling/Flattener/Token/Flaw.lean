import Flattener.Diagnostic

/-!
# Flaws of a source text

What stops the reading of a lexeme. A flaw knows the characters read so far,
from the first one of the lexeme on, and not where that lexeme stands.
-/

namespace Flattener

/-- Why no lexeme can be read. -/
inductive Flaw
  /-- A lexeme breaks off where the reading stopped, for the given cause. -/
  | broken (cause : Cause) (read : List Char)
  /-- The closing quote of a literal is missing where the reading stopped. -/
  | unterminated (quote : Char) (read : List Char)
  /-- No lexeme begins with the character. -/
  | invalidCharacter (c : Char)
  /-- A block comment has no end. -/
  | openComment
  deriving DecidableEq, Repr

namespace Flaw

/-- The same flaw, met after more text of the lexeme. -/
def after (text : List Char) : Flaw → Flaw
  | .broken cause read => .broken cause (text ++ read)
  | .unterminated quote read => .unterminated quote (text ++ read)
  | flaw => flaw

/-- How many characters of the lexeme were read. -/
def readLength : Flaw → Nat
  | .broken _ read => read.length
  | .unterminated _ read => read.length
  | _ => 0

/-- The cause that a flaw is reported with. -/
def cause : Flaw → Cause
  | .broken cause _ => cause
  | .unterminated quote _ => .unterminated quote.toString
  | .invalidCharacter c => .invalidCharacter c
  | .openComment => .openComment

end Flaw

end Flattener
