/-!
# Source locations

A location names a character of a source text by file, line and column. Lines
and columns count from one in every text that is read; a location that a
caller makes up may hold any integers.
-/

namespace Flattener

/-- A place in a source text. -/
structure Location where
  file : String
  line : Int
  column : Int
  deriving DecidableEq, Repr, Inhabited

namespace Location

/-- A location is written `file:line:column`. -/
def text (l : Location) : String :=
  s!"{l.file}:{l.line}:{l.column}"

/-- The location after the character `c`: a newline ends its line, and every
    other character takes one column. -/
def after (l : Location) (c : Char) : Location :=
  if c = '\n' then { l with line := l.line + 1, column := 1 }
  else { l with column := l.column + 1 }

end Location

end Flattener
