/-!
# Faults

A `Fault` is a misuse of the library, which no source text is by itself. Positions
and sizes are integers of any size where they are asked for, and of 64 bits with
a sign where they are used (`fitsWord`).
-/

namespace Flattener

/-- The integer is one of 64 bits with a sign. -/
def fitsWord (n : Int) : Bool :=
  -9223372036854775808 ≤ n && n < 9223372036854775808

/-- A misuse of the library. -/
inductive Fault
  /-- A list of tokens that does not end with the end of input. -/
  | noEndToken
  /-- A rollback to a length that the history does not have. -/
  | rollback (target : Int) (length : Nat)
  /-- A namespace is left where none was entered. -/
  | emptyStack
  /-- A position outside of a list. -/
  | outOfRange
  /-- A position that is outside of every list. -/
  | noPosition
  /-- A stretch of blanks that is wider than any number of characters. -/
  | tooWide
  /-- A parse took more rounds than it has tokens. -/
  | exhausted
  deriving DecidableEq, Repr

/-- The description of a misuse. -/
def Fault.text : Fault → String
  | .noEndToken => "token list must end with an EOF token"
  | .rollback target length => s!"cannot roll back to {target}, history has {length} entries"
  | .emptyStack => "pop from empty list"
  | .outOfRange => "list index out of range"
  | .noPosition => "cannot fit 'int' into an index-sized integer"
  | .tooWide => "cannot fit 'int' into an index-sized integer"
  | .exhausted => "the parse did not advance"

end Flattener
