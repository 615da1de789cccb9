/-!
# Gaps between lexemes

Lexemes are separated by blanks and comments. A line comment reaches to the end
of its line, without the newline, and a block comment to the first `*/` behind
its opening. A gap is as long as it can be, but it stops before a block comment
that has no end.
-/

namespace Flattener

/-- Space, tab, newline, carriage return, form feed and vertical tab. -/
def isBlank (c : Char) : Bool :=
  c ∈ [' ', '\t', '\n', '\r', '\x0c', '\x0b']

/-- How many characters of a text a line comment takes behind its opening. -/
def lineCommentLength (text : List Char) : Nat :=
  (text.takeWhile (· ≠ '\n')).length

/-- How many characters of a text a block comment takes behind its opening,
    the closing `*/` included, if there is one. -/
def blockCommentLength? : List Char → Option Nat
  | [] => none
  | '*' :: '/' :: _ => some 2
  | _ :: rest => (blockCommentLength? rest).map (· + 1)

/-- How many characters at the head of a text are blanks and comments. -/
def gapLength : List Char → Nat
  | [] => 0
  | '/' :: '/' :: rest =>
    let n := lineCommentLength rest
    2 + n + gapLength (rest.drop n)
  | '/' :: '*' :: rest =>
    match blockCommentLength? rest with
    | some n => 2 + n + gapLength (rest.drop n)
    | none => 0
  | c :: rest => if isBlank c then 1 + gapLength rest else 0
  termination_by text => text.length

end Flattener
