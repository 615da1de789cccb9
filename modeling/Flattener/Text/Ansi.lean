/-!
# Terminal styles

A terminal is told how to show text by control sequences: an escape character
and `[`, then parameter characters, intermediate characters and one final
character. A style is such a sequence before a text and another one behind it
that ends it. `stripSequences` takes every control sequence out of a text.
-/

namespace Flattener.Text

/-- The character that begins a control sequence. -/
def escape : Char := '\x1b'

/-- A control sequence that sets the given graphic rendition codes. -/
def rendition (codes : List Nat) : String :=
  String.join (codes.map fun code => s!"{escape}[{code}m")

/-- A text between the sequences that set the codes and the one that resets
    them. -/
def styled (codes : List Nat) (text : String) : String :=
  rendition codes ++ text ++ rendition [0]

/-- A character of the numbers in a control sequence, which come first. -/
def isParameterChar (c : Char) : Bool :=
  '0' ≤ c && c ≤ '?'

/-- A character in front of the last one of a control sequence. -/
def isIntermediateChar (c : Char) : Bool :=
  ' ' ≤ c && c ≤ '/'

/-- A character that ends a control sequence. -/
def isFinalChar (c : Char) : Bool :=
  '@' ≤ c && c ≤ '~'

/-- How many characters of a text a control sequence takes behind its escape
    and bracket, if there is a whole one. -/
def sequenceLength? (text : List Char) : Option Nat :=
  let parameters := text.takeWhile isParameterChar
  let others := (text.drop parameters.length).takeWhile isIntermediateChar
  match text.drop (parameters.length + others.length) with
  | c :: _ => if isFinalChar c then some (parameters.length + others.length + 1) else none
  | [] => none

/-- A text without its control sequences. An escape that begins none stays. -/
def stripChars : List Char → List Char
  | [] => []
  | c :: '[' :: text =>
    if c = escape then
      match sequenceLength? text with
      | some n => stripChars (text.drop n)
      | none => c :: stripChars ('[' :: text)
    else c :: stripChars ('[' :: text)
  | c :: text => c :: stripChars text
  termination_by text => text.length

/-- A text without its control sequences. -/
def stripSequences (text : String) : String :=
  String.ofList (stripChars text.toList)

end Flattener.Text
