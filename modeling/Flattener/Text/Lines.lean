/-!
# Lines of a text

A text is cut at its line breaks, of which there are ten: the newline, the
carriage return, alone or with a newline behind it, and the vertical tab, form
feed, separator and paragraph characters of Unicode. A break ends its line, so
a text that ends with a break has no empty line behind it.
-/

namespace Flattener.Text

/-- The characters that end a line. -/
def lineBreaks : List Char :=
  ['\n', '\r', '\x0b', '\x0c', '\x1c', '\x1d', '\x1e', '\x85', '\u2028', '\u2029']

/-- The lines of a text, without their breaks. -/
def linesOf : List Char → List (List Char)
  | [] => []
  | '\r' :: '\n' :: rest => [] :: linesOf rest
  | c :: rest =>
    if c ∈ lineBreaks then [] :: linesOf rest
    else match linesOf rest with
      | [] => [[c]]
      | line :: others => (c :: line) :: others

/-- The lines of a text, without their breaks. -/
def splitLines (text : String) : List String :=
  (linesOf text.toList).map String.ofList

/-- Both other spellings of a line end, `\r\n` and `\r`, become `\n`. -/
def normalizeNewlines : List Char → List Char
  | [] => []
  | '\r' :: '\n' :: rest => '\n' :: normalizeNewlines rest
  | '\r' :: rest => '\n' :: normalizeNewlines rest
  | c :: rest => c :: normalizeNewlines rest

end Flattener.Text
