import Flattener.Text.Printable

/-!
# Quoted text

A text in quotes, on one line, in which no character without a shape of its own
stands for itself. The quote is the single one, unless the text holds single
quotes and no double one.
-/

namespace Flattener.Text

/-- The quote that needs the fewest escapes. -/
def quoteFor (text : List Char) : Char :=
  if '\'' ∈ text ∧ '"' ∉ text then '"' else '\''

/-- The lowest digits of a number in lower-case hexadecimal. -/
def hexDigits (n : Nat) : Nat → List Char
  | 0 => []
  | count + 1 => hexDigits (n / 16) count ++ [Nat.digitChar (n % 16)]

/-- A code point behind a letter that tells how many digits it has: two, four or
    eight. -/
def codeEscape (n : Nat) : List Char :=
  if n < 0x100 then '\\' :: 'x' :: hexDigits n 2
  else if n < 0x10000 then '\\' :: 'u' :: hexDigits n 4
  else '\\' :: 'U' :: hexDigits n 8

/-- How a character is written between the given quotes. -/
def escapeChar (quote c : Char) : List Char :=
  if c = quote ∨ c = '\\' then ['\\', c]
  else if c = '\n' then ['\\', 'n']
  else if c = '\r' then ['\\', 'r']
  else if c = '\t' then ['\\', 't']
  else if isUnprintable c then codeEscape c.toNat
  else [c]

/-- A text in quotes. -/
def quoted (text : String) : String :=
  let quote := quoteFor text.toList
  String.ofList (quote :: text.toList.flatMap (escapeChar quote) ++ [quote])

end Flattener.Text
