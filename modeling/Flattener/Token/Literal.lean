import Flattener.Token
import Flattener.Token.Flaw
import Flattener.Token.Numeral

/-!
# String and character literals

A literal stands on one line between two quotes of one kind. A backslash
begins an escape: a letter for a control character, `x` and one or two
hexadecimal digits, one to three octal digits taken modulo 256, or any other
character for itself, a quote or a newline included.
-/

namespace Flattener

/-- The characters that stand for another one behind a backslash. -/
def namedEscape (c : Char) : Char :=
  match c with
  | 'n' => '\n'
  | 'r' => '\r'
  | 't' => '\t'
  | 'b' => '\x08'
  | 'f' => '\x0c'
  | 'v' => '\x0b'
  | 'a' => '\x07'
  | c => c

/-- The character that an escape stands for, and how many characters behind
    the backslash it takes. -/
def readEscape : List Char → Except Flaw (Char × Nat)
  | [] => .error (.broken .openEscape [])
  | 'x' :: rest =>
    let digits := (rest.take 2).takeWhile (isDigitOf 16)
    if digits.isEmpty then .error (.broken .missingHexDigits ['x'])
    else .ok (Char.ofNat (numeralValue 16 digits), 1 + digits.length)
  | c :: rest =>
    let digits := ((c :: rest).take 3).takeWhile (isDigitOf 8)
    if digits.isEmpty then .ok (namedEscape c, 1)
    else .ok (Char.ofNat (numeralValue 8 digits % 256), digits.length)

/-- One more character of a literal, in front of what was read behind it. -/
def prependElement (value : Char) (text : List Char) :
    Except Flaw (List Char × List Char) → Except Flaw (List Char × List Char)
  | .ok (contents, spelling) => .ok (value :: contents, text ++ spelling)
  | .error flaw => .error (flaw.after text)

/-- The contents of a literal behind its opening quote, and their spelling
    together with the closing quote. -/
def readContents (quote : Char) : List Char → Except Flaw (List Char × List Char)
  | [] => .error (.unterminated quote [])
  | c :: rest =>
    if c = quote then .ok ([], [c])
    else if c = '\n' then .error (.unterminated quote [])
    else if c = '\\' then
      match readEscape rest with
      | .error flaw => .error (flaw.after [c])
      | .ok (value, length) =>
        prependElement value (c :: rest.take length)
          (readContents quote (rest.drop length))
    else prependElement c [c] (readContents quote rest)
  termination_by text => text.length

/-- The literal that begins with a quote: a string between double quotes, a
    character between single ones. -/
def readLiteral (quote : Char) (text : List Char) : Except Flaw (Lexeme × List Char) :=
  match readContents quote text with
  | .error flaw => .error (flaw.after [quote])
  | .ok (contents, spelling) =>
    let whole := String.ofList (quote :: spelling)
    let value := String.ofList contents
    .ok (if quote = '"' then .string whole value else .char whole value, spelling)

end Flattener
