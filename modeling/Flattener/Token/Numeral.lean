import Flattener.Token
import Flattener.Token.Flaw
import Flattener.Binary64.Nearest

/-!
# Numerals

Numbers are written in base ten, in base sixteen and two behind a `0x` or `0b`
of either case, and in base eight behind a zero. A decimal numeral with a point
and digits on both sides of it is a fraction. Every numeral is as long as it
can be.

A reader takes the first character of a numeral and the text behind it, and
returns the lexeme together with the rest of its spelling.
-/

namespace Flattener

/-- The digits of a base up to sixteen, of either case. -/
def isDigitOf (base : Nat) (c : Char) : Bool :=
  if c.isDigit then c.toNat - '0'.toNat < base
  else if 'a' ≤ c ∧ c ≤ 'f' then c.toNat - 'a'.toNat + 10 < base
  else if 'A' ≤ c ∧ c ≤ 'F' then c.toNat - 'A'.toNat + 10 < base
  else false

/-- What a digit stands for; a character that is none stands for zero. -/
def digitValue (c : Char) : Nat :=
  if c.isDigit then c.toNat - '0'.toNat
  else if 'a' ≤ c ∧ c ≤ 'f' then c.toNat - 'a'.toNat + 10
  else if 'A' ≤ c ∧ c ≤ 'F' then c.toNat - 'A'.toNat + 10
  else 0

/-- The number that digits write, the most significant first. -/
def numeralValue (base : Nat) (digits : List Char) : Nat :=
  digits.foldl (fun value digit => value * base + digitValue digit) 0

/-- A numeral `0x…` or `0b…` behind its zero: the letter and the digits. -/
def readPrefixed (base : Nat) (letter : Char) (text : List Char) :
    Except Flaw (Lexeme × List Char) :=
  let digits := text.takeWhile (isDigitOf base)
  if digits.isEmpty then
    .error (.broken (.missingDigits letter) ['0', letter])
  else
    .ok (.integer (String.ofList ('0' :: letter :: digits)) (numeralValue base digits),
      letter :: digits)

/-- A numeral in base eight, behind its leading zero. -/
def readOctal (text : List Char) : Lexeme × List Char :=
  let digits := text.takeWhile (isDigitOf 8)
  (.integer (String.ofList ('0' :: digits)) (numeralValue 8 digits), digits)

/-- A numeral in base ten, with its fraction if it has one. -/
def readDecimal (first : Char) (text : List Char) : Lexeme × List Char :=
  let digits := text.takeWhile Char.isDigit
  let whole := first :: digits
  match text.drop digits.length with
  | '.' :: rest =>
    let fraction := rest.takeWhile Char.isDigit
    if fraction.isEmpty then
      (.integer (String.ofList whole) (numeralValue 10 whole), digits)
    else
      (.double (String.ofList (whole ++ '.' :: fraction))
        (Binary64.ofDecimal (numeralValue 10 (whole ++ fraction)) fraction.length),
        digits ++ '.' :: fraction)
  | _ => (.integer (String.ofList whole) (numeralValue 10 whole), digits)

/-- The numeral that begins with a digit. -/
def readNumeral (first : Char) (text : List Char) : Except Flaw (Lexeme × List Char) :=
  match first, text with
  | '0', c :: rest =>
    if c = 'x' ∨ c = 'X' then readPrefixed 16 c rest
    else if c = 'b' ∨ c = 'B' then readPrefixed 2 c rest
    else if isDigitOf 8 c then .ok (readOctal text)
    else .ok (readDecimal first text)
  | _, _ => .ok (readDecimal first text)

end Flattener
