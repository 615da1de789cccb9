import Flattener.Binary64.Nearest

/-!
# The shortest decimal of a binary64 number

A number is written with the fewest decimal digits that read back as the same
number, and of those decimals with the nearest one. For each count of digits
the two decimals next to the number are tried; seventeen digits always suffice.
-/

namespace Flattener.Binary64

/-- The value of finite bits as a ratio: numerator and denominator. -/
def ratio (bits : Nat) : Nat × Nat :=
  let exponent : Nat := bits / binade
  let fraction : Nat := bits % binade
  if exponent = 0 then scaled 2 fraction 1 (-minExponent)
  else scaled 2 (binade + fraction) 1 (1 - minExponent - exponent)

/-- The least `k` with `num / den < 10 ^ k`, for a positive ratio. -/
def decimalPoint (num den : Nat) : Int :=
  let k : Int := (Nat.toDigits 10 num).length - (Nat.toDigits 10 den).length
  let (n, d) := scaled 10 num den k
  if n < d then k else k + 1

/-- Of the two multiples of `10 ^ e` around the number, the nearest that reads
    back as the bits. -/
def readsBack? (bits num den : Nat) (e : Int) : Option Nat :=
  let (n, d) := scaled 10 num den e
  let below := n / d
  let fits := [below, below + 1].filter fun m =>
    let (n, d) := scaled 10 m 1 (-e)
    nearest n d = bits
  match fits with
  | [m, _] => some (if roundHalfEven n d = m then m else m + 1)
  | [m] => some m
  | _ => none

/-- A decimal `0.d₁d₂… * 10 ^ point` whose last digit is not zero. -/
structure Decimal where
  digits : List Char
  point : Int
  deriving DecidableEq, Repr

/-- The decimal of a natural number times a power of ten. -/
def Decimal.ofNat (m : Nat) (e : Int) : Decimal :=
  let digits := Nat.toDigits 10 m
  ⟨(digits.reverse.dropWhile (· = '0')).reverse, digits.length + e⟩

/-- The shortest decimal of a positive finite number. -/
def shortest (bits : Nat) : Decimal :=
  let (num, den) := ratio bits
  let point := decimalPoint num den
  let found := (List.range 17).findSome? fun (count : Nat) =>
    let e : Int := point - (count + 1)
    (readsBack? bits num den e).map fun m => Decimal.ofNat m e
  found.getD ⟨[], point⟩

/-- A decimal in positional notation, with at least one digit on each side of
    the point. -/
def Decimal.positional (d : Decimal) : List Char :=
  let whole := d.digits.take d.point.toNat
  let fraction := d.digits.drop d.point.toNat
  let padding := List.replicate (d.point.toNat - d.digits.length) '0'
  (if whole.isEmpty then ['0'] else whole ++ padding) ++ '.' ::
    (if fraction.isEmpty then ['0'] else List.replicate (-d.point).toNat '0' ++ fraction)

/-- A decimal with one digit before the point and an exponent of at least two
    digits behind it. -/
def Decimal.scientific (d : Decimal) : List Char :=
  let exponent := d.point - 1
  let digits := Nat.toDigits 10 exponent.natAbs
  let mantissa := match d.digits with
    | [] => ['0']
    | [digit] => [digit]
    | digit :: others => digit :: '.' :: others
  mantissa ++ 'e' :: (if exponent < 0 then '-' else '+') ::
    (List.replicate (2 - digits.length) '0' ++ digits)

/-- The text of a nonnegative number: positional if the first digit stands for
    a power of ten from -4 to 15, with an exponent otherwise. -/
def text (bits : UInt64) : String :=
  let bits := bits.toNat
  if bits = 0 then "0.0"
  else if infinityBits ≤ bits then "inf"
  else
    let d := shortest bits
    String.ofList (if -4 < d.point ∧ d.point ≤ 16 then d.positional else d.scientific)

end Flattener.Binary64
