/-!
# The nearest binary64 number

A ratio of natural numbers is rounded to the nearest number of the binary64
format, of two equally near ones to the one with an even significand. The
positive finite numbers of the format are `m * 2 ^ e` with `m < 2 ^ 53` and
`-1074 ≤ e ≤ 971`, and their bit patterns are in the same order as their values,
so that a carry out of the significand moves into the exponent by itself.
-/

namespace Flattener.Binary64

/-- The bits of infinity, to which every ratio beyond the format goes. -/
def infinityBits : Nat := 0x7ff0000000000000

/-- How many significands share an exponent, `2 ^ 52`. -/
def binade : Nat := 0x10000000000000

/-- The least exponent of the format. -/
def minExponent : Int := -1074

/-- The ratio rounded to an integer, a half to the even neighbour. -/
def roundHalfEven (num den : Nat) : Nat :=
  let quotient := num / den
  let rest := num % den
  if 2 * rest < den then quotient
  else if den < 2 * rest then quotient + 1
  else quotient + quotient % 2

/-- The numerator and denominator of `num / den / base ^ e`. -/
def scaled (base num den : Nat) (e : Int) : Nat × Nat :=
  (num * Nat.pow base (-e).toNat, den * Nat.pow base e.toNat)

/-- The greatest `k` with `2 ^ k ≤ num / den`, for a positive ratio. -/
def floorLog2 (num den : Nat) : Int :=
  let k : Int := num.log2 - den.log2
  let (n, d) := scaled 2 num den k
  if n < d then k - 1 else k

/-- The bits of the number nearest to `num / den`. -/
def nearest (num den : Nat) : Nat :=
  if num = 0 then 0
  else
    let e := max (floorLog2 num den - 52) minExponent
    let (n, d) := scaled 2 num den e
    min ((e - minExponent).toNat * binade + roundHalfEven n d) infinityBits

/-- The bits of the number nearest to `digits / 10 ^ places`. -/
def ofDecimal (digits places : Nat) : UInt64 :=
  (nearest digits (Nat.pow 10 places)).toUInt64

end Flattener.Binary64
