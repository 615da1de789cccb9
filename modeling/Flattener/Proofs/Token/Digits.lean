import Flattener.Proofs.Token.Conversion
import Mathlib.Data.Nat.Digits.Defs

/-!
# Numbers and how they are written

What a digit is worth is its place among all of them, the letters in either case
(`digitWorth`), and digits write a number in a base if they are the digits of that
number, the one of the lowest power last (`Writes`). A number can be written in base ten
without zeros in front, and in the bases sixteen, two and eight behind a mark of the
base (`NumeralOf`).

* `numeralValue_of_writes`: what is summed up from the first digit to the last one is
  the number that the digits write;
* `NumeralOf.stands`: a number is read of each of its numerals, in front of anything but
  a letter, a digit, an underscore and a point;
* `numeralOf_toDigits`: the digits in base ten that a number is printed with are one of
  its numerals.
-/

namespace Flattener

/-- The digits from zero to fifteen. -/
def digitForms : List (List Char) :=
  [['0'], ['1'], ['2'], ['3'], ['4'], ['5'], ['6'], ['7'], ['8'], ['9'],
    ['a', 'A'], ['b', 'B'], ['c', 'C'], ['d', 'D'], ['e', 'E'], ['f', 'F']]

/-- What a character is worth as a digit. What is no digit is worth sixteen, which is too
    much in every base. -/
def digitWorth (c : Char) : Nat :=
  digitForms.findIdx (c ∈ ·)

/-- The digits, of which there are some, write the number. -/
structure Writes (base : Nat) (digits : List Char) (n : Nat) : Prop where
  some : digits ≠ []
  all : ∀ d ∈ digits, digitWorth d < base
  value : Nat.ofDigits base (digits.map digitWorth).reverse = n

instance (base : Nat) (digits : List Char) (n : Nat) : Decidable (Writes base digits n) :=
  decidable_of_iff (digits ≠ [] ∧ digits.all (digitWorth · < base) = true ∧
      Nat.ofDigits base (digits.map digitWorth).reverse = n)
    ⟨fun ⟨hsome, hall, hvalue⟩ => ⟨hsome, by simpa using hall, hvalue⟩,
      fun h => ⟨h.some, by simpa using h.all, h.value⟩⟩

/-- The ways to write a number. -/
inductive NumeralOf (n : Nat) : List Char → Prop
  | decimal {digits : List Char} : Writes 10 digits n →
    (digits.head? = some '0' → digits = ['0']) → NumeralOf n digits
  | hexadecimal {letter : Char} {digits : List Char} : letter ∈ ['x', 'X'] →
    Writes 16 digits n → NumeralOf n ('0' :: letter :: digits)
  | binary {letter : Char} {digits : List Char} : letter ∈ ['b', 'B'] →
    Writes 2 digits n → NumeralOf n ('0' :: letter :: digits)
  | octal {digits : List Char} : Writes 8 digits n → NumeralOf n ('0' :: digits)

/-! ## Digits -/

variable {base n : Nat} {c : Char} {digits : List Char}

theorem mem_digitForms_of_isDigitOf (h : isDigitOf base c = true) : c ∈ digitForms.flatten := by
  -- each of the three ranges of digits is gone through by its distance from the first one
  have hrange (first last : Nat) (hforms : ∀ i < last - first + 1,
      Char.ofNat (first + i) ∈ digitForms.flatten) (hfirst : first ≤ c.toNat)
      (hlast : c.toNat ≤ last) : c ∈ digitForms.flatten := by
    have hmem := hforms (c.toNat - first) (by omega)
    rwa [Nat.add_sub_cancel' hfirst, Char.ofNat_toNat] at hmem
  rw [isDigitOf] at h
  split at h
  · next hdigit =>
    rw [Char.isDigit, Bool.and_eq_true, decide_eq_true_eq, decide_eq_true_eq] at hdigit
    exact hrange 48 57 (by decide) hdigit.1 hdigit.2
  split at h
  · next hlower => exact hrange 97 102 (by decide) hlower.1 hlower.2
  split at h
  · next hupper => exact hrange 65 70 (by decide) hupper.1 hupper.2
  · cases h

theorem digitWorth_lt_iff : digitWorth c < 16 ↔ c ∈ digitForms.flatten := by
  have hlength : digitForms.length = 16 := rfl
  rw [digitWorth, ← hlength, List.findIdx_lt_length, List.mem_flatten]
  simp

/-- A digit stands for what it is worth. -/
theorem digitValue_eq_digitWorth (h : digitWorth c < 16) : digitValue c = digitWorth c := by
  have hforms : digitForms.flatten.all (fun c => digitValue c = digitWorth c) = true := by decide
  exact of_decide_eq_true (List.all_eq_true.1 hforms c (digitWorth_lt_iff.1 h))

/-- Of what is a digit in base sixteen, the value tells whether it is one in another base. -/
theorem isDigitOf_eq_decide (h : isDigitOf 16 c = true) :
    isDigitOf base c = decide (digitValue c < base) := by
  rw [isDigitOf] at h ⊢
  rw [digitValue]
  split
  · rfl
  next hdigit =>
  rw [if_neg hdigit] at h
  split
  · rfl
  next hlower =>
  rw [if_neg hlower] at h
  split
  · rfl
  · next hupper =>
    rw [if_neg hupper] at h
    cases h

/-- The digits of a base are those that are worth less. -/
theorem isDigitOf_iff (hbase : base ≤ 16) : isDigitOf base c = true ↔ digitWorth c < base := by
  constructor
  · intro h
    rw [← digitValue_eq_digitWorth (digitWorth_lt_iff.2 (mem_digitForms_of_isDigitOf h))]
    exact digitValue_lt h
  · intro h
    have hworth : digitWorth c < 16 := Nat.lt_of_lt_of_le h hbase
    have hforms : digitForms.flatten.all (isDigitOf 16) = true := by decide
    have hdigit := List.all_eq_true.1 hforms c (digitWorth_lt_iff.1 hworth)
    rw [isDigitOf_eq_decide hdigit, decide_eq_true_eq, digitValue_eq_digitWorth hworth]
    exact h

theorem isDigitOf_eq_false_iff (hbase : base ≤ 16) :
    isDigitOf base c = false ↔ base ≤ digitWorth c := by
  rw [← Bool.not_eq_true, isDigitOf_iff hbase, Nat.not_lt]

theorem isNameChar_of_isDigitOf (h : isDigitOf base c = true) : isNameChar c = true := by
  have hforms : digitForms.flatten.all isNameChar = true := by decide
  exact List.all_eq_true.1 hforms c (mem_digitForms_of_isDigitOf h)

theorem isDigit_iff : c.isDigit = true ↔ digitWorth c < 10 := by
  rw [← isDigitOf_iff (by decide)]
  refine ⟨isDigitOf_ten_of_isDigit, fun h => ?_⟩
  have hforms : digitForms.flatten.all (fun c => !isDigitOf 10 c || c.isDigit) = true := by decide
  have hdigit := List.all_eq_true.1 hforms c (mem_digitForms_of_isDigitOf h)
  rwa [h] at hdigit

/-! ## Numbers -/

theorem numeralValue_eq_ofDigits (h : ∀ d ∈ digits, digitWorth d < 16) :
    numeralValue base digits = Nat.ofDigits base (digits.map digitWorth).reverse := by
  induction digits using List.reverseRecOn with
  | nil => rfl
  | append_singleton digits digit ih =>
    obtain ⟨hdigits, hdigit⟩ := List.forall_mem_append.1 h
    rw [numeralValue, List.foldl_append, ← numeralValue, ih hdigits, List.foldl_cons,
      List.foldl_nil, digitValue_eq_digitWorth (hdigit digit List.mem_cons_self),
      List.map_append, List.reverse_append, List.map_singleton, List.reverse_singleton,
      List.singleton_append, Nat.ofDigits_cons]
    simp only [Nat.mul_comm, Nat.add_comm]

/-- Digits have the value of the number that they write. -/
theorem numeralValue_of_writes (hbase : base ≤ 16) (h : Writes base digits n) :
    numeralValue base digits = n := by
  have hdigits : ∀ d ∈ digits, digitWorth d < 16 := fun d hd =>
    Nat.lt_of_lt_of_le (h.all d hd) hbase
  rw [numeralValue_eq_ofDigits hdigits, h.value]

/-! ## Numerals -/

section

variable {rest : List Char} (hrest : ∀ c ∈ rest.head?, isNameChar c = false ∧ c ≠ '.')
include hrest

/-- The digits of a number end where the text goes on with something else. -/
theorem takeWhile_of_writes (hbase : base ≤ 16) (h : Writes base digits n) :
    (digits ++ rest).takeWhile (isDigitOf base) = digits := by
  refine takeWhile_eq_iff.2 ⟨fun d hd => (isDigitOf_iff hbase).2 (h.all d hd), fun c hc => ?_⟩
  rw [Bool.eq_false_iff]
  exact fun hdigit => Bool.eq_false_iff.1 (hrest c hc).1 (isNameChar_of_isDigitOf hdigit)

theorem readPrefixed_of_writes (hbase : base ≤ 16) (h : Writes base digits n) (letter : Char) :
    readPrefixed base letter (digits ++ rest) =
      .ok (.integer (String.ofList ('0' :: letter :: digits)) n, letter :: digits) := by
  have hsome : digits.isEmpty = false := List.isEmpty_eq_false_iff.2 h.some
  rw [readPrefixed]
  simp only [takeWhile_of_writes hrest hbase h, hsome, numeralValue_of_writes hbase h]
  rfl

theorem readOctal_of_writes (h : Writes 8 digits n) :
    readOctal (digits ++ rest) = (.integer (String.ofList ('0' :: digits)) n, digits) := by
  rw [readOctal]
  simp only [takeWhile_of_writes hrest (by decide) h, numeralValue_of_writes (by decide) h]

theorem readDecimal_of_writes {first : Char} {others : List Char}
    (h : Writes 10 (first :: others) n) :
    readDecimal first (others ++ rest) =
      (.integer (String.ofList (first :: others)) n, others) := by
  have hrun : (others ++ rest).takeWhile Char.isDigit = others := by
    refine takeWhile_eq_iff.2 ⟨fun d hd => isDigit_iff.2 (h.all d (List.mem_cons_of_mem _ hd)), ?_⟩
    intro c hc
    rw [Bool.eq_false_iff]
    exact fun hdigit => Bool.eq_false_iff.1 (hrest c hc).1 (isNameChar_of_isDigit hdigit)
  have hpoint : ∀ tail, rest ≠ '.' :: tail := by
    rintro tail rfl
    exact (hrest '.' rfl).2 rfl
  rw [readDecimal]
  simp only [hrun, List.drop_left', numeralValue_of_writes (by decide) h]

/-- Of a numeral, the number is read. -/
theorem readNumeral_of_numeralOf {first : Char} {others : List Char}
    (h : NumeralOf n (first :: others)) : first.isDigit = true ∧
    readNumeral first (others ++ rest) =
      .ok (.integer (String.ofList (first :: others)) n, others) := by
  generalize hspelling : first :: others = spelling at h
  cases h with
  | decimal hwrites hzeros =>
    subst hspelling
    refine ⟨isDigit_iff.2 (hwrites.all first List.mem_cons_self), ?_⟩
    rw [readNumeral_eq_readDecimal, readDecimal_of_writes hrest hwrites]
    -- behind a zero in front there is nothing more of the number
    rintro rfl c hc
    obtain rfl : others = [] := (List.cons.inj (hzeros rfl)).2
    have hname := (hrest c hc).1
    refine ⟨fun hmem => ?_, ?_⟩
    · have hletters : ['x', 'X', 'b', 'B'].all isNameChar = true := by decide
      exact Bool.eq_false_iff.1 hname (List.all_eq_true.1 hletters c hmem)
    · exact Bool.eq_false_iff.2 fun hdigit =>
        Bool.eq_false_iff.1 hname (isNameChar_of_isDigitOf hdigit)
  | @hexadecimal letter digits hletter hwrites =>
    cases hspelling
    refine ⟨rfl, ?_⟩
    have hx : letter = 'x' ∨ letter = 'X' := by simpa using hletter
    rw [List.cons_append, readNumeral_zero, if_pos hx,
      readPrefixed_of_writes hrest (by decide) hwrites]
  | @binary letter digits hletter hwrites =>
    cases hspelling
    refine ⟨rfl, ?_⟩
    have hb : letter = 'b' ∨ letter = 'B' := by simpa using hletter
    have hx : ¬(letter = 'x' ∨ letter = 'X') := by
      rcases hb with rfl | rfl
      · decide
      · decide
    rw [List.cons_append, readNumeral_zero, if_neg hx, if_pos hb,
      readPrefixed_of_writes hrest (by decide) hwrites]
  | @octal digits hwrites =>
    cases hspelling
    refine ⟨rfl, ?_⟩
    obtain ⟨d, digits, rfl⟩ := List.exists_cons_of_ne_nil hwrites.some
    have hdigit : isDigitOf 8 d = true :=
      (isDigitOf_iff (by decide)).2 (hwrites.all d List.mem_cons_self)
    have hletter : d ∉ ['x', 'X', 'b', 'B'] := by
      have hnone : ['x', 'X', 'b', 'B'].any (isDigitOf 8) = false := by decide
      exact fun hmem => List.any_eq_false.1 hnone d hmem hdigit
    simp only [List.mem_cons, List.not_mem_nil, or_false, not_or] at hletter
    obtain ⟨hx, hX, hb, hB⟩ := hletter
    rw [List.cons_append, readNumeral_zero, if_neg (not_or.2 ⟨hx, hX⟩), if_neg (not_or.2 ⟨hb, hB⟩),
      if_pos hdigit, ← List.cons_append, readOctal_of_writes hrest hwrites]

/-- A number stands in any of its spellings. -/
theorem NumeralOf.stands {spelling : List Char} (h : NumeralOf n spelling) :
    (Lexeme.integer (String.ofList spelling) n).Stands rest := by
  obtain ⟨first, others, rfl⟩ : ∃ first others, spelling = first :: others := by
    cases h with
    | decimal hwrites _ => exact List.exists_cons_of_ne_nil hwrites.some
    | hexadecimal | binary | octal => exact ⟨_, _, rfl⟩
  obtain ⟨hdigit, hread⟩ := readNumeral_of_numeralOf hrest h
  obtain ⟨hslash, hblank⟩ := ne_slash_of_isNameChar (isNameChar_of_isDigit hdigit)
  refine ⟨first, others, String.toList_ofList, gapLength_eq_zero hslash hblank _, ?_⟩
  rw [readLexeme, isNameStart_eq_false_of_isDigit hdigit, if_neg Bool.false_ne_true, if_pos hdigit,
    hread]

end

/-! ## Numbers in base ten -/

/-- The digits that a number is written with are worth the number. -/
theorem numeralValue_toDigits (n : Nat) : numeralValue 10 (Nat.toDigits 10 n) = n := by
  have hvalue : ∀ digits : List Char, (∀ c ∈ digits, c.isDigit = true) → ∀ value,
      digits.foldl (fun value digit => value * 10 + digitValue digit) value =
        Nat.ofDigitChars 10 digits value := by
    intro digits
    induction digits with
    | nil => intro _ value; rfl
    | cons c digits ih =>
      intro hdigits value
      obtain ⟨hc, hdigits⟩ := List.forall_mem_cons.1 hdigits
      rw [List.foldl_cons, ih hdigits, Nat.ofDigitChars_cons, digitValue, if_pos hc, Nat.mul_comm]
  rw [numeralValue, hvalue _ (fun c => Nat.isDigit_of_mem_toDigits (by decide) (by decide)),
    Nat.ofDigitChars_ten_toDigits]

/-- Only zero is written with a leading zero. -/
theorem eq_zero_of_head?_toDigits {n : Nat} (h : (Nat.toDigits 10 n).head? = some '0') : n = 0 := by
  induction n using Nat.strong_induction_on with
  | h n ih =>
    by_cases hlt : n < 10
    · rw [Nat.toDigits_of_lt_base hlt] at h
      have hall : ∀ n < 10, n.digitChar = '0' → n = 0 := by decide
      exact hall n hlt (Option.some.inj h)
    · rw [Nat.toDigits_of_base_le (by decide) (Nat.le_of_not_lt hlt),
        List.head?_append] at h
      obtain ⟨first, others, hdigits⟩ :=
        List.exists_cons_of_ne_nil (Nat.toDigits_ne_nil (n := n / 10) (b := 10))
      rw [hdigits] at h
      have hzero := ih (n / 10) (by omega) (by rw [hdigits]; exact h)
      omega

/-- What a number is written with is a numeral of it. -/
theorem numeralOf_toDigits (n : Nat) : NumeralOf n (Nat.toDigits 10 n) := by
  have hall : ∀ d ∈ Nat.toDigits 10 n, digitWorth d < 10 := fun d hd =>
    isDigit_iff.1 (Nat.isDigit_of_mem_toDigits (by decide) (by decide) hd)
  refine .decimal ⟨Nat.toDigits_ne_nil, hall, ?_⟩ fun hhead => ?_
  · rw [← numeralValue_eq_ofDigits fun d hd => Nat.lt_of_lt_of_le (hall d hd) (by decide),
      numeralValue_toDigits]
  · rw [eq_zero_of_head?_toDigits hhead, Nat.toDigits_zero]

end Flattener
