import Flattener.Proofs.Token.Standing
import Mathlib.Algebra.Group.Nat.Defs
import Mathlib.Data.List.Induction

/-!
# Digits that are converted

Every number that is read is the value of digits, of which there is at least one and
none that is not of the base (`Lexeme.Converts`): decimal ones, those behind a zero or
behind a prefix, or decimal ones on both sides of a point. An escape that is written
with digits stands for a character of one byte (`EscapeConverts`). So there is no
literal that is read and has no value.
-/

namespace Flattener

/-- There are digits, and all of them are digits of the base. -/
structure DigitsOf (base : Nat) (digits : List Char) : Prop where
  some : digits ≠ []
  all : ∀ d ∈ digits, isDigitOf base d = true

/-- A number has the value that its digits have. -/
inductive Lexeme.Converts : Lexeme → Prop
  | decimal {digits : List Char} : DigitsOf 10 digits →
    Converts (.integer (String.ofList digits) (numeralValue 10 digits))
  | octal {digits : List Char} : DigitsOf 8 digits →
    Converts (.integer (String.ofList ('0' :: digits)) (numeralValue 8 digits))
  | prefixed {base : Nat} {letter : Char} {digits : List Char} : DigitsOf base digits →
    base = 16 ∧ letter ∈ ['x', 'X'] ∨ base = 2 ∧ letter ∈ ['b', 'B'] →
    Converts (.integer (String.ofList ('0' :: letter :: digits)) (numeralValue base digits))
  | fraction {whole fraction : List Char} : DigitsOf 10 whole → DigitsOf 10 fraction →
    Converts (.double (String.ofList (whole ++ '.' :: fraction))
      (Binary64.ofDecimal (numeralValue 10 (whole ++ fraction)) fraction.length))
  | other {l : Lexeme} : l.kind ≠ .integer → l.kind ≠ .double → Converts l

/-- What stands behind a backslash at the head of a text has a value: the digits of a
    number of one byte, or a character without any. -/
inductive EscapeConverts : List Char → Char → Prop
  | hexadecimal {digits rest : List Char} {value : Char} : DigitsOf 16 digits →
    value.toNat = numeralValue 16 digits → value.toNat < 256 →
    EscapeConverts ('x' :: (digits ++ rest)) value
  | octal {digits rest : List Char} {value : Char} : DigitsOf 8 digits →
    value.toNat = numeralValue 8 digits % 256 → EscapeConverts (digits ++ rest) value
  | named {c : Char} {rest : List Char} : c ≠ 'x' → isDigitOf 8 c = false →
    EscapeConverts (c :: rest) (namedEscape c)

/-! ## Numbers -/

section

variable {first : Char} {text others : List Char} {l : Lexeme}

theorem isDigitOf_ten_of_isDigit {c : Char} (h : c.isDigit = true) : isDigitOf 10 c = true := by
  rw [isDigitOf, if_pos h, decide_eq_true_eq]
  rw [Char.isDigit, Bool.and_eq_true, decide_eq_true_eq, decide_eq_true_eq] at h
  have hnine : c.toNat ≤ '0'.toNat + 9 := h.2
  omega

theorem digitsOf_takeWhile {base : Nat} (h : text.takeWhile (isDigitOf base) ≠ []) :
    DigitsOf base (text.takeWhile (isDigitOf base)) :=
  ⟨h, fun _ hd => List.mem_takeWhile_imp hd⟩

theorem converts_of_readPrefixed {base : Nat} {letter : Char}
    (hbase : base = 16 ∧ letter ∈ ['x', 'X'] ∨ base = 2 ∧ letter ∈ ['b', 'B'])
    (h : readPrefixed base letter text = .ok (l, others)) : l.Converts := by
  unfold readPrefixed at h
  dsimp only at h
  split at h
  · cases h
  · next hdigits =>
    cases h
    exact .prefixed (digitsOf_takeWhile fun hnil => hdigits (by rw [hnil]; rfl)) hbase

theorem converts_of_readDecimal (hfirst : first.isDigit = true)
    (h : readDecimal first text = (l, others)) : l.Converts := by
  have hall : ∀ {text : List Char}, ∀ d ∈ text.takeWhile Char.isDigit, isDigitOf 10 d = true :=
    fun d hd => isDigitOf_ten_of_isDigit (List.mem_takeWhile_imp hd)
  have hwhole : DigitsOf 10 (first :: text.takeWhile Char.isDigit) :=
    ⟨List.cons_ne_nil _ _, List.forall_mem_cons.2 ⟨isDigitOf_ten_of_isDigit hfirst, hall⟩⟩
  rw [readDecimal] at h
  dsimp only at h
  split at h
  · split at h
    · cases h
      exact .decimal hwhole
    · next hfraction =>
      cases h
      exact .fraction hwhole ⟨fun hnil => hfraction (by rw [hnil]; rfl), hall⟩
  · cases h
    exact .decimal hwhole

theorem converts_of_readNumeral (hfirst : first.isDigit = true)
    (h : readNumeral first text = .ok (l, others)) : l.Converts := by
  unfold readNumeral at h
  split at h
  · next c rest =>
    split at h
    · next hx => exact converts_of_readPrefixed (.inl ⟨rfl, by simpa using hx⟩) h
    · split at h
      · next hb => exact converts_of_readPrefixed (.inr ⟨rfl, by simpa using hb⟩) h
      · split at h
        · next hoctal =>
          cases h
          refine .octal (digitsOf_takeWhile ?_)
          rw [List.takeWhile_cons_of_pos hoctal]
          exact List.cons_ne_nil _ _
        · exact converts_of_readDecimal hfirst (Except.ok.inj h)
  · exact converts_of_readDecimal hfirst (Except.ok.inj h)

/-- Every number that is read is converted from its digits. -/
theorem Lexeme.Readable.converts (h : l.Readable) : l.Converts := by
  obtain ⟨first, text, others, h⟩ := h
  rw [readLexeme] at h
  split at h
  · cases h
    exact .other (by rintro ⟨⟩) (by rintro ⟨⟩)
  · split at h
    · next hdigit => exact converts_of_readNumeral hdigit h
    · split at h
      · rw [readLiteral] at h
        split at h
        · cases h
        · cases h
          split <;> exact .other (by rintro ⟨⟩) (by rintro ⟨⟩)
      · split at h
        · cases h
        · unfold readOperator at h
          split at h
          · cases h
            exact .other (by rintro ⟨⟩) (by rintro ⟨⟩)
          · cases h

end

/-! ## Escapes -/

theorem digitValue_lt {base : Nat} {d : Char} (h : isDigitOf base d = true) :
    digitValue d < base := by
  rw [isDigitOf] at h
  rw [digitValue]
  split
  · next hdigit => rwa [if_pos hdigit, decide_eq_true_eq] at h
  next hdigit =>
  rw [if_neg hdigit] at h
  split
  · next hlower => rwa [if_pos hlower, decide_eq_true_eq] at h
  next hlower =>
  rw [if_neg hlower] at h
  split
  · next hupper => rwa [if_pos hupper, decide_eq_true_eq] at h
  · next hupper =>
    rw [if_neg hupper] at h
    cases h

/-- So many digits write a number below that power of the base. -/
theorem numeralValue_lt {base : Nat} {digits : List Char}
    (h : ∀ d ∈ digits, isDigitOf base d = true) : numeralValue base digits < base ^ digits.length := by
  induction digits using List.reverseRecOn with
  | nil => exact Nat.one_pos
  | append_singleton digits digit ih =>
    obtain ⟨hdigits, hdigit⟩ := List.forall_mem_append.1 h
    have hvalue := digitValue_lt (hdigit digit List.mem_cons_self)
    have hfront : numeralValue base digits + 1 ≤ base ^ digits.length := ih hdigits
    rw [numeralValue, List.foldl_append, ← numeralValue, List.length_append]
    calc numeralValue base digits * base + digitValue digit
        < numeralValue base digits * base + base := Nat.add_lt_add_left hvalue _
      _ = (numeralValue base digits + 1) * base := (Nat.succ_mul _ _).symm
      _ ≤ base ^ digits.length * base := Nat.mul_le_mul_right base hfront

theorem toNat_ofNat_of_lt {n : Nat} (h : n < 256) : (Char.ofNat n).toNat = n := by
  have hvalid : n.isValidChar := .inl (Nat.lt_trans h (by decide))
  rw [Char.ofNat, dif_pos hvalid]
  rfl

theorem takeWhile_take_prefix (p : Char → Bool) (n : Nat) (text : List Char) :
    (text.take n).takeWhile p <+: text :=
  (List.takeWhile_prefix p).trans (List.take_prefix n text)

theorem length_takeWhile_take_le (p : Char → Bool) (n : Nat) (text : List Char) :
    ((text.take n).takeWhile p).length ≤ n :=
  (List.takeWhile_prefix p).length_le.trans (List.length_take_le n text)

theorem escapeConverts_of_readEscape {text : List Char} {value : Char} {length : Nat}
    (h : readEscape text = .ok (value, length)) : EscapeConverts text value := by
  unfold readEscape at h
  split at h
  · cases h
  · next rest =>
    dsimp only at h
    split at h
    · cases h
    · next hdigits =>
      cases h
      have hof : DigitsOf 16 ((rest.take 2).takeWhile (isDigitOf 16)) :=
        digitsOf_takeWhile fun hnil => hdigits (by rw [hnil]; rfl)
      have hlt : numeralValue 16 ((rest.take 2).takeWhile (isDigitOf 16)) < 256 :=
        calc _ < 16 ^ ((rest.take 2).takeWhile (isDigitOf 16)).length := numeralValue_lt hof.all
          _ ≤ 16 ^ 2 := Nat.pow_le_pow_right (by decide) (length_takeWhile_take_le _ 2 rest)
      obtain ⟨behind, hrest⟩ := takeWhile_take_prefix (isDigitOf 16) 2 rest
      have hconverts : EscapeConverts ('x' :: ((rest.take 2).takeWhile (isDigitOf 16) ++ behind)) _ :=
        .hexadecimal hof (toNat_ofNat_of_lt hlt) ((toNat_ofNat_of_lt hlt).trans_lt hlt)
      rwa [hrest] at hconverts
  · next c rest hx =>
    dsimp only at h
    split at h
    · next hdigits =>
      cases h
      refine .named hx (Bool.eq_false_iff.2 fun hoctal => ?_)
      rw [List.take_succ_cons, List.takeWhile_cons_of_pos hoctal] at hdigits
      cases hdigits
    · next hdigits =>
      cases h
      have hof : DigitsOf 8 (((c :: rest).take 3).takeWhile (isDigitOf 8)) :=
        digitsOf_takeWhile fun hnil => hdigits (by rw [hnil]; rfl)
      obtain ⟨behind, hrest⟩ := takeWhile_take_prefix (isDigitOf 8) 3 (c :: rest)
      have hconverts : EscapeConverts (((c :: rest).take 3).takeWhile (isDigitOf 8) ++ behind) _ :=
        .octal hof (toNat_ofNat_of_lt (Nat.mod_lt _ (by decide)))
      rwa [hrest] at hconverts

end Flattener
