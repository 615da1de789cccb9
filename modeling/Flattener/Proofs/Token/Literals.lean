import Flattener.Proofs.Token.Composition
import Flattener.Proofs.Token.Digits

/-!
# Literals and what they encode

Between its quotes, a literal encodes characters one by one (`Encodes`): a character
stands for itself, unless it would end the literal or the line or begin an escape, and
behind a backslash stands an escape (`EscapeOf`): a letter with a meaning of its own,
digits of the base sixteen or eight, or any other character for itself. Digits are taken
as long as they come and are not too many. So fewer than that encode a character only in
front of what is no digit (`Fills`).

* `readContents_of_encodes`: what was encoded is read up to the closing quote, whatever
  is behind it;
* `lex_literal`: a literal is the first token of a text that begins with it.
-/

namespace Flattener

/-- What a character stands for behind a backslash, if it has a meaning of its own. -/
def namedEscapes : List (Char × Char) :=
  [('n', '\n'), ('r', '\r'), ('t', '\t'), ('b', '\x08'), ('f', '\x0c'), ('v', '\x0b'),
    ('a', '\x07'), ('\\', '\\'), ('\'', '\''), ('"', '"')]

/-- There are at most so many digits, and no other one is behind fewer. -/
structure Fills (base most : Nat) (digits behind : List Char) : Prop where
  length_le : digits.length ≤ most
  ends : digits.length < most → ∀ c ∈ behind.head?, base ≤ digitWorth c

instance (base most : Nat) (digits behind : List Char) :
    Decidable (Fills base most digits behind) :=
  decidable_of_iff (digits.length ≤ most ∧
      (digits.length < most → behind.head?.all (base ≤ digitWorth ·) = true))
    ⟨fun ⟨hle, hends⟩ => ⟨hle, by simpa [Option.all_eq_true] using hends⟩,
      fun h => ⟨h.length_le, by simpa [Option.all_eq_true] using h.ends⟩⟩

/-- In front of a text, what stands behind a backslash encodes a character. -/
inductive EscapeOf (behind : List Char) : List Char → Char → Prop
  | named {letter value : Char} : (letter, value) ∈ namedEscapes → EscapeOf behind [letter] value
  | hexadecimal {digits : List Char} {n : Nat} : Writes 16 digits n → Fills 16 2 digits behind →
    EscapeOf behind ('x' :: digits) (Char.ofNat n)
  | octal {digits : List Char} {n : Nat} : Writes 8 digits n → Fills 8 3 digits behind →
    EscapeOf behind digits (Char.ofNat (n % 256))
  | other {c : Char} : c ∉ namedEscapes.map Prod.fst → c ≠ 'x' → 8 ≤ digitWorth c →
    EscapeOf behind [c] c

/-- Between two such quotes, the text encodes the contents. -/
inductive Encodes (quote : Char) : List Char → List Char → Prop
  | nil : Encodes quote [] []
  | plain {c : Char} {text contents : List Char} : c ∉ [quote, '\\', '\n'] →
    Encodes quote text contents → Encodes quote (c :: text) (c :: contents)
  | escape {body text contents : List Char} {value : Char} : EscapeOf text body value →
    Encodes quote text contents → Encodes quote ('\\' :: (body ++ text)) (value :: contents)

/-- The quotes of literals. -/
inductive Quote
  | double
  | single

/-- How a quote is written. -/
def Quote.mark : Quote → Char
  | double => '"'
  | single => '\''

/-- The literal that stands between two quotes: a string or a character. -/
def Quote.literal : Quote → String → String → Lexeme
  | double => .string
  | single => .char

theorem Quote.spelling_literal (quote : Quote) (spelling value : String) :
    (quote.literal spelling value).spelling = spelling := by
  cases quote with
  | double => rfl
  | single => rfl

/-! ## Escapes -/

section

variable {base most n : Nat} {quote value c : Char} {digits body behind : List Char}

/-- A quote and what is behind it can be put behind the text. -/
theorem Fills.append (h : Fills base most digits behind) (hquote : base ≤ digitWorth quote)
    (rest : List Char) : Fills base most digits (behind ++ quote :: rest) := by
  refine ⟨h.length_le, fun hlt c hc => ?_⟩
  cases behind with
  | nil =>
    obtain rfl : quote = c := Option.some.inj hc
    exact hquote
  | cons d behind => exact h.ends hlt c hc

/-- Of the digits that are taken, all are those that were written. -/
theorem Fills.takeWhile_take (h : Fills base most digits behind) (hbase : base ≤ 16)
    (hwrites : Writes base digits n) :
    ((digits ++ behind).take most).takeWhile (isDigitOf base) = digits := by
  rw [List.take_append, List.take_of_length_le h.length_le]
  refine takeWhile_eq_iff.2 ⟨fun d hd => (isDigitOf_iff hbase).2 (hwrites.all d hd), fun c hc => ?_⟩
  rw [isDigitOf_eq_false_iff hbase]
  rw [List.head?_take] at hc
  split at hc
  · cases hc
  · exact h.ends (by omega) c hc

theorem EscapeOf.append (h : EscapeOf behind body value) (hquote : 16 ≤ digitWorth quote)
    (rest : List Char) : EscapeOf (behind ++ quote :: rest) body value := by
  cases h with
  | named hnamed => exact .named hnamed
  | hexadecimal hwrites hfills => exact .hexadecimal hwrites (hfills.append hquote rest)
  | octal hwrites hfills =>
    exact .octal hwrites (hfills.append (Nat.le_trans (by decide) hquote) rest)
  | other hnamed hx hdigit => exact .other hnamed hx hdigit

/-- Behind a backslash, what begins no digits is the escape alone. -/
theorem readEscape_of_ne (hx : c ≠ 'x') (hdigit : isDigitOf 8 c = false) :
    readEscape (c :: behind) = .ok (namedEscape c, 1) := by
  rw [readEscape]
  · simp only [List.take_succ_cons, List.takeWhile_cons_of_neg (Bool.eq_false_iff.1 hdigit)]
    rfl
  · exact hx

/-- What has no meaning of its own is kept. -/
theorem namedEscape_of_notMem (h : c ∉ namedEscapes.map Prod.fst) : namedEscape c = c := by
  unfold namedEscape
  split
  case h_8 => rfl
  -- all letters with a meaning are in the list
  all_goals exact absurd (by decide) h

/-- The character that was encoded is read, and nothing of what is behind the escape. -/
theorem readEscape_of_escapeOf (h : EscapeOf behind body value) :
    readEscape (body ++ behind) = .ok (value, body.length) := by
  cases h with
  | @named letter _ hnamed =>
    have hall : ∀ p ∈ namedEscapes,
        p.1 ≠ 'x' ∧ isDigitOf 8 p.1 = false ∧ namedEscape p.1 = p.2 := by
      decide
    obtain ⟨hx, hdigit, hvalue⟩ := hall (letter, value) hnamed
    rw [List.singleton_append, readEscape_of_ne hx hdigit, hvalue]
    rfl
  | @hexadecimal digits n hwrites hfills =>
    have hsome : digits.isEmpty = false := List.isEmpty_eq_false_iff.2 hwrites.some
    rw [List.cons_append, readEscape]
    simp only [hfills.takeWhile_take (by decide) hwrites, hsome,
      numeralValue_of_writes (by decide) hwrites]
    rw [if_neg Bool.false_ne_true, List.length_cons, Nat.add_comm]
  | @octal digits n hwrites hfills =>
    have hsome : body.isEmpty = false := List.isEmpty_eq_false_iff.2 hwrites.some
    have htake := hfills.takeWhile_take (by decide) hwrites
    obtain ⟨d, digits, rfl⟩ := List.exists_cons_of_ne_nil hwrites.some
    have hx : d ≠ 'x' := by
      rintro rfl
      exact absurd (hwrites.all 'x' List.mem_cons_self) (by decide)
    rw [List.cons_append] at htake ⊢
    rw [readEscape]
    · simp only [htake, hsome, numeralValue_of_writes (by decide) hwrites]
      rfl
    · exact hx
  | other hnamed hx hdigit =>
    rw [List.singleton_append, readEscape_of_ne hx ((isDigitOf_eq_false_iff (by decide)).2 hdigit),
      namedEscape_of_notMem hnamed]
    rfl

end

/-! ## Literals -/

section

variable {text contents : List Char}

/-- Up to the closing quote, what was encoded is read. -/
theorem readContents_of_encodes {quote : Char} (hquote : 16 ≤ digitWorth quote)
    (hslash : quote ≠ '\\') (h : Encodes quote text contents) (rest : List Char) :
    readContents quote (text ++ quote :: rest) = .ok (contents, text ++ [quote]) := by
  induction h with
  | nil => rw [List.nil_append, readContents, if_pos rfl, List.nil_append]
  | @plain c text contents hc _ ih =>
    simp only [List.mem_cons, List.not_mem_nil, or_false, not_or] at hc
    obtain ⟨hend, hback, hline⟩ := hc
    rw [List.cons_append, readContents, if_neg hend, if_neg hline, if_neg hback, ih]
    rfl
  | @escape body text contents value hescape _ ih =>
    have hread := readEscape_of_escapeOf (hescape.append hquote rest)
    rw [List.cons_append, List.append_assoc, readContents, if_neg hslash.symm,
      if_neg (by decide), if_pos rfl, hread]
    simp only [List.drop_left', List.take_left', ih, prependElement]
    rw [List.cons_append, List.cons_append, List.append_assoc]

theorem readLiteral_of_encodes {quote : Quote} (h : Encodes quote.mark text contents)
    (rest : List Char) :
    readLiteral quote.mark (text ++ [quote.mark] ++ rest) =
      .ok (quote.literal (String.ofList (quote.mark :: (text ++ [quote.mark])))
        (String.ofList contents), text ++ [quote.mark]) := by
  have hmark : 16 ≤ digitWorth quote.mark ∧ quote.mark ≠ '\\' := by
    cases quote with
    | double => decide
    | single => decide
  rw [← List.append_cons, readLiteral, readContents_of_encodes hmark.1 hmark.2 h]
  cases quote with
  | double => rfl
  | single => rfl

/-- A literal stands in front of any text. -/
theorem stands_literal {quote : Quote} (h : Encodes quote.mark text contents) (rest : List Char) :
    (quote.literal (String.ofList (quote.mark :: (text ++ [quote.mark])))
      (String.ofList contents)).Stands rest := by
  have hgap : quote.mark ≠ '/' ∧ isBlank quote.mark = false := by
    cases quote with
    | double => decide
    | single => decide
  have hkind (text : List Char) : readLexeme quote.mark text = readLiteral quote.mark text := by
    cases quote with
    | double => rfl
    | single => rfl
  refine ⟨quote.mark, text ++ [quote.mark], ?_, gapLength_eq_zero hgap.1 hgap.2 _, ?_⟩
  · rw [quote.spelling_literal, String.toList_ofList]
  · rw [hkind, readLiteral_of_encodes h]

/-- Of a text that begins with a literal, the first token is the literal with the contents
    that it encodes, and what is behind the closing quote is read from there on. -/
theorem lex_literal {quote : Quote} (h : Encodes quote.mark text contents) (behind file : String)
    (line : Int) :
    let spelling := String.ofList (quote.mark :: (text ++ [quote.mark]))
    ∃ next : Cursor, next.rest = behind.toList ∧
      lex (spelling ++ behind) file line =
        ⟨⟨quote.literal spelling (String.ofList contents), ⟨file, line, 1⟩⟩ ::
          (lexFrom next).tokens, (lexFrom next).outcome⟩ := by
  intro spelling
  refine lexFrom_of_stands (stands_literal h behind.toList) ?_
  rw [Cursor.start, String.toList_append, quote.spelling_literal]

/-- One hexadecimal digit, three octal ones with too high a value and one octal digit, a
    quote, the end of a line, a digit that is no octal one, and a letter that is also a
    digit, all of them behind a backslash. -/
def tangledText : List Char :=
  ['\\', 'x', '4', 'g', '\\', '7', '7', '7', '\\', '7', '8', '\\', '"', '\\', '\n', '\\', '9',
    '\\', 'a']

/-- What the text stands for. -/
def tangledContents : List Char :=
  ['\x04', 'g', '\xff', '\x07', '8', '"', '\n', '9', '\x07']

theorem lex_literal_tangledText :
    Encodes Quote.double.mark tangledText tangledContents ∧
      ∃ next : Cursor, next.rest = "41".toList ∧
        lex (String.ofList ('"' :: (tangledText ++ ['"'])) ++ "41") "m.cc" 7 =
          ⟨⟨.string (String.ofList ('"' :: (tangledText ++ ['"']))) (String.ofList tangledContents),
            ⟨"m.cc", 7, 1⟩⟩ :: (lexFrom next).tokens, (lexFrom next).outcome⟩ := by
  have hencodes : Encodes Quote.double.mark tangledText tangledContents := by
    have hhexadecimal : Writes 16 ['4'] 4 := by decide
    have hthree : Writes 8 ['7', '7', '7'] 511 := by decide
    have hone : Writes 8 ['7'] 7 := by decide
    refine .escape (.hexadecimal hhexadecimal (by decide)) ?_
    refine .plain (by decide) ?_
    refine .escape (.octal hthree (by decide)) ?_
    refine .escape (.octal hone (by decide)) ?_
    refine .plain (by decide) ?_
    refine .escape (.named (by decide)) ?_
    refine .escape (.other (by decide) (by decide) (by decide)) ?_
    refine .escape (.other (by decide) (by decide) (by decide)) ?_
    exact .escape (.named (by decide)) .nil
  exact ⟨hencodes, lex_literal hencodes "41" "m.cc" 7⟩

end

end Flattener
