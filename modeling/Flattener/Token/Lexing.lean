import Flattener.Token.Gap
import Flattener.Token.Reading

/-!
# From text to tokens

A source text is an alternation of gaps and lexemes (`lexFrom`). The tokens are
the lexemes with their locations, in order, and the end of input stands where
the text ends. At the first flaw the reading stops; the tokens before it are
kept, as `Lexing` says.
-/

namespace Flattener

/-- A place in a text that is being read. -/
structure Cursor where
  /-- What is left of the text. -/
  rest : List Char
  location : Location
  /-- The text from the start of the current line on. -/
  line : List Char

namespace Cursor

/-- The start of a text, whose first line has the given number. -/
def start (text : List Char) (file : String) (line : Int) : Cursor :=
  ⟨text, ⟨file, line, 1⟩, text⟩

/-- The place behind the next character. -/
def step (c : Cursor) : Cursor :=
  match c.rest with
  | [] => c
  | char :: rest =>
    ⟨rest, c.location.after char, if char = '\n' then rest else c.line⟩

/-- The place behind the next `n` characters. -/
def skip : Nat → Cursor → Cursor
  | 0, c => c
  | n + 1, c => skip n c.step

/-- The place behind the gap at the head of the rest. -/
def pastGap (c : Cursor) : Cursor :=
  c.skip (gapLength c.rest)

/-- The line on which a cursor stands. -/
def lineText (c : Cursor) : String :=
  String.ofList (c.line.takeWhile (· ≠ '\n'))

theorem rest_step (c : Cursor) : c.step.rest = c.rest.drop 1 := by
  unfold step
  split <;> simp_all

/-- Skipping drops characters from the text that is left. -/
theorem rest_skip (n : Nat) (c : Cursor) : (skip n c).rest = c.rest.drop n := by
  induction n generalizing c with
  | zero => rfl
  | succ n ih => rw [skip, ih, rest_step, List.drop_drop, Nat.add_comm]

theorem rest_pastGap (c : Cursor) : c.pastGap.rest = c.rest.drop (gapLength c.rest) :=
  rest_skip _ _

end Cursor

/-- The error of a flaw in the lexeme at a place. A lexeme that breaks off is
    reported where the reading stopped, everything else where the lexeme
    begins; the line shown is the one on which the reading stopped. -/
def Flaw.report (flaw : Flaw) (start : Cursor) : SyntaxError :=
  let stop := start.skip flaw.readLength
  let atEnd := stop.rest.isEmpty
  match flaw with
  | .broken _ _ => ⟨flaw.cause, some stop.location, atEnd, some stop.lineText⟩
  | .unterminated _ _ =>
    ⟨flaw.cause, some start.location, atEnd, if atEnd then none else some stop.lineText⟩
  | .invalidCharacter _ => ⟨flaw.cause, some start.location, false, some start.lineText⟩
  | .openComment => ⟨flaw.cause, some start.location, true, none⟩

/-- The outcome of reading a text: the tokens before its end or before its
    first flaw, and where the end is or what the flaw is. -/
structure Lexing where
  tokens : List Token
  outcome : Except SyntaxError Location

namespace Lexing

/-- The tokens with the end of input behind them; a flawed text has no end. -/
def allTokens (l : Lexing) : List Token :=
  l.tokens ++ match l.outcome with
    | .ok stop => [Token.ending stop]
    | .error _ => []

/-- The tokens and the place of the end, or the flaw. -/
def toExcept (l : Lexing) : Except SyntaxError (List Token × Location) :=
  l.outcome.map fun stop => (l.tokens, stop)

end Lexing

/-- The tokens of the text from a place on. -/
def lexFrom (c : Cursor) : Lexing :=
  match _hrest : c.pastGap.rest with
  | [] => ⟨[], .ok c.pastGap.location⟩
  | first :: text =>
    match readLexeme first text with
    | .error flaw => ⟨[], .error (flaw.report c.pastGap)⟩
    | .ok (lexeme, others) =>
      let behind := lexFrom (c.pastGap.skip (others.length + 1))
      ⟨⟨lexeme, c.pastGap.location⟩ :: behind.tokens, behind.outcome⟩
  termination_by c.rest.length
  decreasing_by
    have hpos : 0 < c.pastGap.rest.length := by
      rw [_hrest]
      exact Nat.succ_pos _
    simp only [Cursor.rest_pastGap, Cursor.rest_skip, List.length_drop] at hpos ⊢
    omega

/-- A text that is a gap has no tokens. -/
theorem lexFrom_of_rest_nil {c : Cursor} (h : c.pastGap.rest = []) :
    lexFrom c = ⟨[], .ok c.pastGap.location⟩ := by
  rw [lexFrom]
  split
  · rfl
  · rename_i h'
    rw [h] at h'
    cases h'

/-- A text stops at the flaw of its first lexeme. -/
theorem lexFrom_of_flaw {c : Cursor} {first : Char} {text : List Char} {flaw : Flaw}
    (h : c.pastGap.rest = first :: text) (hread : readLexeme first text = .error flaw) :
    lexFrom c = ⟨[], .error (flaw.report c.pastGap)⟩ := by
  rw [lexFrom]
  split
  · rename_i h'
    rw [h] at h'
    cases h'
  · rename_i h'
    rw [h] at h'
    cases h'
    rw [hread]

/-- A text that begins with a lexeme has its token in front of those behind it. -/
theorem lexFrom_of_lexeme {c : Cursor} {first : Char} {text others : List Char}
    {lexeme : Lexeme} (h : c.pastGap.rest = first :: text)
    (hread : readLexeme first text = .ok (lexeme, others)) :
    lexFrom c =
      ⟨⟨lexeme, c.pastGap.location⟩ :: (lexFrom (c.pastGap.skip (others.length + 1))).tokens,
        (lexFrom (c.pastGap.skip (others.length + 1))).outcome⟩ := by
  rw [lexFrom]
  split
  · rename_i h'
    rw [h] at h'
    cases h'
  · rename_i h'
    rw [h] at h'
    cases h'
    rw [hread]

/-- The tokens of a text whose first line has the given number. -/
def lex (source file : String) (line : Int) : Lexing :=
  lexFrom (Cursor.start source.toList file line)

end Flattener
