import Flattener.Proofs.Token.Standing

/-!
# Texts that are put together

A text can be put together from blanks, line comments and the spellings of
lexemes that stand in front of what follows (`Spells`). Such a text has those
tokens and no flaw (`lexemes_of_spells`). Conversely, all tokens of a text are
readable, so that another text can be put together from them
(`readable_of_mem_lexFrom`).
-/

namespace Flattener

/-- The text is put together from the lexemes, with gaps between them. -/
inductive Spells : List Char → List Lexeme → Prop
  | nil : Spells [] []
  | blank {c : Char} {rest : List Char} {ls : List Lexeme} : isBlank c = true → Spells rest ls →
    Spells (c :: rest) ls
  | comment {body rest : List Char} {ls : List Lexeme} : '\n' ∉ body → Spells ('\n' :: rest) ls →
    Spells ('/' :: '/' :: (body ++ '\n' :: rest)) ls
  | lexeme {l : Lexeme} {rest : List Char} {ls : List Lexeme} : l.Stands rest → Spells rest ls →
    Spells (l.spelling.toList ++ rest) (l :: ls)

/-- Nothing but blanks. -/
def Blanks (text : List Char) : Prop :=
  ∀ c ∈ text, isBlank c = true

instance (text : List Char) : Decidable (Blanks text) :=
  decidable_of_iff (text.all isBlank = true) List.all_eq_true

theorem blanks_replicate (n : Nat) : Blanks (List.replicate n ' ') := by
  intro c hc
  rw [List.eq_of_mem_replicate hc]
  rfl

theorem Spells.behindBlanks {blanks rest : List Char} {ls : List Lexeme} (h : Spells rest ls)
    (hblanks : Blanks blanks) : Spells (blanks ++ rest) ls := by
  induction blanks with
  | nil => exact h
  | cons c blanks ih =>
    obtain ⟨hc, hblanks⟩ := List.forall_mem_cons.1 hblanks
    exact .blank hc (ih hblanks)

/-! ## Cursors -/

theorem Cursor.skip_add (m n : Nat) (c : Cursor) : skip (m + n) c = skip n (skip m c) := by
  induction m generalizing c with
  | zero => rw [Nat.zero_add, skip]
  | succ m ih => rw [Nat.succ_add, skip, skip, ih]

/-- A gap of known parts is left behind part by part. -/
theorem Cursor.pastGap_eq {c : Cursor} {n : Nat}
    (h : gapLength c.rest = n + gapLength (c.rest.drop n)) : c.pastGap = (c.skip n).pastGap := by
  rw [pastGap, h, skip_add, pastGap, rest_skip]

/-- What is read from a place on is what is read behind the gap there. -/
theorem lexFrom_eq_of_pastGap {c c' : Cursor} (h : c.pastGap = c'.pastGap) :
    lexFrom c = lexFrom c' := by
  cases hrest : c.pastGap.rest with
  | nil => rw [lexFrom_of_rest_nil hrest, lexFrom_of_rest_nil (h ▸ hrest), h]
  | cons first text =>
    cases hread : readLexeme first text with
    | error flaw => rw [lexFrom_of_flaw hrest hread, lexFrom_of_flaw (h ▸ hrest) hread, h]
    | ok found =>
      obtain ⟨lexeme, others⟩ := found
      have hrest' : c'.pastGap.rest = first :: text := h ▸ hrest
      rw [lexFrom_of_lexeme hrest hread, lexFrom_of_lexeme hrest' hread, h]

/-- The rounds of a reading: a gap up to the end, a flaw, or a lexeme and what is
    behind it. -/
@[elab_as_elim]
theorem lexFrom_induction {motive : Cursor → Prop} (nil : ∀ c, c.pastGap.rest = [] → motive c)
    (flaw : ∀ c first text flaw, c.pastGap.rest = first :: text →
      readLexeme first text = .error flaw → motive c)
    (lexeme : ∀ c first text lexeme others, c.pastGap.rest = first :: text →
      readLexeme first text = .ok (lexeme, others) →
      motive (c.pastGap.skip (others.length + 1)) → motive c) (c : Cursor) : motive c := by
  induction hn : c.rest.length using Nat.strong_induction_on generalizing c with
  | h n ih =>
    cases hrest : c.pastGap.rest with
    | nil => exact nil c hrest
    | cons first text =>
      cases hread : readLexeme first text with
      | error flawed => exact flaw c first text flawed hrest hread
      | ok found =>
        obtain ⟨found, others⟩ := found
        refine lexeme c first text found others hrest hread (ih _ ?_ _ rfl)
        have hlength := congrArg List.length hrest
        rw [Cursor.rest_pastGap, List.length_drop, List.length_cons] at hlength
        rw [Cursor.rest_skip, Cursor.rest_pastGap, List.length_drop, List.length_drop]
        omega

/-! ## Both ways -/

/-- Every token of a text is readable. -/
theorem readable_of_mem_lexFrom (c : Cursor) : ∀ t ∈ (lexFrom c).tokens, t.lexeme.Readable := by
  induction c using lexFrom_induction with
  | nil c hrest =>
    rw [lexFrom_of_rest_nil hrest]
    exact List.forall_mem_nil _
  | flaw c first text flaw hrest hread =>
    rw [lexFrom_of_flaw hrest hread]
    exact List.forall_mem_nil _
  | lexeme c first text lexeme others hrest hread ih =>
    rw [lexFrom_of_lexeme hrest hread]
    exact List.forall_mem_cons.2 ⟨⟨first, text, others, hread⟩, ih⟩

/-- A lexeme that stands is read first, and then what is behind it. -/
theorem lexFrom_of_stands {l : Lexeme} {rest : List Char} {c : Cursor} (h : l.Stands rest)
    (hc : c.rest = l.spelling.toList ++ rest) :
    ∃ behind : Cursor, behind.rest = rest ∧
      lexFrom c = ⟨⟨l, c.location⟩ :: (lexFrom behind).tokens, (lexFrom behind).outcome⟩ := by
  obtain ⟨first, others, hspelling, hgap, hread⟩ := h
  rw [hspelling] at hc
  -- no gap is in front of a lexeme that stands
  have hpast : c.pastGap = c := by
    rw [Cursor.pastGap, hc, List.cons_append, hgap]
    rfl
  have hrest : c.pastGap.rest = first :: (others ++ rest) := by rw [hpast, hc]; rfl
  refine ⟨c.skip (others.length + 1), ?_, ?_⟩
  · rw [Cursor.rest_skip, hc, List.cons_append, List.drop_succ_cons, List.drop_left']
    rfl
  · rw [lexFrom_of_lexeme hrest hread, hpast]

/-- A text that is put together from lexemes has exactly their tokens. -/
theorem lexemes_of_spells {text : List Char} {ls : List Lexeme} (h : Spells text ls) (c : Cursor)
    (hc : c.rest = text) :
    (lexFrom c).tokens.map (·.lexeme) = ls ∧ ∃ stop, (lexFrom c).outcome = .ok stop := by
  induction h generalizing c with
  | nil =>
    have hrest : c.pastGap.rest = [] := by
      rw [Cursor.rest_pastGap, hc, List.drop_nil]
    rw [lexFrom_of_rest_nil hrest]
    exact ⟨rfl, _, rfl⟩
  | @blank b rest ls hblank _ ih =>
    have hslash : b ≠ '/' := by
      rintro rfl
      exact absurd hblank (by decide)
    have hgap : gapLength c.rest = 1 + gapLength (c.rest.drop 1) := by
      rw [hc, gapLength_of_ne_slash hslash, if_pos hblank]
      rfl
    rw [lexFrom_eq_of_pastGap (Cursor.pastGap_eq hgap)]
    exact ih _ (by rw [Cursor.rest_skip, hc]; rfl)
  | @comment body rest ls hbody _ ih =>
    have hlength : lineCommentLength (body ++ '\n' :: rest) = body.length := by
      have hrun : (body ++ '\n' :: rest).takeWhile (· ≠ '\n') = body := by
        refine takeWhile_eq_iff.2 ⟨fun c hmem => ?_, fun c hmem => ?_⟩
        · exact decide_eq_true fun h => hbody (h ▸ hmem)
        · cases hmem
          decide
      rw [lineCommentLength, hrun]
    have hdrop : c.rest.drop (2 + body.length) = '\n' :: rest := by
      rw [hc, Nat.add_comm]
      simp
    have hgap : gapLength c.rest = 2 + body.length + gapLength (c.rest.drop (2 + body.length)) := by
      rw [hdrop, hc, gapLength, hlength, List.drop_left']
      rfl
    rw [lexFrom_eq_of_pastGap (Cursor.pastGap_eq hgap)]
    exact ih _ (by rw [Cursor.rest_skip, hdrop])
  | @lexeme l rest ls hstands _ ih =>
    obtain ⟨behind, hbehind, hread⟩ := lexFrom_of_stands hstands hc
    rw [hread]
    obtain ⟨hmap, stop, hstop⟩ := ih _ hbehind
    exact ⟨congrArg (l :: ·) hmap, stop, hstop⟩

end Flattener
