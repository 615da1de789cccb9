import Flattener.Flattening.Source
import Flattener.Proofs.Flattening.References
import Flattener.Proofs.Flattening.Visiting
import Flattener.Proofs.Grammar.Cursor
import Flattener.Proofs.Token.Composition
import Flattener.Proofs.Token.Conversion

/-!
# No source is a misuse

Whatever the source and the options are, flattening gives declarations or an error of
the source, with one exception: an indentation that does not fit at the level of a line
(`result_or_error`). No other fault is met on the way: the places of a parse are those
of its tokens, every rollback is one to a history that was there, digits are there to be
converted, and no namespace is left that was not entered.
-/

namespace Flattener

section

variable {options : Options} {source file : String}

/-- A source is parsed, or an error of it is found. -/
theorem invalid_of_parseSource {failure : Failure}
    (h : (parseSource options source file).result = .error failure) :
    ∃ error, failure = .invalid error := by
  rw [parseSource] at h
  split at h
  · next error _ =>
    cases h
    exact ⟨error, rfl⟩
  · dsimp only at h
    split at h
    · next failure' hfailure =>
      cases h
      exact Parser.invalid_of_parse hfailure
    · cases h

/-- The failures of flattening are errors of the source, and indentations that do not fit
    at the level of some line of its tree. -/
theorem flatten_cases (options : Options) (source file : String) :
    (∃ flattened, (flatten options source file).result = .ok flattened) ∨
    (∃ error, (flatten options source file).result = .error (.invalid error)) ∨
    ∃ tree count, (parseSource options source file).result = .ok (tree, count) ∧
      ¬Text.Fits (tree.levels options.separator options.builtins) options.page.indentWidth ∧
      (flatten options source file).result = .error (.misuse .tooWide) := by
  rcases hparsed : (parseSource options source file).result with failure | ⟨tree, count⟩
  · obtain ⟨error, rfl⟩ := invalid_of_parseSource hparsed
    refine .inr (.inl ⟨error, ?_⟩)
    rw [flatten]
    dsimp only
    rw [hparsed]
    rfl
  by_cases hfits : Text.Fits (tree.levels options.separator options.builtins)
      options.page.indentWidth
  · exact .inl ⟨_, result_flatten_of_render hparsed (Scope.render_eq_ok hfits)⟩
  · refine .inr (.inr ⟨tree, count, rfl, hfits, ?_⟩)
    rw [result_flatten_of_parse hparsed, Scope.render_eq_error hfits]

/-- A source that is no longer than indentations can be deep is no misuse. -/
theorem ne_misuse_of_length (hlength : fitsWord (source.length * options.page.indentWidth) = true)
    (fault : Fault) : (flatten options source file).result ≠ .error (.misuse fault) := by
  rcases flatten_cases options source file with
    ⟨flattened, h⟩ | ⟨error, h⟩ | ⟨tree, count, hparse, hwide, -⟩
  · rw [h]
    rintro ⟨⟩
  · rw [h]
    rintro ⟨⟩
  · exact absurd (Scope.fits_of_length hparse hlength _ _) hwide

end

/-- Flattening gives declarations or an error of the source, unless the indentation does
    not fit at the level of some line, which a source that is no longer than indentations
    can be deep does not have. The numbers that are read are those of their digits, and
    so are escapes. Wherever a production is put on trial, it is on a token, and the
    way back is open. An integer that is read is the token in front of the place
    behind it. A tree is rendered by going through it, with no namespace left that was
    not entered before. -/
theorem result_or_error (options : Options) (source file : String) :
    let tokens := (lex source file 1).tokens
    ((∃ flattened, (flatten options source file).result = .ok flattened) ∨
      (∃ error, (flatten options source file).result = .error (.invalid error)) ∨
      ∃ tree count, (parseSource options source file).result = .ok (tree, count) ∧
        ¬Text.Fits (tree.levels options.separator options.builtins) options.page.indentWidth ∧
        (flatten options source file).result = .error (.misuse .tooWide)) ∧
    (fitsWord (source.length * options.page.indentWidth) = true →
      ∀ fault, (flatten options source file).result ≠ .error (.misuse fault)) ∧
    (∀ t ∈ tokens, t.lexeme.Converts) ∧
    (∀ text value length, readEscape text = .ok (value, length) → EscapeConverts text value) ∧
    (∀ c v, v.Reachable c options.builtins tokens →
      ∀ production, Parser.Visit.Contained c tokens v production) ∧
    (∀ c s t size s', Parser.unsigned.Reads c s (t, size) s' → s.rest <:+ tokens →
      ∃ place, s'.rest = tokens.drop (place + 1) ∧ tokens[place]? = some t) ∧
    ∀ tree : Scope,
      let visited := tree.visit options.page options.separator options.builtins
      tree.render options.page options.separator options.builtins =
        (visited.1.map fun _ => visited.2.page.text) ∧
      visited.1 ≠ .error .emptyStack := by
  intro tokens
  refine ⟨flatten_cases options source file, fun hlength fault => ne_misuse_of_length hlength fault,
    fun t ht => (readable_of_mem_lexFrom _ t ht).converts,
    fun _ _ _ => escapeConverts_of_readEscape, fun _ _ hv => hv.contained,
    fun _ _ _ _ _ => Parser.getElem?_of_reads_unsigned,
    fun tree => ⟨tree.render_eq_visit _ _ _, ?_⟩⟩
  rw [Scope.visit_fst]
  split <;> rintro ⟨⟩

/-- An indentation that is not a number of characters is refused, with no error of the
    source and no declarations. -/
theorem flatten_fails_of_vast_width :
    (flatten ⟨standardTypes, "_", ⟨-100000000000000000000, false⟩, .utf8⟩
      "struct A \x7b int x; \x7d;" "in").result = .error (.misuse .tooWide) := by
  have hview : (parseSource ⟨standardTypes, "_", ⟨-100000000000000000000, false⟩, .utf8⟩
      "struct A \x7b int x; \x7d;" "in").result.toOption.map
        (fun parsed => parsed.1.render ⟨-100000000000000000000, false⟩ "_" standardTypes) =
      some (.error .tooWide) := by decide +kernel
  obtain ⟨tree, count, hparse, hrender⟩ := exists_tree hview
  rw [flatten]
  dsimp only
  rw [hparse]
  dsimp only [bind, Except.bind]
  rw [hrender]
  rfl

end Flattener
