import Flattener.Flattening.Source
import Flattener.Proofs.Grammar.Places
import Flattener.Proofs.Token.Composition

/-!
# Spacing does not matter

The texts of the tokens of a source can be written anew, with any blanks between
them (`Spaced`). The new source has the same lexemes, since each of them stands
in front of a blank whatever it was read in front of, and they make the same
tree but for the places. So both sources are flattened to the same text, or
refused for the same cause (`flatten_respaced`).
-/

namespace Flattener

/-! ## Spaced words -/

/-- The text is made of the words, in order, with blanks around them and at least
    one between two of them. -/
inductive Spaced : List String → List Char → Prop
  | nil {after : List Char} : Blanks after → Spaced [] after
  | last {before after : List Char} {word : String} : Blanks before → Blanks after →
    Spaced [word] (before ++ word.toList ++ after)
  | cons {before between rest : List Char} {word : String} {words : List String} :
    Blanks before → Blanks between → between ≠ [] → Spaced words rest →
    Spaced (word :: words) (before ++ word.toList ++ (between ++ rest))

/-- Blanks join no lexeme. -/
theorem Blanks.delimited {blanks : List Char} (h : Blanks blanks) : Delimited blanks := by
  intro c hc
  have hblank := h c (List.mem_of_mem_head? hc)
  rw [isBlank, decide_eq_true_eq] at hblank
  exact List.mem_append_left _ hblank

/-- Readable lexemes are read of their spellings, however these are spaced. -/
theorem spells_of_spaced {ls : List Lexeme} {text : List Char}
    (h : Spaced (ls.map (·.spelling)) text) (hread : ∀ l ∈ ls, l.Readable) : Spells text ls := by
  generalize hwords : ls.map (·.spelling) = words at h
  induction h generalizing ls with
  | @nil after hafter =>
    obtain rfl := List.map_eq_nil_iff.1 hwords
    have hspells := Spells.nil.behindBlanks hafter
    rwa [List.append_nil] at hspells
  | @last before after word hbefore hafter =>
    obtain ⟨l, rfl, rfl⟩ := List.map_eq_singleton_iff.1 hwords
    have hstands := (hread l List.mem_cons_self).stands hafter.delimited
    have hspells := Spells.nil.behindBlanks hafter
    rw [List.append_nil] at hspells
    rw [List.append_assoc]
    exact (Spells.lexeme hstands hspells).behindBlanks hbefore
  | @cons before between rest word words hbefore hbetween hsome hrest ih =>
    obtain ⟨l, others, rfl, rfl, hothers⟩ := List.map_eq_cons_iff.1 hwords
    obtain ⟨hl, hls⟩ := List.forall_mem_cons.1 hread
    have hdelimited : Delimited (between ++ rest) := by
      obtain ⟨c, blanks, rfl⟩ := List.exists_cons_of_ne_nil hsome
      exact hbetween.delimited
    have hspells := (ih hls hothers).behindBlanks hbetween
    rw [List.append_assoc]
    exact (Spells.lexeme (hl.stands hdelimited) hspells).behindBlanks hbefore

/-- What the tokens of a text say is said also by their texts spaced anew. -/
theorem lexemes_of_spaced {source source' file : String} {line : Int}
    (h : Spaced ((lex source file line).tokens.map (·.text)) source'.toList) (file' : String)
    (line' : Int) :
    (lex source' file' line').tokens.map (·.lexeme) = (lex source file line).tokens.map (·.lexeme) ∧
      ∃ stop, (lex source' file' line').outcome = .ok stop := by
  have hread : ∀ l ∈ (lex source file line).tokens.map (·.lexeme), l.Readable := by
    intro l hl
    obtain ⟨t, ht, rfl⟩ := List.mem_map.1 hl
    exact readable_of_mem_lexFrom _ t ht
  refine lexemes_of_spells (spells_of_spaced ?_ hread) (.start source'.toList file' line') rfl
  rw [List.map_map]
  exact h

/-! ## Flattening -/

/-- Tokens that say the same are the same without their places. -/
theorem bare_eq_of_lexemes {tokens tokens' : List Token}
    (h : tokens.map (·.lexeme) = tokens'.map (·.lexeme)) : bare tokens = bare tokens' := by
  have hbare (tokens : List Token) :
      bare tokens = (tokens.map (·.lexeme)).map (Token.mk · default) := by
    rw [List.map_map]
    rfl
  rw [hbare, hbare, h]

/-- What comes of two sources is the same for everyone who does not see places: text,
    outline and number of tokens, or the cause of an error, which gives its class, its
    description and its hint, and whether it is at the end. -/
inductive SameButPlaces : Except Failure Flattened → Except Failure Flattened → Prop
  | flattened {first second : Flattened} : first.output = second.output →
    (Node.scope first.scope).outline = (Node.scope second.scope).outline →
    first.tokenCount = second.tokenCount → SameButPlaces (.ok first) (.ok second)
  | invalid {first second : SyntaxError} : first.cause = second.cause →
    first.atEnd = second.atEnd →
    SameButPlaces (.error (.invalid first)) (.error (.invalid second))
  | misuse (fault : Fault) : SameButPlaces (.error (.misuse fault)) (.error (.misuse fault))

theorem SameButPlaces.of_bare {first second : Failure} (h : bare first = bare second) :
    SameButPlaces (.error first) (.error second) := by
  cases first with
  | misuse fault =>
    cases second with
    | misuse fault' =>
      cases h
      exact .misuse _
    | invalid error' => cases h
  | invalid error =>
    cases second with
    | misuse fault' => cases h
    | invalid error' =>
      have herror : bare error = bare error' := Failure.invalid.inj h
      have hcause : (bare error).cause = (bare error').cause := by rw [herror]
      have hatEnd : (bare error).atEnd = (bare error').atEnd := by rw [herror]
      exact .invalid hcause hatEnd

section

variable {source source' file : String} {stop : Location}

/-- The result of flattening a source that has no flaw. -/
theorem result_flatten (options : Options) (h : (lex source file 1).outcome = .ok stop) :
    (flatten options source file).result =
      match (parse options.builtins (Text.splitLines source) (lex source file 1).tokens stop).result with
      | .error failure => .error failure
      | .ok scope =>
        match scope.render options.page options.separator options.builtins with
        | .ok output => .ok ⟨file, scope, output, (lex source file 1).tokens.length + 1⟩
        | .error fault => .error (.misuse fault) := by
  have hlexed : (lex source file 1).toExcept = .ok ((lex source file 1).tokens, stop) := by
    rw [Lexing.toExcept, h]
    rfl
  rw [flatten, parseSource, hlexed]
  dsimp only
  cases (parse options.builtins (Text.splitLines source) (lex source file 1).tokens stop).result with
  | error failure => rfl
  | ok scope =>
    dsimp only [bind, Except.bind]
    cases scope.render options.page options.separator options.builtins <;> rfl

/-- A source that has no flaw can be spaced anew. It has the same lexemes, and comes
    to the same with all options. -/
theorem flatten_respaced (h : (lex source file 1).outcome = .ok stop)
    (hspaced : Spaced ((lex source file 1).tokens.map (·.text)) source'.toList) :
    (∀ file' line', (lex source' file' line').tokens.map (·.lexeme) =
        (lex source file 1).tokens.map (·.lexeme) ∧
      ∃ stop', (lex source' file' line').outcome = .ok stop') ∧
    ∀ options file', SameButPlaces (flatten options source file).result
      (flatten options source' file').result := by
  refine ⟨lexemes_of_spaced hspaced, fun options file' => ?_⟩
  obtain ⟨hlexemes, stop', h'⟩ := lexemes_of_spaced hspaced file' 1
  have hlength : (lex source' file' 1).tokens.length = (lex source file 1).tokens.length := by
    have := congrArg List.length hlexemes
    rwa [List.length_map, List.length_map] at this
  -- both sources are parsed to what their tokens are parsed to without places
  have hparse : bare (parse options.builtins (Text.splitLines source) (lex source file 1).tokens
        stop).result =
      bare (parse options.builtins (Text.splitLines source') (lex source' file' 1).tokens
        stop').result := by
    rw [← parse_bare, ← parse_bare, bare_eq_of_lexemes hlexemes]
  rw [result_flatten options h, result_flatten options h', hlength]
  generalize (parse options.builtins (Text.splitLines source) _ stop).result = first at hparse ⊢
  generalize (parse options.builtins (Text.splitLines source') _ stop').result = second at hparse ⊢
  rcases first with failure | scope
  · rcases second with failure' | scope'
    · exact .of_bare (Except.error.inj hparse)
    · cases hparse
  · rcases second with failure' | scope'
    · cases hparse
    have hbare : bare scope = bare scope' := Except.ok.inj hparse
    have hrender : scope'.render options.page options.separator options.builtins =
        scope.render options.page options.separator options.builtins := by
      rw [← render_bare, ← hbare, render_bare]
    have houtline : (Node.scope scope').outline = (Node.scope scope).outline := by
      rw [← outline_bare, ← hbare, outline_bare]
    dsimp only
    rw [hrender]
    cases scope.render options.page options.separator options.builtins with
    | ok output => exact .flattened rfl houtline.symm rfl
    | error fault => exact .misuse fault

/-- A numeral that stops in front of a digit, and comments. -/
def crampedVariable : String :=
  "int/**/a=078//;\n;"

/-- The same tokens on two lines. -/
def spreadVariable : String :=
  " int\ta =\n07 8 ;"

theorem flatten_respaced_crampedVariable :
    (flatten .standard crampedVariable "a").result.toOption.map (·.output) =
        some "int a = 07 8;\n" ∧
      (∀ file' line', (lex spreadVariable file' line').tokens.map (·.lexeme) =
          (lex crampedVariable "a" 1).tokens.map (·.lexeme) ∧
        ∃ stop', (lex spreadVariable file' line').outcome = .ok stop') ∧
      ∀ options file', SameButPlaces (flatten options crampedVariable "a").result
        (flatten options spreadVariable file').result := by
  have hlexed : (lex crampedVariable "a" 1).outcome = .ok ⟨"a", 2, 2⟩ := by decide +kernel
  have hwords : (lex crampedVariable "a" 1).tokens.map (·.text) =
      ["int", "a", "=", "07", "8", ";"] := by decide +kernel
  have htext : spreadVariable.toList = [' '] ++ "int".toList ++ (['\t'] ++ ([] ++ "a".toList ++
      ([' '] ++ ([] ++ "=".toList ++ (['\n'] ++ ([] ++ "07".toList ++ ([' '] ++
        ([] ++ "8".toList ++ ([' '] ++ ([] ++ ";".toList ++ [])))))))))) := by decide +kernel
  have hspaced : Spaced ((lex crampedVariable "a" 1).tokens.map (·.text)) spreadVariable.toList := by
    rw [hwords, htext]
    have hblanks : Blanks [] ∧ Blanks [' '] ∧ Blanks ['\t'] ∧ Blanks ['\n'] := by decide
    obtain ⟨hnone, hspace, htab, hnewline⟩ := hblanks
    exact .cons hspace htab nofun <| .cons hnone hspace nofun <| .cons hnone hnewline nofun <|
      .cons hnone hspace nofun <| .cons hnone hspace nofun <| .last hnone hnone
  exact ⟨by decide +kernel, flatten_respaced hlexed hspaced⟩

end

end Flattener
