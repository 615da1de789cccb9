import Flattener.Proofs.Text.Rows
import Flattener.Proofs.Token.Tiling

/-!
# Where flaws are found

A cursor stands behind a part of a text, and shows the row in which that part ends
(`Cursor.Behind`); going on does not change that. So the flaw of a text is met with a
cursor in front of the first lexeme that cannot be read (`exists_flaw_of_lexFrom`).
What was read of a literal without an end is the beginning of the text there
(`prefix_of_readLexeme_unterminated`).
-/

namespace Flattener

variable {file : String} {line : Int} {text before : List Char}

/-! ## Cursors -/

namespace Cursor

/-- The cursor is behind a part of a text, the first row of which has the given
    number, and shows the row in which that part ends. -/
structure Behind (file : String) (line : Int) (text before : List Char) (c : Cursor) : Prop where
  rest : before ++ c.rest = text
  location : c.location = placeBehind file line before
  row : c.line = before.rtakeWhile (· ≠ '\n') ++ c.rest

variable {c : Cursor}

theorem behind_start (text : List Char) (file : String) (line : Int) :
    (start text file line).Behind file line text [] :=
  ⟨rfl, placeBehind_nil.symm, rfl⟩

theorem Behind.step (h : c.Behind file line text before) :
    c.step.Behind file line text (before ++ c.rest.take 1) := by
  refine ⟨?_, location_skip 1 h.location, ?_⟩
  · rw [rest_step, List.append_assoc, List.take_append_drop, h.rest]
  · have hrow := h.row
    rw [rest_step, Cursor.step]
    cases hrest : c.rest with
    | nil =>
      rw [hrest] at hrow
      simpa using hrow
    | cons char rest =>
      rw [hrest] at hrow
      by_cases hnewline : char = '\n'
      · simp [hnewline]
      · simp [hnewline, hrow]

theorem Behind.skip (h : c.Behind file line text before) (n : Nat) :
    (c.skip n).Behind file line text (before ++ c.rest.take n) := by
  induction n generalizing c before with
  | zero => simpa [Cursor.skip] using h
  | succ n ih =>
    have hbehind := ih h.step
    rwa [rest_step, List.append_assoc, ← List.take_add, Nat.add_comm] at hbehind

theorem Behind.lineText (h : c.Behind file line text before) : c.lineText.toList =
    before.rtakeWhile (· ≠ '\n') ++ c.rest.takeWhile (· ≠ '\n') := by
  rw [Cursor.lineText, String.toList_ofList, h.row, Text.takeWhile_rtakeWhile_append]

/-- Going on within a row shows the same row. -/
theorem Behind.lineText_skip (h : c.Behind file line text before) {n : Nat}
    (hn : '\n' ∉ c.rest.take n) : (c.skip n).lineText.toList = c.lineText.toList := by
  have hrun : ∀ d ∈ c.rest.take n, decide (d ≠ '\n') = true :=
    fun _ hd => decide_eq_true fun heq => hn (heq ▸ hd)
  rw [(h.skip n).lineText, h.lineText, Text.rtakeWhile_append_of_not_mem before hn, rest_skip,
    List.append_assoc, ← List.takeWhile_append_of_pos hrun, List.take_append_drop]

end Cursor

/-- An error of a text is a flaw of what a cursor in it stands in front of. -/
theorem exists_flaw_of_lexFrom {c : Cursor} {e : SyntaxError}
    (hc : c.Behind file line text before) (h : (lexFrom c).outcome = .error e) :
    ∃ start front first others flaw, Cursor.Behind file line text front start ∧
      start.rest = first :: others ∧ readLexeme first others = .error flaw ∧
      e = flaw.report start := by
  induction c using lexFrom_induction generalizing before with
  | nil c hrest =>
    rw [lexFrom_of_rest_nil hrest] at h
    cases h
  | flaw c first others flaw hrest hread =>
    rw [lexFrom_of_flaw hrest hread] at h
    cases h
    exact ⟨c.pastGap, _, first, others, flaw, hc.skip _, hrest, hread, rfl⟩
  | lexeme c first rest lexeme others hrest hread ih =>
    rw [lexFrom_of_lexeme hrest hread] at h
    exact ih ((hc.skip _).skip _) h

/-! ## Literals without an end -/

section

variable {quote found : Char} {read : List Char}

theorem readEscape_ne_unterminated : readEscape text ≠ .error (.unterminated quote read) := by
  unfold readEscape
  split
  · nofun
  · dsimp only
    split <;> nofun
  · dsimp only
    split <;> nofun

theorem readNumeral_ne_unterminated {first : Char} :
    readNumeral first text ≠ .error (.unterminated quote read) := by
  have hprefixed (base : Nat) (letter : Char) (rest : List Char) :
      readPrefixed base letter rest ≠ .error (.unterminated quote read) := by
    unfold readPrefixed
    dsimp only
    split <;> nofun
  unfold readNumeral
  split
  · split
    · exact hprefixed _ _ _
    · split
      · exact hprefixed _ _ _
      · split <;> nofun
  · nofun

theorem Flaw.after_eq_unterminated {flaw : Flaw} (h : flaw.after text = .unterminated quote read) :
    ∃ behind, flaw = .unterminated quote behind ∧ read = text ++ behind := by
  cases flaw with
  | unterminated _ behind =>
    cases h
    exact ⟨behind, rfl, rfl⟩
  | _ => cases h

theorem prependElement_eq_unterminated {value : Char} {element : List Char}
    {others : Except Flaw (List Char × List Char)}
    (h : prependElement value element others = .error (.unterminated quote read)) :
    ∃ behind, others = .error (.unterminated quote behind) ∧ read = element ++ behind := by
  cases others with
  | ok contents => cases h
  | error flaw =>
    obtain ⟨behind, rfl, rfl⟩ := Flaw.after_eq_unterminated (Except.error.inj h)
    exact ⟨behind, rfl, rfl⟩

/-- What was read of the contents of a literal is what stands there. -/
theorem prefix_of_readContents (h : readContents quote text = .error (.unterminated found read)) :
    read <+: text := by
  induction text using readContents.induct quote generalizing read with
  | case1 =>
    rw [readContents] at h
    cases h
    exact List.nil_prefix
  | case2 rest =>
    rw [readContents, if_pos rfl] at h
    cases h
  | case3 rest hne =>
    rw [readContents, if_neg hne, if_pos rfl] at h
    cases h
    exact List.nil_prefix
  | case4 rest flaw hflaw hne hline =>
    rw [readContents, if_neg hne, if_neg hline, if_pos rfl, hflaw] at h
    obtain ⟨behind, rfl, -⟩ := Flaw.after_eq_unterminated (Except.error.inj h)
    exact absurd hflaw readEscape_ne_unterminated
  | case5 rest value length hescape hne hline ih =>
    rw [readContents, if_neg hne, if_neg hline, if_pos rfl, hescape] at h
    obtain ⟨behind, hread, rfl⟩ := prependElement_eq_unterminated h
    have hrest := (List.prefix_append_right_inj (rest.take length)).2 (ih hread)
    rw [List.take_append_drop] at hrest
    exact List.cons_prefix_cons.2 ⟨rfl, hrest⟩
  | case6 c rest hne hline hback ih =>
    rw [readContents, if_neg hne, if_neg hline, if_neg hback] at h
    obtain ⟨behind, hread, rfl⟩ := prependElement_eq_unterminated h
    exact List.cons_prefix_cons.2 ⟨rfl, ih hread⟩

/-- Only a literal is without an end, and what was read of it is what stands there. -/
theorem prefix_of_readLexeme_unterminated {first : Char}
    (h : readLexeme first text = .error (.unterminated quote read)) : read <+: first :: text := by
  rw [readLexeme] at h
  split at h
  · cases h
  · split at h
    · exact absurd h readNumeral_ne_unterminated
    · split at h
      · rw [readLiteral] at h
        split at h
        · next flaw hflaw =>
          obtain ⟨behind, rfl, rfl⟩ := Flaw.after_eq_unterminated (Except.error.inj h)
          exact List.cons_prefix_cons.2 ⟨rfl, prefix_of_readContents hflaw⟩
        · cases h
      · split at h
        · cases h
        · rw [readOperator] at h
          split at h
          · cases h
          · cases h

end

end Flattener
