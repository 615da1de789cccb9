import Flattener.Proofs.Token.Composition
import Mathlib.Data.List.DropRight

/-!
# Tokens and gaps tile the text

A text that is read to its end is cut, without a rest and without an overlap,
into the spellings of its tokens and the gaps in front of them and behind the
last one (`Cut`). A gap is made of blanks and comments (`Gap`), and what is in
front of a token tells its location: as many lines down as there are newlines,
and as many columns on as there are characters behind the last newline
(`placeBehind`). The main result is `cut_of_lex`.
-/

namespace Flattener

/-! ## Places -/

/-- The place behind a text whose first line has the given number. -/
def placeBehind (file : String) (line : Int) (text : List Char) : Location :=
  ⟨file, line + text.count '\n', 1 + (text.rtakeWhile (· ≠ '\n')).length⟩

section Places

variable {file : String} {line : Int}

theorem placeBehind_nil : placeBehind file line [] = ⟨file, line, 1⟩ := by
  simp [placeBehind]

theorem placeBehind_concat (text : List Char) (c : Char) :
    placeBehind file line (text ++ [c]) = (placeBehind file line text).after c := by
  by_cases hc : c = '\n'
  · simp [placeBehind, Location.after, hc, Int.add_assoc]
  · simp [placeBehind, Location.after, hc, Int.add_assoc]

/-- A cursor that skips a part of the text stands behind that part. -/
theorem Cursor.location_skip (n : Nat) {c : Cursor} {before : List Char}
    (h : c.location = placeBehind file line before) :
    (c.skip n).location = placeBehind file line (before ++ c.rest.take n) := by
  induction n generalizing c before with
  | zero => simpa [skip] using h
  | succ n ih =>
    rw [skip]
    cases hrest : c.rest with
    | nil =>
      have hstep : c.step = c := by
        rw [step, hrest]
      have := ih h
      rwa [hrest, List.take_nil, ← hstep] at this
    | cons char rest =>
      have hlocation : c.step.location = placeBehind file line (before ++ [char]) := by
        rw [placeBehind_concat, ← h, step, hrest]
      rw [ih hlocation, rest_step, hrest, List.take_succ_cons, List.append_assoc]
      rfl

end Places

/-! ## Gaps -/

/-- The characters with which a block comment ends. -/
def closing : List Char :=
  ['*', '/']

/-- Blanks and comments in front of a rest. A line comment reaches up to the
    next newline or to the end of the text, and a block comment through the
    first closing behind its opening. -/
inductive Gap (rest : List Char) : List Char → Prop
  | nil : Gap rest []
  | blank {c : Char} {gap : List Char} : isBlank c = true → Gap rest gap → Gap rest (c :: gap)
  | lineComment {body gap : List Char} : '\n' ∉ body → (∀ c ∈ (gap ++ rest).head?, c = '\n') →
    Gap rest gap → Gap rest ('/' :: '/' :: (body ++ gap))
  | blockComment {body gap : List Char} :
    (∀ front behind, body ++ closing = front ++ closing ++ behind → behind = []) →
    Gap rest gap → Gap rest ('/' :: '*' :: (body ++ closing ++ gap))

/-- What a line comment takes is its text up to the newline. -/
theorem take_lineCommentLength (text : List Char) :
    '\n' ∉ text.take (lineCommentLength text) ∧
      ∀ c ∈ (text.drop (lineCommentLength text)).head?, c = '\n' := by
  obtain ⟨body, behind, rfl, hbody⟩ := exists_takeWhile (fun c => decide (c ≠ '\n')) text
  obtain ⟨hall, hhead⟩ := takeWhile_eq_iff.1 hbody
  rw [lineCommentLength, hbody, List.take_left', List.drop_left']
  · refine ⟨fun hmem => ?_, fun c hc => ?_⟩
    · simpa using hall '\n' hmem
    · simpa using hhead c hc
  · rfl
  · rfl

/-- What a block comment takes is its text through the first closing. -/
theorem eq_append_of_blockCommentLength? {text : List Char} {n : Nat}
    (h : blockCommentLength? text = some n) :
    ∃ body, text.take n = body ++ closing ∧
      ∀ front behind, body ++ closing = front ++ closing ++ behind → behind = [] := by
  induction text using blockCommentLength?.induct generalizing n with
  | case1 => cases h
  | case2 rest =>
    cases h
    refine ⟨[], rfl, fun front behind heq => ?_⟩
    have hlength := congrArg List.length heq
    simp only [closing, List.length_append, List.length_cons, List.length_nil] at hlength
    exact List.length_eq_zero_iff.1 (by omega)
  | case3 c rest hopen ih =>
    rw [blockCommentLength?, Option.map_eq_some_iff] at h
    · obtain ⟨n, hn, rfl⟩ := h
      obtain ⟨body, htake, hfirst⟩ := ih hn
      refine ⟨c :: body, by rw [List.take_succ_cons, htake]; rfl, fun front behind heq => ?_⟩
      cases front with
      | nil =>
        -- the closing would begin with the character in front of the rest
        obtain ⟨rfl, hbody⟩ := List.cons.inj heq
        have hrest : rest = '/' :: (behind ++ rest.drop n) :=
          calc rest = rest.take n ++ rest.drop n := (List.take_append_drop n rest).symm
            _ = '/' :: behind ++ rest.drop n := congrArg (· ++ rest.drop n) (htake.trans hbody)
        exact absurd hrest (hopen _ rfl)
      | cons d front => exact hfirst front behind (List.cons.inj heq).2
    · exact hopen

theorem take_opening (a b : Char) (rest : List Char) (m n : Nat) :
    (a :: b :: rest).take (2 + m + n) = a :: b :: (rest.take m ++ (rest.drop m).take n) := by
  rw [Nat.add_assoc, Nat.add_comm, List.take_succ_cons, List.take_succ_cons, List.take_add]

theorem drop_opening (a b : Char) (rest : List Char) (m n : Nat) :
    (a :: b :: rest).drop (2 + m + n) = (rest.drop m).drop n := by
  rw [Nat.add_assoc, Nat.add_comm, List.drop_succ_cons, List.drop_succ_cons, List.drop_drop]

/-- What is skipped in front of a lexeme is a gap. -/
theorem gap_take_gapLength (text : List Char) :
    Gap (text.drop (gapLength text)) (text.take (gapLength text)) := by
  induction text using gapLength.induct with
  | case1 =>
    rw [List.take_nil]
    exact .nil
  | case2 rest n ih =>
    obtain ⟨hbody, hhead⟩ := take_lineCommentLength rest
    rw [gapLength, take_opening, drop_opening]
    refine .lineComment hbody ?_ ih
    rwa [List.take_append_drop]
  | case3 rest n hn ih =>
    obtain ⟨body, htake, hfirst⟩ := eq_append_of_blockCommentLength? hn
    rw [gapLength, hn]
    simp only [take_opening, drop_opening, htake]
    exact .blockComment hfirst ih
  | case4 rest hn =>
    rw [gapLength, hn]
    exact .nil
  | case5 c rest hline hblock hblank ih =>
    rw [gapLength, if_pos hblank, Nat.add_comm]
    · exact .blank hblank ih
    · exact hline
    · exact hblock
  | case6 c rest hline hblock hblank =>
    rw [gapLength, if_neg hblank]
    · exact .nil
    · exact hline
    · exact hblock

/-! ## Spellings -/

theorem prefix_of_readPrefixed {base : Nat} {letter : Char} {text others : List Char} {l : Lexeme}
    (h : readPrefixed base letter text = .ok (l, others)) : others <+: letter :: text := by
  unfold readPrefixed at h
  dsimp only at h
  split at h
  · cases h
  · cases h
    exact List.cons_prefix_cons.2 ⟨rfl, List.takeWhile_prefix _⟩

theorem prefix_of_readNumeral {first : Char} {text others : List Char} {l : Lexeme}
    (h : readNumeral first text = .ok (l, others)) : others <+: text := by
  have hdecimal : ∀ {first text}, readDecimal first text = (l, others) → others <+: text :=
    fun h => (readDecimal_append h delimited_nil).2.2
  unfold readNumeral at h
  split at h
  · split at h
    · exact prefix_of_readPrefixed h
    · split at h
      · exact prefix_of_readPrefixed h
      · split at h
        · cases h
          exact List.takeWhile_prefix _
        · exact hdecimal (Except.ok.inj h)
  · exact hdecimal (Except.ok.inj h)

theorem prefix_of_readLiteral {quote : Char} {text others : List Char} {l : Lexeme}
    (hquote : quote = '"' ∨ quote = '\'') (h : readLiteral quote text = .ok (l, others)) :
    others <+: text := by
  have hdigit : isDigitOf 16 quote = false ∧ isDigitOf 8 quote = false := by
    rcases hquote with rfl | rfl
    · decide
    · decide
  rw [readLiteral] at h
  split at h
  · cases h
  · next contents spelling hread =>
    cases h
    obtain ⟨_, rest, _, rfl, _⟩ := readContents_append hdigit.1 hdigit.2 hread
    exact List.prefix_append ..

theorem prefix_of_readOperator {first : Char} {text others : List Char} {l : Lexeme}
    (h : readOperator first text = .ok (l, others)) : others <+: text := by
  rw [readOperator] at h
  split at h
  · next spelling hfind =>
    cases h
    have hhead := (List.find?_eq_some_iff_append.1 hfind).1
    have hprefix := List.isPrefixOf_iff_prefix.1 hhead
    cases spelling with
    | nil => exact List.nil_prefix
    | cons c others => exact (List.cons_prefix_cons.1 hprefix).2
  · cases h

/-- A lexeme is spelled with the characters that were read for it. -/
theorem spelling_of_readLexeme {first : Char} {text others : List Char} {l : Lexeme}
    (h : readLexeme first text = .ok (l, others)) :
    l.spelling.toList = first :: others ∧ others <+: text := by
  rw [readLexeme] at h
  split at h
  · cases h
    exact ⟨String.toList_ofList, List.takeWhile_prefix _⟩
  · split at h
    · exact ⟨(readNumeral_append h delimited_nil).2, prefix_of_readNumeral h⟩
    · split at h
      · next hquote =>
        exact ⟨(readLiteral_append hquote h []).2, prefix_of_readLiteral hquote h⟩
      · split at h
        · cases h
        · exact ⟨(readOperator_append h delimited_nil).2.1, prefix_of_readOperator h⟩

/-- Every token is spelled with characters of the text. -/
theorem text_subset_of_mem_lexFrom (c : Cursor) :
    ∀ t ∈ (lexFrom c).tokens, t.text.toList ⊆ c.rest := by
  induction c using lexFrom_induction with
  | nil c hrest =>
    rw [lexFrom_of_rest_nil hrest]
    exact List.forall_mem_nil _
  | flaw c first text flaw hrest hread =>
    rw [lexFrom_of_flaw hrest hread]
    exact List.forall_mem_nil _
  | lexeme c first text lexeme others hrest hread ih =>
    obtain ⟨hspelling, hothers⟩ := spelling_of_readLexeme hread
    have hpast : c.pastGap.rest ⊆ c.rest := by
      rw [Cursor.rest_pastGap]
      exact List.drop_subset _ _
    rw [lexFrom_of_lexeme hrest hread]
    refine List.forall_mem_cons.2 ⟨?_, fun t ht => List.Subset.trans (ih t ht) ?_⟩
    · have hfirst : lexeme.spelling.toList ⊆ c.pastGap.rest := by
        rw [hspelling, hrest]
        exact List.cons_subset_cons _ hothers.subset
      exact List.Subset.trans hfirst hpast
    · rw [Cursor.rest_skip]
      exact List.Subset.trans (List.drop_subset _ _) hpast

/-! ## Tilings -/

/-- Behind a part of a text, what is left is cut into gaps and the spellings of
    tokens, each of which has its location told by all that is in front of it. -/
inductive Cut (file : String) (line : Int) :
    List Char → List Char → List Token → Location → Prop
  | last {before gap : List Char} : Gap [] gap →
    Cut file line before gap [] (placeBehind file line (before ++ gap))
  | token {before gap rest : List Char} {t : Token} {tokens : List Token} {stop : Location} :
    Gap (t.text.toList ++ rest) gap → t.text ≠ "" →
    t.location = placeBehind file line (before ++ gap) →
    Cut file line (before ++ gap ++ t.text.toList) rest tokens stop →
    Cut file line before (gap ++ (t.text.toList ++ rest)) (t :: tokens) stop

section Tilings

variable {file : String} {line : Int}

/-- The end of input stands behind the whole text. -/
theorem Cut.stop_eq {before text : List Char} {tokens : List Token} {stop : Location}
    (h : Cut file line before text tokens stop) : stop = placeBehind file line (before ++ text) := by
  induction h with
  | last _ => rfl
  | token _ _ _ _ ih => rw [ih]; simp only [List.append_assoc]

/-- A cursor that goes past a gap leaves the gap in front of it. -/
theorem Cursor.exists_gap {c : Cursor} {before : List Char}
    (hc : c.location = placeBehind file line before) :
    ∃ gap, c.rest = gap ++ c.pastGap.rest ∧ Gap c.pastGap.rest gap ∧
      c.pastGap.location = placeBehind file line (before ++ gap) := by
  refine ⟨c.rest.take (gapLength c.rest), ?_, ?_, Cursor.location_skip _ hc⟩
  · rw [rest_pastGap, List.take_append_drop]
  · rw [rest_pastGap]
    exact gap_take_gapLength c.rest

/-- What is read to its end is cut into its tokens and gaps. -/
theorem cut_lexFrom {c : Cursor} {before : List Char} {stop : Location}
    (hc : c.location = placeBehind file line before) (h : (lexFrom c).outcome = .ok stop) :
    Cut file line before c.rest (lexFrom c).tokens stop := by
  induction c using lexFrom_induction generalizing before with
  | nil c hrest =>
    obtain ⟨gap, htext, hgap, hplace⟩ := Cursor.exists_gap hc
    rw [hrest] at htext hgap
    rw [lexFrom_of_rest_nil hrest] at h ⊢
    obtain rfl := Except.ok.inj h
    rw [htext, List.append_nil, hplace]
    exact .last hgap
  | flaw c first text flaw hrest hread =>
    rw [lexFrom_of_flaw hrest hread] at h
    cases h
  | lexeme c first text lexeme others hrest hread ih =>
    obtain ⟨gap, htext, hgap, hplace⟩ := Cursor.exists_gap hc
    obtain ⟨hspelling, rest, rfl⟩ := spelling_of_readLexeme hread
    have hpast : c.pastGap.rest = lexeme.spelling.toList ++ rest := by rw [hrest, hspelling]; rfl
    have hlength : others.length + 1 = lexeme.spelling.toList.length := by rw [hspelling]; rfl
    have hbehind : (c.pastGap.skip (others.length + 1)).location =
        placeBehind file line (before ++ gap ++ lexeme.spelling.toList) := by
      rw [Cursor.location_skip _ hplace, hpast, List.take_left' hlength.symm]
    have hrest' : (c.pastGap.skip (others.length + 1)).rest = rest := by
      rw [Cursor.rest_skip, hpast, List.drop_left' hlength.symm]
    rw [lexFrom_of_lexeme hrest hread] at h ⊢
    have hcut := ih hbehind h
    rw [hrest'] at hcut
    rw [hpast] at htext hgap
    rw [htext]
    refine .token (t := ⟨lexeme, c.pastGap.location⟩) hgap (fun hnil => ?_) hplace hcut
    have hempty : lexeme.spelling.toList = [] := congrArg String.toList hnil
    rw [hspelling] at hempty
    cases hempty

/-- A text that is read to its end is tiled by its tokens and the gaps between
    them, and the end of input stands behind all of it. -/
theorem cut_of_lex {source : String} {stop : Location}
    (h : (lex source file line).outcome = .ok stop) :
    Cut file line [] source.toList (lex source file line).tokens stop ∧
      stop = placeBehind file line source.toList := by
  have hcut := cut_lexFrom placeBehind_nil.symm h
  exact ⟨hcut, hcut.stop_eq⟩

/-- A comment that opens as it closes, a numeral that stops in front of a digit, a
    string over two lines, a point that begins no fraction, and a comment up to the
    end. -/
def raggedText : String :=
  "/*/ * **/078\x0b \"a\\\n\" // b\n1.e //"

theorem cut_of_lex_raggedText :
    (lex raggedText "a.cpp" 7).outcome = .ok ⟨"a.cpp", 9, 7⟩ ∧
      (lex raggedText "a.cpp" 7).tokens.map (fun t => (t.text, t.location.line, t.location.column)) =
        [("07", 7, 10), ("8", 7, 12), ("\"a\\\n\"", 7, 15), ("1", 9, 1), (".", 9, 2), ("e", 9, 3)] ∧
      Cut "a.cpp" 7 [] raggedText.toList (lex raggedText "a.cpp" 7).tokens ⟨"a.cpp", 9, 7⟩ ∧
      ⟨"a.cpp", 9, 7⟩ = placeBehind "a.cpp" 7 raggedText.toList := by
  have h : (lex raggedText "a.cpp" 7).outcome = .ok ⟨"a.cpp", 9, 7⟩ := by decide +kernel
  exact ⟨h, by decide +kernel, cut_of_lex h⟩

end Tilings

end Flattener
