import Flattener.Proofs.Token.Tiling
import Mathlib.Data.List.Find

/-!
# Texts that a newline parts

A newline joins nothing. No lexeme and no gap in front of it is read differently
because of what is behind it (`readLexeme_append_newline`,
`gapLength_append_newline`), apart from the gap at the end of the text, which goes
on behind the newline. There the cursor stands at the start of a line, as if the
text began with it. So two texts with a newline between them have the tokens of the
first one and then what the second one has from its line on, be that its end or
its flaw (`lex_append_newline`).
-/

namespace Flattener

variable {text behind : List Char}

/-! ## Lexemes -/

/-- A stretch of what no newline is ends in front of a newline. -/
theorem takeWhile_append_newline {p : Char → Bool} (hp : p '\n' = false) (text behind : List Char) :
    (text ++ '\n' :: behind).takeWhile p = text.takeWhile p := by
  obtain ⟨run, rest, rfl, hrun⟩ := exists_takeWhile p text
  obtain ⟨hall, hhead⟩ := takeWhile_eq_iff.1 hrun
  rw [hrun, List.append_assoc]
  refine takeWhile_eq_iff.2 ⟨hall, ?_⟩
  cases rest with
  | nil =>
    rintro _ ⟨⟩
    exact hp
  | cons c rest => exact hhead

theorem readDecimal_append_newline (first : Char) (text behind : List Char) :
    readDecimal first (text ++ '\n' :: behind) = readDecimal first text := by
  obtain ⟨digits, rest, rfl, hdigits⟩ := exists_takeWhile Char.isDigit text
  have hbehind : (digits ++ rest ++ '\n' :: behind).takeWhile Char.isDigit = digits := by
    rw [takeWhile_append_newline (by decide), hdigits]
  rw [readDecimal, readDecimal]
  simp only [hdigits, hbehind]
  rw [List.append_assoc, List.drop_left', List.drop_left']
  · rcases rest with _ | ⟨c, rest⟩
    · rfl
    by_cases hpoint : c = '.'
    · subst hpoint
      simp only [List.cons_append, takeWhile_append_newline (p := Char.isDigit) (by decide)]
    · simp [hpoint]
  · rfl
  · rfl

theorem readPrefixed_append_newline (base : Nat) (letter : Char) (text behind : List Char) :
    readPrefixed base letter (text ++ '\n' :: behind) = readPrefixed base letter text := by
  have hnewline : isDigitOf base '\n' = false := by
    have hclass : ¬('a' ≤ '\n' ∧ '\n' ≤ 'f') ∧ ¬('A' ≤ '\n' ∧ '\n' ≤ 'F') := by decide
    rw [isDigitOf, if_neg (by decide), if_neg hclass.1, if_neg hclass.2]
  simp only [readPrefixed, takeWhile_append_newline hnewline]

theorem readNumeral_append_newline (first : Char) (text behind : List Char) :
    readNumeral first (text ++ '\n' :: behind) = readNumeral first text := by
  by_cases hzero : first = '0'
  · subst hzero
    rcases text with _ | ⟨c, rest⟩
    · have hten : readNumeral '0' ('\n' :: behind) = .ok (readDecimal '0' ('\n' :: behind)) :=
        readNumeral_eq_readDecimal fun _ c hc => by cases hc; decide
      exact hten.trans (congrArg Except.ok (readDecimal_append_newline '0' [] behind))
    · have hoctal : readOctal (c :: (rest ++ '\n' :: behind)) = readOctal (c :: rest) := by
        have := takeWhile_append_newline (p := isDigitOf 8) (by decide) (c :: rest) behind
        rw [List.cons_append] at this
        simp only [readOctal, this]
      have hdecimal := readDecimal_append_newline '0' (c :: rest) behind
      rw [List.cons_append] at hdecimal
      simp only [List.cons_append, readNumeral, readPrefixed_append_newline, hoctal, hdecimal]
  · have hten (text : List Char) : readNumeral first text = .ok (readDecimal first text) :=
      readNumeral_eq_readDecimal fun h => absurd h hzero
    rw [hten, hten, readDecimal_append_newline]

/-- No operator goes on with a newline. -/
theorem readOperator_append_newline (first : Char) (text behind : List Char) :
    readOperator first (text ++ '\n' :: behind) = readOperator first text := by
  have hnone : ∀ op ∈ operatorTexts, '\n' ∉ op := by decide
  have hsame : ∀ op ∈ operatorTexts,
      op.isPrefixOf (first :: (text ++ '\n' :: behind)) = op.isPrefixOf (first :: text) := by
    intro op hop
    rw [Bool.eq_iff_iff, List.isPrefixOf_iff_prefix, List.isPrefixOf_iff_prefix, ← List.cons_append]
    refine ⟨fun h => ?_, fun h => h.trans (List.prefix_append _ _)⟩
    rcases List.prefix_or_prefix_of_prefix h (List.prefix_append _ _) with hshort | ⟨more, rfl⟩
    · exact hshort
    · -- an operator that is longer would hold the newline
      rcases more with _ | ⟨c, more⟩
      · simp
      · obtain ⟨rfl, -⟩ := List.cons_prefix_cons.1 ((List.prefix_append_right_inj _).1 h)
        exact absurd (by simp) (hnone _ hop)
  rw [readOperator, readOperator, List.find?_congr hsame]

/-- What was read in front of a newline does not depend on what is behind it. -/
theorem readLexeme_append_newline {first : Char} {others : List Char} {l : Lexeme}
    (h : readLexeme first text = .ok (l, others)) (behind : List Char) :
    readLexeme first (text ++ '\n' :: behind) = .ok (l, others) := by
  rw [readLexeme] at h ⊢
  split
  · next hstart =>
    rw [if_pos hstart] at h
    simpa only [readIdentifier, takeWhile_append_newline (p := isNameChar) (by decide)] using h
  next hstart =>
  rw [if_neg hstart] at h
  split
  · next hdigit =>
    rw [if_pos hdigit] at h
    rwa [readNumeral_append_newline]
  next hdigit =>
  rw [if_neg hdigit] at h
  split
  · next hquote =>
    rw [if_pos hquote] at h
    obtain ⟨rest, rfl⟩ := prefix_of_readLiteral hquote h
    rw [List.append_assoc]
    exact (readLiteral_append hquote h _).1
  next hquote =>
  rw [if_neg hquote] at h
  split at h
  · cases h
  next hcomment =>
  have hopen : ¬(first = '/' ∧ (text ++ '\n' :: behind).head? = some '*') := by
    cases text with
    | nil => exact fun h => absurd h.2 (by simp)
    | cons c text => exact hcomment
  rwa [if_neg hopen, readOperator_append_newline]

/-! ## Gaps -/

/-- A block comment ends where it ends, whatever is behind it. -/
theorem blockCommentLength?_append {n : Nat} (h : blockCommentLength? text = some n)
    (behind : List Char) : blockCommentLength? (text ++ behind) = some n := by
  induction text using blockCommentLength?.induct generalizing n with
  | case1 => cases h
  | case2 rest => exact h
  | case3 c rest hopen ih =>
    rw [blockCommentLength?, Option.map_eq_some_iff] at h
    · obtain ⟨n, hn, rfl⟩ := h
      rw [List.cons_append, blockCommentLength?, ih hn]
      · rfl
      · -- a star at the end of the rest would leave it without an end
        rintro tail rfl htail
        rcases rest with _ | ⟨d, rest⟩
        · cases hn
        · obtain ⟨rfl, -⟩ := List.cons.inj htail
          exact hopen rest rfl rfl
    · exact hopen

theorem length_le_of_blockCommentLength? {n : Nat} (h : blockCommentLength? text = some n) :
    n ≤ text.length := by
  induction text using blockCommentLength?.induct generalizing n with
  | case1 => cases h
  | case2 rest =>
    cases h
    simp
  | case3 c rest hopen ih =>
    rw [blockCommentLength?, Option.map_eq_some_iff] at h
    · obtain ⟨n, hn, rfl⟩ := h
      exact Nat.succ_le_succ (ih hn)
    · exact hopen

theorem gapLength_of_isBlank {c : Char} (h : isBlank c = true) (text : List Char) :
    gapLength (c :: text) = 1 + gapLength text := by
  have hslash : c ≠ '/' := by
    rintro rfl
    exact absurd h (by decide)
  rw [gapLength_of_ne_slash hslash, if_pos h]

/-- A block comment that has no end is not skipped. -/
theorem gapLength_of_endless (h : blockCommentLength? text = none) :
    gapLength ('/' :: '*' :: text) = 0 := by
  rw [gapLength, h]

/-- What is no blank and opens no comment is not skipped. -/
theorem gapLength_of_not_isBlank {c : Char}
    (hline : ∀ rest, c = '/' → text = '/' :: rest → False)
    (hblock : ∀ rest, c = '/' → text = '*' :: rest → False) (h : ¬isBlank c = true) :
    gapLength (c :: text) = 0 := by
  rw [gapLength, if_neg h]
  · exact hline
  · exact hblock

/-- No more is skipped than there is. -/
theorem gapLength_le_length (text : List Char) : gapLength text ≤ text.length := by
  induction text using gapLength.induct with
  | case1 => simp [gapLength]
  | case2 rest n ih =>
    have hle : n ≤ rest.length := (List.takeWhile_prefix _).length_le
    rw [List.length_drop] at ih
    rw [gapLength, List.length_cons, List.length_cons]
    change 2 + n + gapLength (rest.drop n) ≤ _
    omega
  | case3 rest n hn ih =>
    have hle := length_le_of_blockCommentLength? hn
    rw [List.length_drop] at ih
    rw [gapLength, hn, List.length_cons, List.length_cons]
    change 2 + n + gapLength (rest.drop n) ≤ _
    omega
  | case4 rest hn =>
    rw [gapLength_of_endless hn]
    exact Nat.zero_le _
  | case5 c rest _ _ hblank ih =>
    rw [gapLength_of_isBlank hblank, List.length_cons]
    omega
  | case6 c rest hline hblock hblank =>
    rw [gapLength_of_not_isBlank hline hblock hblank]
    exact Nat.zero_le _

/-- No gap is left behind the one that is skipped. -/
theorem gapLength_drop_gapLength (text : List Char) :
    gapLength (text.drop (gapLength text)) = 0 := by
  induction text using gapLength.induct with
  | case1 => simp [gapLength]
  | case2 rest n ih =>
    rw [gapLength, drop_opening]
    exact ih
  | case3 rest n hn ih =>
    rw [gapLength, hn]
    simp only [drop_opening, ih]
  | case4 rest hn =>
    have hzero := gapLength_of_endless hn
    rw [hzero, List.drop_zero, hzero]
  | case5 c rest _ _ hblank ih =>
    rw [gapLength_of_isBlank hblank, Nat.add_comm, List.drop_succ_cons]
    exact ih
  | case6 c rest hline hblock hblank =>
    have hzero := gapLength_of_not_isBlank hline hblock hblank
    rw [hzero, List.drop_zero, hzero]

/-- A gap goes on behind a newline only if it comes up to it. -/
theorem gapLength_append_newline (text behind : List Char) :
    gapLength (text ++ '\n' :: behind) =
      gapLength text + gapLength (text.drop (gapLength text) ++ '\n' :: behind) := by
  induction text using gapLength.induct with
  | case1 => simp [gapLength]
  | case2 rest n ih =>
    have hcomment : lineCommentLength (rest ++ '\n' :: behind) = lineCommentLength rest := by
      rw [lineCommentLength, takeWhile_append_newline (by decide), lineCommentLength]
    have hle : n ≤ rest.length := (List.takeWhile_prefix _).length_le
    rw [gapLength, drop_opening, List.cons_append, List.cons_append, gapLength, hcomment,
      List.drop_append_of_le_length hle, ih]
    exact (Nat.add_assoc ..).symm
  | case3 rest n hn ih =>
    have hle := length_le_of_blockCommentLength? hn
    rw [gapLength, hn, List.cons_append, List.cons_append, gapLength, blockCommentLength?_append hn]
    simp only [drop_opening, List.drop_append_of_le_length hle, ih]
    omega
  | case4 rest hn =>
    rw [gapLength_of_endless hn, List.drop_zero, Nat.zero_add]
  | case5 c rest _ _ hblank ih =>
    rw [List.cons_append, gapLength_of_isBlank hblank, gapLength_of_isBlank hblank, ih,
      Nat.add_comm 1 (gapLength rest), List.drop_succ_cons]
    omega
  | case6 c rest hline hblock hblank =>
    rw [gapLength_of_not_isBlank hline hblock hblank, List.drop_zero, Nat.zero_add]

/-! ## Cursors -/

namespace Cursor

/-- The same place, with a newline and more text behind the end. -/
def followed (c : Cursor) (behind : List Char) : Cursor :=
  ⟨c.rest ++ '\n' :: behind, c.location, c.line ++ '\n' :: behind⟩

theorem skip_followed {n : Nat} {c : Cursor} (h : n ≤ c.rest.length) (behind : List Char) :
    (c.followed behind).skip n = (c.skip n).followed behind := by
  induction n generalizing c with
  | zero => rfl
  | succ n ih =>
    obtain ⟨rest, location, line⟩ := c
    rcases rest with _ | ⟨char, rest⟩
    · cases h
    have hstep : (followed ⟨char :: rest, location, line⟩ behind).step =
        followed (step ⟨char :: rest, location, line⟩) behind := by
      by_cases hnewline : char = '\n'
      · simp [step, followed, hnewline]
      · simp [step, followed, hnewline]
    rw [skip, hstep, ih (Nat.le_of_succ_le_succ h), skip]

/-- A gap does not end otherwise because of what is behind a newline. -/
theorem pastGap_followed (c : Cursor) (behind : List Char) :
    (c.followed behind).pastGap = (c.pastGap.followed behind).pastGap := by
  have hle := gapLength_le_length c.rest
  have hgap : gapLength (c.followed behind).rest =
      gapLength c.rest + gapLength ((c.followed behind).rest.drop (gapLength c.rest)) := by
    show gapLength (c.rest ++ '\n' :: behind) = _
    rw [gapLength_append_newline]
    show _ = _ + gapLength ((c.rest ++ '\n' :: behind).drop _)
    rw [List.drop_append_of_le_length hle]
  rw [pastGap_eq hgap, skip_followed hle]
  rfl

/-- Behind the newline the text begins anew. -/
theorem pastGap_followed_of_rest_nil {c : Cursor} (h : c.rest = []) (behind : List Char) :
    (c.followed behind).pastGap =
      (start behind c.location.file (c.location.line + 1)).pastGap := by
  have hrest : (c.followed behind).rest = '\n' :: behind := by
    rw [followed, h]
    rfl
  have hgap : gapLength (c.followed behind).rest =
      1 + gapLength ((c.followed behind).rest.drop 1) := by
    rw [hrest, gapLength_of_ne_slash (by decide)]
    rfl
  rw [pastGap_eq hgap]
  congr 1
  rw [skip, skip, step, hrest]
  rfl

end Cursor

/-! ## Readings -/

/-- In front of a lexeme that is read there is no gap, whatever is behind a newline. -/
theorem gapLength_append_newline_of_readLexeme {first : Char} {others : List Char} {l : Lexeme}
    (hgap : gapLength (first :: text) = 0) (hread : readLexeme first text = .ok (l, others))
    (behind : List Char) : gapLength (first :: (text ++ '\n' :: behind)) = 0 := by
  by_cases hslash : first = '/'
  · subst hslash
    refine gapLength_slash fun c hc => ?_
    rcases text with _ | ⟨d, text⟩
    · cases hc
      decide
    · cases hc
      refine ⟨?_, ?_⟩
      · rintro rfl
        rw [gapLength] at hgap
        omega
      · rintro rfl
        cases hread
  · have hblank : isBlank first = false := by
      rw [gapLength_of_ne_slash hslash] at hgap
      split at hgap
      · omega
      · next hblank => exact Bool.eq_false_iff.2 hblank
    exact gapLength_eq_zero hslash hblank _

/-- What is read of a text up to its end, and then of one that begins behind a
    newline. -/
theorem lexFrom_followed {c : Cursor} {stop : Location} (h : (lexFrom c).outcome = .ok stop)
    (behind : List Char) : lexFrom (c.followed behind) =
      ⟨(lexFrom c).tokens ++ (lexFrom (.start behind stop.file (stop.line + 1))).tokens,
        (lexFrom (.start behind stop.file (stop.line + 1))).outcome⟩ := by
  induction c using lexFrom_induction with
  | nil c hrest =>
    rw [lexFrom_of_rest_nil hrest] at h ⊢
    cases h
    rw [lexFrom_eq_of_pastGap ((Cursor.pastGap_followed c behind).trans
      (Cursor.pastGap_followed_of_rest_nil hrest behind))]
    rfl
  | flaw c first text flaw hrest hread =>
    rw [lexFrom_of_flaw hrest hread] at h
    cases h
  | lexeme c first text lexeme others hrest hread ih =>
    rw [lexFrom_of_lexeme hrest hread] at h ⊢
    have hgap : gapLength (first :: text) = 0 := by
      rw [← hrest, Cursor.rest_pastGap, gapLength_drop_gapLength]
    have hpast : (c.followed behind).pastGap = c.pastGap.followed behind := by
      rw [Cursor.pastGap_followed, Cursor.pastGap]
      show Cursor.skip (gapLength (c.pastGap.rest ++ '\n' :: behind)) _ = _
      rw [hrest, List.cons_append, gapLength_append_newline_of_readLexeme hgap hread]
      rfl
    have hrest' : (c.followed behind).pastGap.rest = first :: (text ++ '\n' :: behind) := by
      rw [hpast]
      show c.pastGap.rest ++ _ = _
      rw [hrest]
      rfl
    have hle : others.length + 1 ≤ c.pastGap.rest.length := by
      rw [hrest]
      exact Nat.succ_le_succ (spelling_of_readLexeme hread).2.length_le
    rw [lexFrom_of_lexeme hrest' (readLexeme_append_newline hread behind), hpast,
      Cursor.skip_followed hle, ih h]
    rfl

/-- Two texts with a newline between them, of which the first one is read to its end,
    have its tokens, and then the tokens of the second one from its line on, all as
    they are, with the same end or the same flaw. -/
theorem lex_append_newline {first file : String} {line : Int} {stop : Location}
    (h : (lex first file line).outcome = .ok stop) (second : String) :
    lex (first ++ "\n" ++ second) file line =
      ⟨(lex first file line).tokens ++
          (lex second file (line + 1 + first.toList.count '\n')).tokens,
        (lex second file (line + 1 + first.toList.count '\n')).outcome⟩ := by
  have hstop := (cut_of_lex h).2
  have hstart : Cursor.start (first ++ "\n" ++ second).toList file line =
      (Cursor.start first.toList file line).followed second.toList := by
    rw [String.toList_append, String.toList_append, List.append_assoc]
    rfl
  have hline : line + 1 + (first.toList.count '\n' : Int) = stop.line + 1 := by
    rw [hstop]
    show _ = line + (first.toList.count '\n' : Int) + 1
    omega
  have hfile : stop.file = file := by rw [hstop, placeBehind]
  rw [lex, hstart, lexFrom_followed h, hline, hfile]
  rfl

/-- A slash in front of a comment over two lines, and a number with a point behind it. -/
def brokenFront : String :=
  "a/ /*\n*/ 1."

/-- Digits that would make a fraction of a number in front, and a character that is not
    closed. -/
def brokenBack : String :=
  "5 'b\n"

theorem lex_append_newline_brokenNumber :
    (lex brokenFront "a.cpp" 7).outcome = .ok ⟨"a.cpp", 8, 6⟩ ∧
    lex (brokenFront ++ "\n" ++ brokenBack) "a.cpp" 7 =
      ⟨(lex brokenFront "a.cpp" 7).tokens ++ (lex brokenBack "a.cpp" 9).tokens,
        (lex brokenBack "a.cpp" 9).outcome⟩ ∧
    (lex brokenBack "a.cpp" 9).tokens =
      [⟨.integer "5" 5, ⟨"a.cpp", 9, 1⟩⟩] ∧
    (lex brokenBack "a.cpp" 9).outcome =
      .error ⟨.unterminated "'", some ⟨"a.cpp", 9, 3⟩, false, some "5 'b"⟩ := by
  have hend : (lex brokenFront "a.cpp" 7).outcome = .ok ⟨"a.cpp", 8, 6⟩ := by decide +kernel
  have hline : (7 : Int) + 1 + brokenFront.toList.count '\n' = 9 := by decide +kernel
  have hparts := lex_append_newline hend brokenBack
  rw [hline] at hparts
  exact ⟨hend, hparts, by decide +kernel, by decide +kernel⟩

end Flattener
