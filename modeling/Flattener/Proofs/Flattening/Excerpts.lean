import Flattener.Flattening.Source
import Flattener.Proofs.Grammar.Reports
import Flattener.Proofs.Token.Flaws

/-!
# The line that an error shows

Below an error stand a line of the source and a caret. They *pinpoint* the place of
the error if the line is the row with the number of that place, and the place is in
the row or right behind it, so that the caret is below the first character of what
stands there (`Pinpoints`).

Rows are counted by the newlines of a text, as places are. There are two ways for an
error to show another row. The lines that the errors of a parse are taken from end at
other line breaks as well, so they are rows as long as there are no others. And the
line of a literal without an end is the one on which its reading stopped, which is
the row of its place unless an escaped newline is in between. In all other cases the
excerpt pinpoints the error (`excerpt_of_flatten`).
-/

namespace Flattener

variable {file : String} {text before rest line : List Char} {place : Location}

/-- What stands in a text from a place on, the first row being number one. -/
def textAt (text : List Char) (place : Location) : List Char :=
  (['\n'].intercalate ((Text.rows text).drop (place.line.toNat - 1))).drop
    (place.column.toNat - 1)

/-- The row of the place is the line, and the place is in it or right behind it. -/
structure Pinpoints (text : List Char) (place : Location) (line : List Char) : Prop where
  number : 1 ≤ place.line
  row : (Text.rows text)[place.line.toNat - 1]? = some line
  column : 1 ≤ place.column ∧ place.column ≤ line.length + 1
  caret : line.drop (place.column.toNat - 1) = (textAt text place).takeWhile (· ≠ '\n')

/-! ## Places of a text -/

theorem line_placeBehind (file : String) (before : List Char) :
    (placeBehind file 1 before).line.toNat - 1 = before.count '\n' := by
  show (1 + (before.count '\n' : Int)).toNat - 1 = _
  omega

theorem column_placeBehind (file : String) (before : List Char) :
    (placeBehind file 1 before).column.toNat - 1 = (before.rtakeWhile (· ≠ '\n')).length := by
  show (1 + ((before.rtakeWhile (· ≠ '\n')).length : Int)).toNat - 1 = _
  omega

/-- Behind a part of a text stands the rest of it. -/
theorem textAt_placeBehind (file : String) (before rest : List Char) :
    textAt (before ++ rest) (placeBehind file 1 before) = rest := by
  rw [textAt, line_placeBehind, column_placeBehind, Text.drop_rows, Text.rows,
    List.intercalate_splitOn, List.drop_left' rfl]

/-- The place behind a part of a text is pinpointed by the row in which that ends. -/
theorem pinpoints_placeBehind (file : String) (before rest : List Char) :
    Pinpoints (before ++ rest) (placeBehind file 1 before)
      (before.rtakeWhile (· ≠ '\n') ++ rest.takeWhile (· ≠ '\n')) where
  number := by
    show (1 : Int) ≤ 1 + (before.count '\n' : Int)
    omega
  row := by rw [line_placeBehind, Text.getElem?_rows]
  column := by
    show (1 : Int) ≤ 1 + ((before.rtakeWhile (· ≠ '\n')).length : Int) ∧
      1 + ((before.rtakeWhile (· ≠ '\n')).length : Int) ≤ _
    rw [List.length_append]
    omega
  caret := by rw [textAt_placeBehind, column_placeBehind, List.drop_left' rfl]

theorem Cursor.Behind.pinpoints {c : Cursor} (h : c.Behind file 1 text before) :
    Pinpoints text c.location c.lineText.toList := by
  rw [← h.rest, h.location, h.lineText]
  exact pinpoints_placeBehind file before c.rest

/-- The caret of an excerpt is below the column of the place. -/
theorem Pinpoints.excerpt (h : Pinpoints text place line) {e : SyntaxError}
    (hplace : e.location = some place) {shown : String} (hshown : e.sourceLine = some shown) :
    e.excerpt = ["    " ++ shown,
      String.ofList (List.replicate (3 + place.column.toNat) ' ') ++ "^"] := by
  have hpos : 0 < place.column := h.column.1
  rw [SyntaxError.excerpt, hshown, hplace]
  dsimp only
  rw [if_pos hpos]

/-! ## Flaws of the text -/

/-- What was read of the literal at the head of a text, if it has no end. -/
def openLiteral : List Char → List Char
  | [] => []
  | first :: others =>
    match readLexeme first others with
    | .error (.unterminated _ read) => read
    | _ => []

/-- The flaw of a text is pinpointed, unless it is a literal that goes on behind an
    escaped newline. -/
theorem pinpoints_of_lex {source : String} {e : SyntaxError} {shown : String}
    (h : (lex source file 1).outcome = .error e) (hplace : e.location = some place)
    (hshown : e.sourceLine = some shown)
    (hopen : ∀ quote, e.cause = .unterminated quote →
      '\n' ∉ openLiteral (textAt source.toList place)) :
    Pinpoints source.toList place shown.toList := by
  obtain ⟨start, front, first, others, flaw, hstart, hrest, hread, rfl⟩ :=
    exists_flaw_of_lexFrom (Cursor.behind_start source.toList file 1) h
  cases flaw with
  | broken cause read =>
    cases hplace
    cases hshown
    exact (hstart.skip _).pinpoints
  | invalidCharacter c =>
    cases hplace
    cases hshown
    exact hstart.pinpoints
  | openComment => cases hshown
  | unterminated quote read =>
    cases hplace
    have hline : shown = (start.skip read.length).lineText := by
      rw [Flaw.report] at hshown
      dsimp only at hshown
      split at hshown
      · cases hshown
      · exact (Option.some.inj hshown).symm
    -- the reading stopped in the row of the place, since it met no newline
    have htext : textAt source.toList start.location = first :: others := by
      rw [← hstart.rest, hstart.location, textAt_placeBehind, hrest]
    have hnewline : '\n' ∉ read := by
      have hmem := hopen quote.toString rfl
      rwa [htext, openLiteral, hread] at hmem
    have htake : start.rest.take read.length = read := by
      obtain ⟨behind, hbehind⟩ := prefix_of_readLexeme_unterminated hread
      rw [hrest, ← hbehind, List.take_left' rfl]
    rw [hline, hstart.lineText_skip (htake.symm ▸ hnewline)]
    exact hstart.pinpoints

/-! ## Errors of the parse -/

/-- A token of a text that is cut into tokens stands at its place. -/
theorem Cut.exists_of_mem {line : Int} {tokens : List Token} {stop : Location} {t : Token}
    (h : Cut file line before text tokens stop) (ht : t ∈ tokens ++ [.ending stop]) :
    ∃ front behind, before ++ text = front ++ (t.text.toList ++ behind) ∧
      t.location = placeBehind file line front := by
  induction h with
  | @last before gap hgap =>
    obtain rfl := List.mem_singleton.1 ht
    exact ⟨before ++ gap, [], (List.append_nil _).symm, rfl⟩
  | @token before gap rest first tokens stop _ _ hplace _ ih =>
    rcases List.mem_cons.1 ht with rfl | ht
    · exact ⟨before ++ gap, rest, by simp only [List.append_assoc], hplace⟩
    · obtain ⟨front, behind, hwhole, hfront⟩ := ih ht
      exact ⟨front, behind, by rw [← hwhole]; simp only [List.append_assoc], hfront⟩

/-- The line with a number is one of the text. -/
theorem linesOf_of_sourceLine {source shown : String} {number : Int}
    (h : Parser.sourceLine (Text.splitLines source) number = some shown) :
    (Text.linesOf source.toList)[number.toNat - 1]? = some shown.toList := by
  rw [Parser.sourceLine] at h
  split at h
  · rw [Text.splitLines, List.getElem?_map, Option.map_eq_some_iff] at h
    obtain ⟨line, hline, rfl⟩ := h
    rw [hline, String.toList_ofList]
  · cases h

/-- An error at a token is pinpointed where lines are rows, and the token stands there. -/
theorem pinpoints_of_shownAt {source shown : String} {tokens : List Token} {stop : Location}
    {e : SyntaxError} (hcut : Cut file 1 [] source.toList tokens stop)
    (he : ShownAt ⟨stop, Text.splitLines source⟩ tokens e) (hplace : e.location = some place)
    (hshown : e.sourceLine = some shown)
    (haligned : Text.Aligned source.toList (place.line.toNat - 1)) :
    Pinpoints source.toList place shown.toList ∧
      ∃ t ∈ tokens ++ [.ending stop], t.location = place ∧
        t.text.toList <+: textAt source.toList place := by
  obtain ⟨t, ht, heq⟩ := he
  rw [heq] at hplace hshown
  obtain rfl : t.location = place := Option.some.inj hplace
  obtain ⟨front, behind, hwhole, hfront⟩ := hcut.exists_of_mem ht
  have hrow := Text.getElem?_rows_of_linesOf haligned (linesOf_of_sourceLine hshown)
  have hpinpoints := pinpoints_placeBehind file front (t.text.toList ++ behind)
  rw [← hwhole, List.nil_append, ← hfront] at hpinpoints
  refine ⟨?_, t, ht, rfl, ?_⟩
  · rwa [Option.some.inj (hpinpoints.row.symm.trans hrow)] at hpinpoints
  · rw [hfront, ← List.nil_append source.toList, hwhole, textAt_placeBehind]
    exact List.prefix_append _ _

/-! ## Errors of a source -/

/-- An error of a source is one of its text, or one of its tokens. -/
theorem error_of_flatten {options : Options} {source : String} {e : SyntaxError}
    (h : (flatten options source file).result = .error (.invalid e)) :
    (lex source file 1).outcome = .error e ∨
      ∃ stop, (lex source file 1).outcome = .ok stop ∧
        (parse options.builtins (Text.splitLines source) (lex source file 1).tokens stop).result =
          .error (.invalid e) := by
  have hparsed : (parseSource options source file).result = .error (.invalid e) := by
    rcases hresult : (parseSource options source file).result with failure | ⟨scope, count⟩
    · rw [flatten, hresult] at h
      cases h
      rfl
    · -- a tree that cannot be written is no error of the source
      rw [flatten, hresult] at h
      dsimp only [bind, Except.bind] at h
      split at h <;> cases h
  rw [parseSource, Lexing.toExcept] at hparsed
  cases houtcome : (lex source file 1).outcome with
  | error e' =>
    rw [houtcome] at hparsed
    cases hparsed
    exact .inl rfl
  | ok stop =>
    rw [houtcome] at hparsed
    refine .inr ⟨stop, rfl, ?_⟩
    dsimp only [Except.map] at hparsed
    split at hparsed
    · next failure hfailure =>
      cases hparsed
      exact hfailure
    · cases hparsed

/-- A failure is the same whatever would have been read. -/
theorem error_of_map_eq_error {ε α : Type} {result : Except ε α} {error : ε}
    (h : result.map (fun _ => ()) = .error error) : result = .error error := by
  cases result with
  | error _ => exact congrArg Except.error (Except.error.inj h)
  | ok _ => cases h

/-- The excerpt of an error pinpoints it: the line is the row of its place, the place is
    in the row or right behind it, and the caret is below it; and if the text has
    tokens, then one of these stands there. Two kinds of sources are left out: those that
    have tokens, and a line break other than newlines up to the end of the row; and those
    with a literal that has no end and goes on behind an escaped newline. -/
theorem excerpt_of_flatten {options : Options} {source : String} {e : SyntaxError} {shown : String}
    (h : (flatten options source file).result = .error (.invalid e))
    (hplace : e.location = some place) (hshown : e.sourceLine = some shown)
    (haligned : ∀ stop, (lex source file 1).outcome = .ok stop →
      Text.Aligned source.toList (place.line.toNat - 1))
    (hopen : ∀ quote, e.cause = .unterminated quote →
      '\n' ∉ openLiteral (textAt source.toList place)) :
    Pinpoints source.toList place shown.toList ∧
      e.excerpt = ["    " ++ shown,
        String.ofList (List.replicate (3 + place.column.toNat) ' ') ++ "^"] ∧
      ∀ stop, (lex source file 1).outcome = .ok stop →
        ∃ t ∈ (lex source file 1).allTokens, t.location = place ∧
          t.text.toList <+: textAt source.toList place := by
  rcases error_of_flatten h with hflaw | ⟨stop, hstop, herror⟩
  · have hpinpoints := pinpoints_of_lex hflaw hplace hshown hopen
    refine ⟨hpinpoints, hpinpoints.excerpt hplace hshown, fun stop hstop => ?_⟩
    cases hflaw.symm.trans hstop
  · obtain ⟨hpinpoints, t, ht, htoken⟩ := pinpoints_of_shownAt (cut_of_lex hstop).1
      (shownAt_of_parse herror) hplace hshown (haligned stop hstop)
    refine ⟨hpinpoints, hpinpoints.excerpt hplace hshown, fun _ _ => ⟨t, ?_, htoken⟩⟩
    rwa [Lexing.allTokens, hstop]

/-- A comment over two rows, the first of which ends with a carriage return, and a name
    that is no type. -/
def strangeName : String :=
  "/* a\r\n */ int x;\n  foo bar;"

/-- A character without its closing quote, in a row that ends with a backslash. -/
def openCharacter : String :=
  "int c;\nx = 'a\\\\\n"

/-- The first of these is found at a token, and the second one is not. -/
theorem excerpt_of_flatten_strangeName_openCharacter :
    (∃ e, (flatten .standard strangeName "in").result = .error (.invalid e) ∧
        e.location = some ⟨"in", 3, 3⟩ ∧ e.sourceLine = some "  foo bar;" ∧
        Pinpoints strangeName.toList ⟨"in", 3, 3⟩ "  foo bar;".toList ∧
        e.excerpt = ["      foo bar;", "      ^"] ∧
        ∃ t ∈ (lex strangeName "in" 1).allTokens, t.location = ⟨"in", 3, 3⟩ ∧
          t.text.toList <+: textAt strangeName.toList ⟨"in", 3, 3⟩) ∧
      ∃ e, (flatten .standard openCharacter "in").result = .error (.invalid e) ∧
        e.location = some ⟨"in", 2, 5⟩ ∧ e.sourceLine = some "x = 'a\\\\" ∧
        Pinpoints openCharacter.toList ⟨"in", 2, 5⟩ "x = 'a\\\\".toList ∧
        e.excerpt = ["    x = 'a\\\\", "        ^"] := by
  refine ⟨?name, ?character⟩
  case name =>
    have h : (flatten .standard strangeName "in").result =
        .error (.invalid ⟨.unknownType "foo", some ⟨"in", 3, 3⟩, false, some "  foo bar;"⟩) :=
      error_of_map_eq_error (by decide +kernel)
    have hstop : (lex strangeName "in" 1).outcome = .ok ⟨"in", 3, 11⟩ := by decide +kernel
    have haligned : Text.Aligned strangeName.toList 2 := by decide +kernel
    obtain ⟨hpinpoints, hexcerpt, htoken⟩ :=
      excerpt_of_flatten h rfl rfl (fun _ _ => haligned) nofun
    exact ⟨_, h, rfl, rfl, hpinpoints, hexcerpt, htoken _ hstop⟩
  case character =>
    have h : (flatten .standard openCharacter "in").result =
        .error (.invalid ⟨.unterminated "'", some ⟨"in", 2, 5⟩, false, some "x = 'a\\\\"⟩) :=
      error_of_map_eq_error (by decide +kernel)
    have hflaw : (lex openCharacter "in" 1).outcome.toOption = none := by decide +kernel
    have hopen : '\n' ∉ openLiteral (textAt openCharacter.toList ⟨"in", 2, 5⟩) := by
      decide +kernel
    obtain ⟨hpinpoints, hexcerpt, -⟩ := excerpt_of_flatten h rfl rfl
      (fun stop hstop => by rw [hstop] at hflaw; cases hflaw) fun _ _ => hopen
    exact ⟨_, h, rfl, rfl, hpinpoints, hexcerpt⟩

/-- Where a form feed stands in front of a row, the row above it is shown; and where a
    literal goes on behind an escaped newline, a row below it. -/
theorem sourceLine_unlike_row :
    (∃ e, (flatten .standard "\x0c\nfoo bar;" "<input>").result = .error (.invalid e) ∧
        e.location = some ⟨"<input>", 2, 1⟩ ∧ e.sourceLine = some "" ∧
        (Text.rows "\x0c\nfoo bar;".toList)[1]? = some "foo bar;".toList) ∧
      ∃ e, (flatten .standard "\"a\\\nbc\n" "<input>").result = .error (.invalid e) ∧
        e.location = some ⟨"<input>", 1, 1⟩ ∧ e.sourceLine = some "bc" ∧
        (Text.rows "\"a\\\nbc\n".toList)[0]? = some "\"a\\".toList := by
  have hfeed : (flatten .standard "\x0c\nfoo bar;" "<input>").result =
      .error (.invalid ⟨.unknownType "foo", some ⟨"<input>", 2, 1⟩, false, some ""⟩) :=
    error_of_map_eq_error (by decide +kernel)
  have hliteral : (flatten .standard "\"a\\\nbc\n" "<input>").result =
      .error (.invalid ⟨.unterminated "\"", some ⟨"<input>", 1, 1⟩, false, some "bc"⟩) :=
    error_of_map_eq_error (by decide +kernel)
  exact ⟨⟨_, hfeed, rfl, rfl, by decide +kernel⟩, _, hliteral, rfl, rfl, by decide +kernel⟩

end Flattener
