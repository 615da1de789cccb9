import Flattener.Token.Lexing
import Flattener.Proofs.Text.Stretch

/-!
# Lexemes that stand on their own

A lexeme *stands* in front of a text if it is read of its spelling there
(`Lexeme.Stands`): nothing of the text joins it, and no comment begins with it.
Whatever a lexeme was first read of, it stands in front of every blank, bracket,
comma and semicolon, and at the end of a text (`Lexeme.Readable.stands`). So a text
can be put together from spellings as long as something of the kind is between
two of them.
-/

namespace Flattener

/-- The lexeme is read at the head of some text. -/
def Lexeme.Readable (l : Lexeme) : Prop :=
  ∃ first text others, readLexeme first text = .ok (l, others)

/-- In front of the text, the lexeme is read of its spelling. -/
def Lexeme.Stands (l : Lexeme) (rest : List Char) : Prop :=
  ∃ first others, l.spelling.toList = first :: others ∧ gapLength (first :: (others ++ rest)) = 0 ∧
    readLexeme first (others ++ rest) = .ok (l, others)

/-- The brackets and the punctuation with which no longer operator begins or goes
    on. -/
def punctuation : List Char :=
  ['(', ')', '[', ']', '\x7b', '\x7d', ';', ',']

/-- The characters that join nothing: blanks and punctuation. -/
def delimiters : List Char :=
  [' ', '\t', '\n', '\r', '\x0c', '\x0b'] ++ punctuation

/-- The text ends here, or goes on with a delimiter. -/
def Delimited (rest : List Char) : Prop :=
  ∀ c ∈ rest.head?, c ∈ delimiters

theorem delimited_nil : Delimited [] := nofun

theorem delimited_cons {c : Char} (h : c ∈ delimiters) (rest : List Char) :
    Delimited (c :: rest) := by
  rintro _ ⟨⟩
  exact h

/-- What no delimiter is, the head of a delimited text is not. -/
theorem Delimited.head_eq_false {p : Char → Bool} {rest : List Char} (h : Delimited rest)
    (hp : delimiters.any p = false) : ∀ c ∈ rest.head?, p c = false :=
  fun c hc => Bool.eq_false_iff.2 (List.any_eq_false.1 hp c (h c hc))

/-! ## No gap in front of a lexeme -/

theorem gapLength_of_ne_slash {c : Char} (h : c ≠ '/') (rest : List Char) :
    gapLength (c :: rest) = if isBlank c then 1 + gapLength rest else 0 := by
  rw [gapLength]
  · exact fun _ hc => absurd hc h
  · exact fun _ hc => absurd hc h

theorem gapLength_eq_zero {c : Char} (h : c ≠ '/') (hblank : isBlank c = false)
    (rest : List Char) : gapLength (c :: rest) = 0 := by
  rw [gapLength_of_ne_slash h, hblank]
  rfl

/-- A slash is no gap unless a comment begins with it. -/
theorem gapLength_slash {rest : List Char} (h : ∀ c ∈ rest.head?, c ≠ '/' ∧ c ≠ '*') :
    gapLength ('/' :: rest) = 0 := by
  rw [gapLength]
  · rfl
  · rintro rest _ rfl
    exact (h '/' rfl).1 rfl
  · rintro rest _ rfl
    exact (h '*' rfl).2 rfl

/-! ## Classes of characters -/

/-- A letter, digit or underscore is not blank and does not begin a comment. -/
theorem ne_slash_of_isNameChar {c : Char} (h : isNameChar c = true) :
    c ≠ '/' ∧ isBlank c = false := by
  refine ⟨?_, ?_⟩
  · rintro rfl
    exact absurd h (by decide)
  · have hblank : [' ', '\t', '\n', '\r', '\x0c', '\x0b'].any isNameChar = false := by decide
    rw [isBlank, decide_eq_false_iff_not]
    intro hmem
    exact List.any_eq_false.1 hblank c hmem h

theorem isNameChar_of_isNameStart {c : Char} (h : isNameStart c = true) : isNameChar c = true := by
  rw [isNameChar, h, Bool.true_or]

theorem isNameChar_of_isDigit {c : Char} (h : c.isDigit = true) : isNameChar c = true := by
  rw [isNameChar, h, Bool.or_true]

/-- No digit begins an identifier. -/
theorem isNameStart_eq_false_of_isDigit {c : Char} (h : c.isDigit = true) :
    isNameStart c = false := by
  have hne : c ≠ '_' := by
    rintro rfl
    exact absurd h (by decide)
  have hle : c.toNat ≤ 57 := by
    rw [Char.isDigit, Bool.and_eq_true, decide_eq_true_iff, decide_eq_true_iff] at h
    exact h.2
  have halpha : c.isAlpha = false := by
    rw [Bool.eq_false_iff]
    intro h
    -- letters come behind all digits
    have hcases : (c.isUpper || c.isLower) = true := h
    rcases Bool.or_eq_true_iff.1 hcases with hupper | hlower
    · have hletter : 65 ≤ c.toNat := (of_decide_eq_true hupper).1
      omega
    · have hletter : 97 ≤ c.toNat := of_decide_eq_true (Bool.and_eq_true_iff.1 hlower).1
      omega
  rw [isNameStart, halpha, decide_eq_false hne]
  rfl

/-! ## Identifiers -/

/-- The characters of an identifier: one that begins it, and others that go on
    with it. -/
def IsWord (word : List Char) : Prop :=
  ∃ first others, word = first :: others ∧ isNameStart first = true ∧
    ∀ c ∈ others, isNameChar c = true

/-- An identifier stands in front of what cannot go on with it. -/
theorem IsWord.stands {name : String} (h : IsWord name.toList) {rest : List Char}
    (hrest : ∀ c ∈ rest.head?, isNameChar c = false) : (Lexeme.identifier name).Stands rest := by
  obtain ⟨first, others, hname, hfirst, hothers⟩ := h
  obtain ⟨hslash, hblank⟩ := ne_slash_of_isNameChar (isNameChar_of_isNameStart hfirst)
  refine ⟨first, others, hname, gapLength_eq_zero hslash hblank _, ?_⟩
  rw [readLexeme, if_pos hfirst, readIdentifier, takeWhile_eq_iff.2 ⟨hothers, hrest⟩, ← hname,
    String.ofList_toList]

/-- What is read as an identifier is one. -/
theorem isWord_of_readIdentifier {first : Char} {text : List Char} (h : isNameStart first = true) :
    IsWord (first :: text.takeWhile isNameChar) :=
  ⟨first, _, rfl, h, fun _ hc => List.mem_takeWhile_imp hc⟩

/-! ## Numerals -/

/-- Behind a leading zero, the next character tells the base. -/
theorem readNumeral_zero (c : Char) (text : List Char) : readNumeral '0' (c :: text) =
    if c = 'x' ∨ c = 'X' then readPrefixed 16 c text
    else if c = 'b' ∨ c = 'B' then readPrefixed 2 c text
    else if isDigitOf 8 c then .ok (readOctal (c :: text))
    else .ok (readDecimal '0' (c :: text)) := rfl

/-- The text of a numeral in base ten behind its first digit, where the base is not
    told by what follows a leading zero. -/
theorem readNumeral_eq_readDecimal {first : Char} {text : List Char}
    (h : first = '0' → ∀ c ∈ text.head?, c ∉ ['x', 'X', 'b', 'B'] ∧ isDigitOf 8 c = false) :
    readNumeral first text = .ok (readDecimal first text) := by
  unfold readNumeral
  split
  · next c rest =>
    obtain ⟨hletter, hoctal⟩ := h rfl c rfl
    have hx : ¬(c = 'x' ∨ c = 'X') := by
      rintro (rfl | rfl)
      · exact hletter (by decide)
      · exact hletter (by decide)
    have hb : ¬(c = 'b' ∨ c = 'B') := by
      rintro (rfl | rfl)
      · exact hletter (by decide)
      · exact hletter (by decide)
    rw [if_neg hx, if_neg hb, hoctal]
    rfl
  · rfl

/-- A numeral in base ten is read of itself in front of a delimiter. -/
theorem readDecimal_append {first : Char} {text others : List Char} {l : Lexeme}
    (h : readDecimal first text = (l, others)) {rest : List Char} (hrest : Delimited rest) :
    readDecimal first (others ++ rest) = (l, others) ∧ l.spelling.toList = first :: others ∧
      others <+: text := by
  obtain ⟨digits, behind, rfl, hdigits⟩ := exists_takeWhile Char.isDigit text
  have hall := (takeWhile_eq_iff.1 hdigits).1
  have hdigit : ∀ c ∈ rest.head?, c.isDigit = false := hrest.head_eq_false (by decide)
  have hpoint : ∀ tail, rest ≠ '.' :: tail := by
    rintro tail rfl
    exact absurd (hrest '.' rfl) (by decide)
  -- behind the digits of a whole number, the rest does not begin with a point
  have hwhole : readDecimal first (digits ++ rest) =
      (.integer (String.ofList (first :: digits)) (numeralValue 10 (first :: digits)), digits) := by
    rw [readDecimal]
    simp only [takeWhile_eq_iff.2 ⟨hall, hdigit⟩, List.drop_left']
  rw [readDecimal] at h
  simp only [hdigits, List.drop_left'] at h
  split at h
  · next tail =>
    split at h
    · cases h
      exact ⟨hwhole, String.toList_ofList, List.prefix_append ..⟩
    · next hfraction =>
      cases h
      obtain ⟨fraction, after, rfl, hfraction'⟩ := exists_takeWhile Char.isDigit tail
      rw [hfraction'] at hfraction ⊢
      refine ⟨?_, ?_, ?_⟩
      · have hfirst : (digits ++ '.' :: fraction ++ rest).takeWhile Char.isDigit = digits := by
          rw [List.append_assoc]
          refine takeWhile_eq_iff.2 ⟨hall, ?_⟩
          rintro _ ⟨⟩
          rfl
        have hsecond : (fraction ++ rest).takeWhile Char.isDigit = fraction :=
          takeWhile_eq_iff.2 ⟨(takeWhile_eq_iff.1 hfraction').1, hdigit⟩
        rw [readDecimal]
        simp only [hfirst]
        simp only [List.append_assoc, List.drop_left', List.cons_append, hsecond]
        rw [if_neg hfraction]
      · simp [Lexeme.spelling]
      · exact ⟨after, by simp⟩
  · cases h
    exact ⟨hwhole, String.toList_ofList, List.prefix_append ..⟩

/-- Digits of a base behind a prefix are read of themselves. -/
theorem readPrefixed_append {base : Nat} {letter : Char} {text others : List Char} {l : Lexeme}
    (h : readPrefixed base letter text = .ok (l, others)) {rest : List Char}
    (hrest : ∀ c ∈ rest.head?, isDigitOf base c = false) :
    ∃ digits, others = letter :: digits ∧
      readPrefixed base letter (digits ++ rest) = .ok (l, letter :: digits) ∧
      l.spelling.toList = '0' :: letter :: digits := by
  unfold readPrefixed at h
  dsimp only at h
  split at h
  · cases h
  · next hdigits =>
    cases h
    refine ⟨_, rfl, ?_, String.toList_ofList⟩
    have hread : (text.takeWhile (isDigitOf base) ++ rest).takeWhile (isDigitOf base) =
        text.takeWhile (isDigitOf base) :=
      takeWhile_eq_iff.2 ⟨fun _ hc => List.mem_takeWhile_imp hc, hrest⟩
    rw [readPrefixed]
    simp only [hread]
    rw [if_neg hdigits]

/-- A numeral is read of itself in front of a delimiter. -/
theorem readNumeral_append {first : Char} {text others : List Char} {l : Lexeme}
    (h : readNumeral first text = .ok (l, others)) {rest : List Char} (hrest : Delimited rest) :
    readNumeral first (others ++ rest) = .ok (l, others) ∧ l.spelling.toList = first :: others := by
  by_cases hten : first = '0' → ∀ c ∈ text.head?, c ∉ ['x', 'X', 'b', 'B'] ∧ isDigitOf 8 c = false
  · rw [readNumeral_eq_readDecimal hten, Except.ok.injEq] at h
    obtain ⟨hread, hspelling, hhead⟩ := readDecimal_append h hrest
    refine ⟨?_, hspelling⟩
    rw [readNumeral_eq_readDecimal, hread]
    intro hzero c hc
    cases others with
    | nil =>
      have hletter : delimiters.any (· ∈ ['x', 'X', 'b', 'B']) = false := by decide
      exact ⟨of_decide_eq_false (hrest.head_eq_false hletter c hc),
        hrest.head_eq_false (by decide) c hc⟩
    | cons d others =>
      obtain ⟨behind, rfl⟩ := hhead
      exact hten hzero c hc
  · -- the base is told by the character behind a leading zero
    obtain ⟨rfl, hbase⟩ := Classical.not_imp.1 hten
    cases text with
    | nil => exact absurd nofun hbase
    | cons c tail =>
      rw [readNumeral_zero] at h
      split at h
      · next hx =>
        obtain ⟨digits, rfl, hdigits, hspelling⟩ :=
          readPrefixed_append h (hrest.head_eq_false (by decide))
        refine ⟨?_, hspelling⟩
        rw [List.cons_append, readNumeral_zero, if_pos hx, hdigits]
      · next hx =>
        split at h
        · next hb =>
          obtain ⟨digits, rfl, hdigits, hspelling⟩ :=
            readPrefixed_append h (hrest.head_eq_false (by decide))
          refine ⟨?_, hspelling⟩
          rw [List.cons_append, readNumeral_zero, if_neg hx, if_pos hb, hdigits]
        · next hb =>
          split at h
          · next hoctal =>
            cases h
            refine ⟨?_, String.toList_ofList⟩
            rw [List.takeWhile_cons_of_pos hoctal, List.cons_append, readNumeral_zero, if_neg hx,
              if_neg hb, if_pos hoctal, readOctal]
            have hdigits : (c :: (tail.takeWhile (isDigitOf 8) ++ rest)).takeWhile (isDigitOf 8) =
                c :: tail.takeWhile (isDigitOf 8) :=
              takeWhile_eq_iff.2 ⟨List.forall_mem_cons.2
                ⟨hoctal, fun _ hc => List.mem_takeWhile_imp hc⟩, hrest.head_eq_false (by decide)⟩
            simp only [hdigits]
          · next hoctal =>
            refine absurd (fun d hd => ?_) hbase
            cases hd
            refine ⟨?_, Bool.eq_false_iff.2 hoctal⟩
            simp only [List.mem_cons, List.not_mem_nil, or_false, not_or]
            exact ⟨fun h => hx (.inl h), fun h => hx (.inr h), fun h => hb (.inl h),
              fun h => hb (.inr h)⟩

/-! ## Literals -/

/-- Up to the first element that fails a test, it does not matter what follows. -/
theorem takeWhile_take_append {α : Type} {p : α → Bool} {q : α} (hq : p q = false)
    (front first second : List α) (n : Nat) :
    ((front ++ q :: first).take n).takeWhile p = ((front ++ q :: second).take n).takeWhile p := by
  induction front generalizing n with
  | nil =>
    cases n with
    | zero => rfl
    | succ n => simp [hq]
  | cons a front ih =>
    cases n with
    | zero => rfl
    | succ n =>
      simp only [List.cons_append, List.take_succ_cons, List.takeWhile_cons]
      rw [ih n]

/-- An escape is read without a look behind the quote that closes the literal. -/
theorem readEscape_append {quote : Char} (hquote : isDigitOf 16 quote = false)
    (hoctal : isDigitOf 8 quote = false) {front : List Char} (hfront : front ≠ [])
    (first second : List Char) :
    readEscape (front ++ quote :: first) = readEscape (front ++ quote :: second) := by
  obtain ⟨c, front, rfl⟩ := List.exists_cons_of_ne_nil hfront
  simp only [List.cons_append]
  by_cases hx : c = 'x'
  · subst hx
    unfold readEscape
    simp only [takeWhile_take_append hquote front first second 2]
  · rw [readEscape, readEscape]
    · have hdigits := takeWhile_take_append hoctal (c :: front) first second 3
      simp only [List.cons_append] at hdigits
      simp only [hdigits]
    all_goals exact hx

/-- An escape takes at least one character, and none that is not there. -/
theorem length_of_readEscape {text : List Char} {value : Char} {length : Nat}
    (h : readEscape text = .ok (value, length)) : 0 < length ∧ length ≤ text.length := by
  have hle (p : Char → Bool) (n : Nat) (text : List Char) :
      ((text.take n).takeWhile p).length ≤ text.length :=
    (List.takeWhile_sublist p).length_le.trans (List.take_sublist n text).length_le
  unfold readEscape at h
  split at h
  · cases h
  · dsimp only at h
    split at h
    · cases h
    · cases h
      rw [List.length_cons]
      have := hle (isDigitOf 16) 2 ‹_›
      omega
  · next c rest _ =>
    dsimp only at h
    split at h
    · cases h
      exact ⟨Nat.one_pos, Nat.succ_le_succ (Nat.zero_le _)⟩
    · next hdigits =>
      cases h
      refine ⟨List.length_pos_iff.2 fun hnil => hdigits ?_, hle _ _ _⟩
      rw [hnil]
      rfl

theorem prependElement_eq_ok {value : Char} {text contents spelling : List Char}
    {read : Except Flaw (List Char × List Char)}
    (h : prependElement value text read = .ok (contents, spelling)) :
    ∃ contents' spelling', read = .ok (contents', spelling') ∧ contents = value :: contents' ∧
      spelling = text ++ spelling' := by
  cases read with
  | error flaw => cases h
  | ok found =>
    cases h
    exact ⟨_, _, rfl, rfl, rfl⟩

/-- What is read up to the closing quote does not depend on what is behind it. -/
theorem readContents_append {quote : Char} (hquote : isDigitOf 16 quote = false)
    (hoctal : isDigitOf 8 quote = false) {text contents spelling : List Char}
    (h : readContents quote text = .ok (contents, spelling)) :
    ∃ front rest, spelling = front ++ [quote] ∧ text = spelling ++ rest ∧
      ∀ rest, readContents quote (spelling ++ rest) = .ok (contents, spelling) := by
  induction text using readContents.induct quote generalizing contents spelling with
  | case1 =>
    rw [readContents] at h
    cases h
  | case2 rest =>
    rw [readContents, if_pos rfl] at h
    cases h
    refine ⟨[], rest, rfl, rfl, fun rest => ?_⟩
    rw [List.cons_append, readContents, if_pos rfl]
  | case3 rest hne =>
    rw [readContents, if_neg hne, if_pos rfl] at h
    cases h
  | case4 rest flaw hflaw hne hline =>
    rw [readContents, if_neg hne, if_neg hline, if_pos rfl, hflaw] at h
    cases h
  | case5 rest value length hescape hne hline ih =>
    rw [readContents, if_neg hne, if_neg hline, if_pos rfl, hescape] at h
    obtain ⟨contents', spelling', hread, rfl, rfl⟩ := prependElement_eq_ok h
    obtain ⟨front, behind, rfl, hdrop, hagain⟩ := ih hread
    obtain ⟨hpos, hle⟩ := length_of_readEscape hescape
    have htake : (rest.take length).length = length := List.length_take_of_le hle
    have hrest : rest.take length ++ front ++ quote :: behind = rest :=
      calc rest.take length ++ front ++ quote :: behind
          = rest.take length ++ (front ++ [quote] ++ behind) := by simp
        _ = rest.take length ++ rest.drop length := by rw [hdrop]
        _ = rest := List.take_append_drop length rest
    -- the closing quote is behind the escape, which looks no further
    have hne' : rest.take length ++ front ≠ [] := by
      rw [← List.length_pos_iff, List.length_append, htake]
      omega
    refine ⟨'\\' :: rest.take length ++ front, behind, by simp, ?_, fun after => ?_⟩
    · rw [List.cons_append, List.cons_append, ← List.append_assoc, List.append_assoc _ [quote]]
      exact congrArg ('\\' :: ·) hrest.symm
    · have hescape' : readEscape (rest.take length ++ front ++ quote :: after) =
          .ok (value, length) := by
        rw [readEscape_append hquote hoctal hne' after behind, hrest, hescape]
      have htext : '\\' :: rest.take length ++ (front ++ [quote]) ++ after =
          '\\' :: (rest.take length ++ front ++ quote :: after) := by simp
      rw [htext, readContents, if_neg hne, if_neg hline, if_pos rfl, hescape']
      have hbehind : (rest.take length ++ front ++ quote :: after).drop length =
          front ++ [quote] ++ after := by
        rw [List.append_assoc, List.drop_left' htake]
        simp
      have hfront : (rest.take length ++ front ++ quote :: after).take length = rest.take length := by
        rw [List.append_assoc, List.take_left' htake]
      simp only [hbehind, hfront, hagain, prependElement]
  | case6 c rest hne hline hback ih =>
    rw [readContents, if_neg hne, if_neg hline, if_neg hback] at h
    obtain ⟨contents', spelling', hread, rfl, rfl⟩ := prependElement_eq_ok h
    obtain ⟨front, behind, rfl, rfl, hagain⟩ := ih hread
    refine ⟨c :: front, behind, rfl, rfl, fun after => ?_⟩
    have hcons : [c] ++ (front ++ [quote]) ++ after = c :: (front ++ [quote] ++ after) := rfl
    rw [hcons, readContents, if_neg hne, if_neg hline, if_neg hback, hagain]
    rfl

/-- A literal is read of itself in front of anything. -/
theorem readLiteral_append {quote : Char} {text others : List Char} {l : Lexeme}
    (hquote : quote = '"' ∨ quote = '\'') (h : readLiteral quote text = .ok (l, others))
    (rest : List Char) :
    readLiteral quote (others ++ rest) = .ok (l, others) ∧ l.spelling.toList = quote :: others := by
  have hdigit : isDigitOf 16 quote = false ∧ isDigitOf 8 quote = false := by
    rcases hquote with rfl | rfl
    · decide
    · decide
  rw [readLiteral] at h ⊢
  split at h
  · cases h
  · next contents spelling hread =>
    cases h
    obtain ⟨front, behind, -, -, hagain⟩ := readContents_append hdigit.1 hdigit.2 hread
    rw [hagain]
    refine ⟨rfl, ?_⟩
    split
    · exact String.toList_ofList
    · exact String.toList_ofList

/-! ## Operators -/

/-- In front of a delimiter, an operator that begins the text is a part of what
    stands there. -/
theorem prefix_of_prefix_append {op spelling rest : List Char} (hop : op ∈ operatorTexts)
    (hspelling : spelling ≠ []) (hrest : Delimited rest) (h : op <+: spelling ++ rest) :
    op <+: spelling := by
  rcases List.prefix_or_prefix_of_prefix h (List.prefix_append spelling rest) with hle | hge
  · exact hle
  obtain ⟨more, rfl⟩ := hge
  cases more with
  | nil => simp
  | cons d more =>
    -- no operator goes on with a delimiter
    have hnone : (operatorTexts.any fun op => op.tail.any (· ∈ delimiters)) = false := by decide
    have hd : d ∈ delimiters := by
      obtain ⟨after, hafter⟩ := (List.prefix_append_right_inj spelling).1 h
      rw [← hafter] at hrest
      exact hrest d rfl
    have hmem : d ∈ (spelling ++ d :: more).tail := by
      obtain ⟨c, others, rfl⟩ := List.exists_cons_of_ne_nil hspelling
      simp
    exact absurd (List.any_eq_true.2 ⟨d, hmem, decide_eq_true hd⟩) (List.any_eq_false.1 hnone _ hop)

/-- An operator is read of itself in front of a delimiter. -/
theorem readOperator_append {first : Char} {text others : List Char} {l : Lexeme}
    (h : readOperator first text = .ok (l, others)) {rest : List Char} (hrest : Delimited rest) :
    readOperator first (others ++ rest) = .ok (l, others) ∧ l.spelling.toList = first :: others ∧
      first :: others ∈ operatorTexts := by
  rw [readOperator] at h
  split at h
  · next spelling hfind =>
    cases h
    obtain ⟨hhead, before, after, hlist, hbefore⟩ := List.find?_eq_some_iff_append.1 hfind
    have hmem : spelling ∈ operatorTexts := by rw [hlist]; simp
    have hspelling : spelling = first :: spelling.tail := by
      have hne : ∀ op ∈ operatorTexts, op ≠ [] := by decide
      obtain ⟨c, others, rfl⟩ := List.exists_cons_of_ne_nil (hne spelling hmem)
      rw [(List.cons_prefix_cons.1 (List.isPrefixOf_iff_prefix.1 hhead)).1]
      rfl
    have hagain : operatorTexts.find? (·.isPrefixOf (first :: (spelling.tail ++ rest))) =
        some spelling := by
      rw [← List.cons_append, ← hspelling]
      refine List.find?_eq_some_iff_append.2 ⟨?_, before, after, hlist, fun op hop => ?_⟩
      · exact List.isPrefixOf_iff_prefix.2 (List.prefix_append ..)
      · -- an operator in front of this one is no prefix, since it was none before
        have hnot := hbefore op hop
        simp only [Bool.not_eq_true', Bool.eq_false_iff, ne_eq, List.isPrefixOf_iff_prefix] at hnot ⊢
        refine fun hpre => hnot (List.IsPrefix.trans ?_ (List.isPrefixOf_iff_prefix.1 hhead))
        refine prefix_of_prefix_append ?_ (by rw [hspelling]; exact List.cons_ne_nil _ _) hrest hpre
        rw [hlist]
        exact List.mem_append_left _ hop
    refine ⟨?_, ?_, by rwa [← hspelling]⟩
    · unfold readOperator
      rw [hagain]
    · rw [← hspelling]
      exact String.toList_ofList
  · cases h

/-- A bracket, comma or semicolon stands in front of anything. -/
theorem stands_punctuation {c : Char} (h : c ∈ punctuation) (rest : List Char) :
    (Lexeme.operator (String.ofList [c])).Stands rest := by
  have hread : readLexeme c rest = .ok (.operator (String.ofList [c]), []) := by
    simp only [punctuation, List.mem_cons, List.not_mem_nil, or_false] at h
    rcases h with rfl | rfl | rfl | rfl | rfl | rfl | rfl | rfl
    all_goals rfl
  have hslash : c ≠ '/' := by
    rintro rfl
    exact absurd h (by decide)
  have hblank : punctuation.any isBlank = false := by decide
  exact ⟨c, [], String.toList_ofList,
    gapLength_eq_zero hslash (Bool.eq_false_iff.2 (List.any_eq_false.1 hblank c h)) _, hread⟩

/-- A star stands in front of anything but the sign that makes it an assignment. -/
theorem stands_star {rest : List Char} (h : ∀ c ∈ rest.head?, c ≠ '=') :
    (Lexeme.operator "*").Stands rest := by
  refine ⟨'*', [], rfl, gapLength_eq_zero (by decide) (by decide) _, ?_⟩
  cases rest with
  | nil => rfl
  | cons c rest =>
    have hc : ('=' == c) = false := by simpa using (h c rfl).symm
    -- of the longer operators, only `*=` begins with a star
    have hlist : operatorTexts = operatorTexts.take 9 ++ ['*', '='] :: operatorTexts.drop 10 := by decide
    have hfind : operatorTexts.find? (·.isPrefixOf ('*' :: c :: rest)) = some ['*'] := by
      rw [hlist, List.find?_append]
      have : (operatorTexts.take 9).find? (·.isPrefixOf ('*' :: c :: rest)) = none := by rfl
      rw [this, List.find?_cons_of_neg]
      · rfl
      · simp [List.isPrefixOf, hc]
    show readOperator '*' (c :: rest) = _
    rw [readOperator]
    rw [hfind]
    rfl

/-! ## Whatever was read stands -/

theorem Lexeme.Stands.readable {l : Lexeme} {rest : List Char} (h : l.Stands rest) :
    l.Readable := by
  obtain ⟨first, others, -, -, hread⟩ := h
  exact ⟨first, others ++ rest, others, hread⟩

theorem Lexeme.Readable.stands {l : Lexeme} (h : l.Readable) {rest : List Char}
    (hrest : Delimited rest) : l.Stands rest := by
  obtain ⟨first, text, others, hread⟩ := h
  rw [readLexeme] at hread
  split at hread
  · next hstart =>
    cases hread
    exact IsWord.stands (by rw [String.toList_ofList]; exact isWord_of_readIdentifier hstart)
      (hrest.head_eq_false (by decide))
  · next hstart =>
    split at hread
    · next hdigit =>
      obtain ⟨hagain, hspelling⟩ := readNumeral_append hread hrest
      obtain ⟨hslash, hblank⟩ := ne_slash_of_isNameChar (isNameChar_of_isDigit hdigit)
      refine ⟨first, others, hspelling, gapLength_eq_zero hslash hblank _, ?_⟩
      rw [readLexeme, if_neg hstart, if_pos hdigit, hagain]
    · next hdigit =>
      split at hread
      · next hquote =>
        obtain ⟨hagain, hspelling⟩ := readLiteral_append hquote hread rest
        have hgap : first ≠ '/' ∧ isBlank first = false := by
          rcases hquote with rfl | rfl
          · decide
          · decide
        refine ⟨first, others, hspelling, gapLength_eq_zero hgap.1 hgap.2 _, ?_⟩
        rw [readLexeme, if_neg hstart, if_neg hdigit, if_pos hquote, hagain]
      · next hquote =>
        split at hread
        · cases hread
        · next hcomment =>
          obtain ⟨hagain, hspelling, hop⟩ := readOperator_append hread hrest
          have hblanks : (operatorTexts.any fun op => op.head?.any isBlank) = false := by decide
          have hblank : isBlank first = false :=
            Bool.eq_false_iff.2 (List.any_eq_false.1 hblanks _ hop)
          -- no comment begins with an operator and a delimiter
          let opens (d : Char) : Bool := d = '/' || d = '*'
          have hopens : (operatorTexts.any fun op => op.tail.head?.any opens) = false := by decide
          have hnext : ∀ d ∈ (others ++ rest).head?, d ≠ '/' ∧ d ≠ '*' := by
            have hfalse : ∀ d ∈ (others ++ rest).head?, opens d = false := by
              cases others with
              | nil => exact hrest.head_eq_false (by decide)
              | cons d others =>
                rintro _ ⟨⟩
                exact Bool.eq_false_iff.2 (List.any_eq_false.1 hopens _ hop)
            intro d hd
            have hd := hfalse d hd
            simp only [opens, Bool.or_eq_false_iff, decide_eq_false_iff_not] at hd
            exact hd
          refine ⟨first, others, hspelling, ?_, ?_⟩
          · by_cases hslash : first = '/'
            · rw [hslash]
              exact gapLength_slash hnext
            · exact gapLength_eq_zero hslash hblank _
          · have hstar : ¬(first = '/' ∧ (others ++ rest).head? = some '*') :=
              fun h => (hnext '*' h.2).2 rfl
            rw [readLexeme, if_neg hstart, if_neg hdigit, if_neg hquote, if_neg hstar, hagain]

end Flattener
