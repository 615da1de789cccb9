import Flattener.Proofs.Grammar.Brackets

/-!
# The way out

Whatever was begun, tokens can follow behind which it is over: a string literal,
which no production expects, then a closing bracket for each one that is open,
and a semicolon (`wayOut`). How many brackets are open behind tokens of one
statement is their `openDepth`; with the way out of that depth behind them, they
are a statement that can be passed through (`reads_rawStatement_wayOut`).

An initializer is a span of tokens of its own. It takes in the literal and as
many brackets as are open inside of it, and ends in front of the next token
(`initializerSpan_wayOut`).
-/

namespace Flattener

/-- A string literal, which belongs nowhere but among tokens that are passed
    through. -/
def filler : Token :=
  ⟨.string "\"\"" "", default⟩

/-- A bracket that closes any of the others. -/
def closingBracket : Token :=
  ⟨.operator "]", default⟩

/-- The token that ends a statement. -/
def semicolon : Token :=
  ⟨.operator ";", default⟩

/-- The brace that closes a scope. -/
def closingBrace : Token :=
  ⟨.operator closeBrace, default⟩

/-- The way out of so many open brackets. -/
def wayOut (depth : Nat) : List Token :=
  filler :: (List.replicate depth closingBracket ++ [semicolon])

theorem wayOut_append (depth : Nat) (rest : List Token) : wayOut depth ++ rest =
    filler :: (List.replicate depth closingBracket ++ semicolon :: rest) := by
  simp [wayOut]

/-- There is no end of input on the way. -/
theorem isEnd_of_mem_wayOut {depth : Nat} {t : Token} (h : t ∈ wayOut depth) : t.isEnd = false := by
  rw [wayOut, List.mem_cons, List.mem_append, List.mem_singleton] at h
  obtain rfl | h | rfl := h
  · rfl
  · rw [List.eq_of_mem_replicate h]
    rfl
  · rfl

namespace Token

variable {t : Token}

theorem isOperator_mono {first second : List String} (h : first ⊆ second)
    (ht : t.isOperator first = true) : t.isOperator second = true := by
  rw [isOperator] at ht ⊢
  split at ht
  · next spelling hlexeme => exact decide_eq_true (h (of_decide_eq_true ht))
  · cases ht

/-- An operator is of some spellings if its own one is among them. -/
theorem isOperator_of_singleton {spelling : String} (h : t.isOperator [spelling] = true)
    (spellings : List String) : t.isOperator spellings = decide (spelling ∈ spellings) := by
  rw [isOperator, isOperator_singleton.1 h]

end Token

/-! ## Open statements -/

/-- The number of open brackets behind tokens of a statement, with `depth` of them
    open before, if neither the statement nor the input ends among these. -/
def openDepth (depth : Nat) : List Token → Option Nat
  | [] => some depth
  | t :: rest =>
    if (t.isEnd ∨ depth = 0 ∧ t.isOperator closers) ∨
        nesting depth t = 0 ∧ t.isOperator [";", closeBrace] then
      none
    else openDepth (nesting depth t) rest

theorem openDepth_append (depth : Nat) (first second : List Token) :
    openDepth depth (first ++ second) = (openDepth depth first).bind (openDepth · second) := by
  induction first generalizing depth with
  | nil => rfl
  | cons t first ih =>
    rw [List.cons_append, openDepth, openDepth]
    split
    · rfl
    · exact ih _

/-- Only a bracket or a semicolon changes what is open, or ends a statement, if the
    input goes on. -/
theorem openDepth_of_plain {t : Token} (hinside : t.isEnd = false)
    (h : t.isOperator (";" :: (openers ++ closers)) = false) (depth : Nat) :
    openDepth depth [t] = some depth := by
  have hnone {spellings : List String} (hsubset : spellings ⊆ ";" :: (openers ++ closers)) :
      ¬t.isOperator spellings = true := fun hsome => by
    rw [Token.isOperator_mono hsubset hsome] at h
    cases h
  have hnesting : nesting depth t = depth := by
    rw [nesting, if_neg (hnone (by decide)), if_neg (hnone (by decide))]
  rw [openDepth, hnesting, if_neg]
  · rfl
  · rintro ((hend | ⟨-, hclose⟩) | ⟨-, hlast⟩)
    · cases hinside.symm.trans hend
    · exact hnone (by decide) hclose
    · exact hnone (by decide) hlast

theorem openDepth_of_identifier {t : Token} {name : String} (h : t.lexeme = .identifier name)
    (depth : Nat) : openDepth depth [t] = some depth :=
  openDepth_of_plain (Token.isEnd_of_identifier h) (Token.isOperator_of_identifier h _) depth

/-- Tokens each of which leaves open what was open do so together. -/
theorem openDepth_of_forall {tokens : List Token} {depth : Nat}
    (h : ∀ t ∈ tokens, openDepth depth [t] = some depth) : openDepth depth tokens = some depth := by
  induction tokens with
  | nil => rfl
  | cons t tokens ih =>
    rw [List.forall_mem_cons] at h
    rw [← List.singleton_append, openDepth_append, h.1]
    exact ih h.2

variable {t : Token} {spelling : String}

theorem openDepth_of_plain_operator (h : t.isOperator [spelling] = true)
    (hplain : spelling ∉ ";" :: (openers ++ closers)) (depth : Nat) :
    openDepth depth [t] = some depth :=
  openDepth_of_plain (Token.isEnd_of_isOperator h)
    (by rw [Token.isOperator_of_singleton h, decide_eq_false hplain]) depth

theorem openDepth_of_opener (h : t.isOperator [spelling] = true) (hopener : spelling ∈ openers)
    (depth : Nat) : openDepth depth [t] = some (depth + 1) := by
  have hspelling := Token.isOperator_of_singleton h
  have hinside := Token.isEnd_of_isOperator h
  simp only [openers, List.mem_cons, List.not_mem_nil, or_false] at hopener
  obtain rfl | rfl | rfl := hopener <;>
    simp [openDepth, hinside, nesting, hspelling, closers, openers, openBrace, closeBrace]

/-- A brace that closes the last bracket ends the statement. -/
theorem openDepth_of_closer (h : t.isOperator [spelling] = true) (hcloser : spelling ∈ [")", "]"])
    (depth : Nat) : openDepth (depth + 1) [t] = some depth := by
  have hspelling := Token.isOperator_of_singleton h
  have hinside := Token.isEnd_of_isOperator h
  simp only [List.mem_cons, List.not_mem_nil, or_false] at hcloser
  obtain rfl | rfl := hcloser <;> simp [openDepth, hinside, nesting, hspelling, closers, closeBrace]

theorem openDepth_of_semicolon (h : t.isOperator [";"] = true) (depth : Nat) :
    openDepth (depth + 1) [t] = some (depth + 1) := by
  simp [openDepth, Token.isEnd_of_isOperator h, nesting, Token.isOperator_of_singleton h, closers,
    openers, openBrace, closeBrace]

/-- A statement goes on behind tokens that leave it open. -/
theorem statementSpan_append_of_open {depth depth' : Nat} {tokens : List Token}
    (h : openDepth depth tokens = some depth') (rest : List Token) :
    statementSpan depth (tokens ++ rest) = tokens ++ statementSpan depth' rest := by
  induction tokens generalizing depth with
  | nil =>
    cases h
    rfl
  | cons t tokens ih =>
    rw [openDepth] at h
    split at h
    · cases h
    next hopen =>
    rw [not_or] at hopen
    rw [List.cons_append, statementSpan, if_neg hopen.1, if_neg hopen.2, ih h]
    rfl

theorem foldl_nesting_of_open {depth depth' : Nat} {tokens : List Token}
    (h : openDepth depth tokens = some depth') : tokens.foldl nesting depth = depth' := by
  induction tokens generalizing depth with
  | nil =>
    cases h
    rfl
  | cons t tokens ih =>
    rw [openDepth] at h
    split at h
    · cases h
    · exact ih h

/-- A brace that closes the last bracket ends a statement. -/
theorem statementSpan_of_closeBrace {t : Token} (h : t.isOperator [closeBrace] = true)
    (rest : List Token) : statementSpan 1 (t :: rest) = [t] := by
  have hspelling := Token.isOperator_of_singleton h
  have hnesting : nesting 1 t = 0 := by
    rw [nesting, hspelling]
    rfl
  rw [statementSpan, Token.isEnd_of_isOperator h, if_neg (by simp),
    if_pos ⟨hnesting, by rw [hspelling]; rfl⟩]

/-- What is left of tokens that are passed through, up to the end of input: an open
    statement, or a whole one. -/
inductive Leaves : List Token → Nat → Prop
  | opened {tokens : List Token} {depth : Nat} : openDepth 0 tokens = some depth →
    Leaves tokens depth
  | whole {tokens : List Token} : tokens ≠ [] →
    (∀ more, statementSpan 0 (tokens ++ more) = tokens) → Leaves tokens 0

theorem Leaves.behind {read tokens : List Token} {depth : Nat} (h : Leaves tokens depth)
    (hread : openDepth 0 read = some 0) : Leaves (read ++ tokens) depth := by
  cases h with
  | opened hopen =>
    refine .opened ?_
    rw [openDepth_append, hread]
    exact hopen
  | whole hsome hspan =>
    refine .whole (List.append_ne_nil_of_right_ne_nil _ hsome) fun more => ?_
    rw [List.append_assoc, statementSpan_append_of_open hread, hspan]

/-- Tokens that a statement takes all of leave it open, or they are the whole of it
    whatever follows. -/
theorem open_or_whole_of_statementSpan {depth : Nat} {tokens : List Token}
    (h : statementSpan depth tokens = tokens) :
    (∃ depth', openDepth depth tokens = some depth') ∨
      ∀ more, statementSpan depth (tokens ++ more) = tokens := by
  induction tokens generalizing depth with
  | nil => exact .inl ⟨depth, rfl⟩
  | cons t tokens ih =>
    rw [statementSpan] at h
    split at h
    · cases h
    next hopen =>
    split at h
    · next hend =>
      refine .inr fun more => ?_
      rw [List.cons_append, statementSpan, if_neg hopen, if_pos hend, h]
    · next hgoes =>
      rcases ih (List.cons.inj h).2 with ⟨depth', hdepth⟩ | hwhole
      · refine .inl ⟨depth', ?_⟩
        rw [openDepth, if_neg (not_or.2 ⟨hopen, hgoes⟩), hdepth]
      · refine .inr fun more => ?_
        rw [List.cons_append, statementSpan, if_neg hopen, if_neg hgoes, hwhole]

/-- Tokens that are a statement as far as they go leave something. -/
theorem leaves_of_statementSpan {tokens : List Token} (h : statementSpan 0 tokens = tokens)
    (hsome : tokens ≠ []) : ∃ depth, Leaves tokens depth := by
  rcases open_or_whole_of_statementSpan h with ⟨depth, hopen⟩ | hwhole
  · exact ⟨depth, .opened hopen⟩
  · exact ⟨0, .whole hsome hwhole⟩

/-- The way out leaves nothing open, and a statement takes all of it. -/
theorem statementSpan_wayOut (depth : Nat) (rest : List Token) :
    statementSpan depth (wayOut depth ++ rest) = wayOut depth := by
  have hbrackets (depth : Nat) : statementSpan depth
      (List.replicate depth closingBracket ++ semicolon :: rest) =
        List.replicate depth closingBracket ++ [semicolon] := by
    induction depth with
    | zero => rfl
    | succ depth ih =>
      have hopen : ¬(closingBracket.isEnd = true ∨
          depth + 1 = 0 ∧ closingBracket.isOperator closers = true) :=
        not_or.2 ⟨Bool.false_ne_true, fun h => Nat.succ_ne_zero depth h.1⟩
      rw [List.replicate_succ, List.cons_append, List.cons_append, statementSpan, if_neg hopen,
        if_neg fun h => Bool.false_ne_true h.2]
      exact congrArg _ ih
  have hopen : ¬(filler.isEnd = true ∨ depth = 0 ∧ filler.isOperator closers = true) :=
    not_or.2 ⟨Bool.false_ne_true, fun h => Bool.false_ne_true h.2⟩
  rw [wayOut_append, statementSpan, if_neg hopen, if_neg fun h => Bool.false_ne_true h.2]
  exact congrArg _ (hbrackets depth)

theorem foldl_nesting_wayOut (depth : Nat) : (wayOut depth).foldl nesting depth = 0 := by
  have hbrackets (depth : Nat) :
      (List.replicate depth closingBracket ++ [semicolon]).foldl nesting depth = 0 := by
    induction depth with
    | zero => rfl
    | succ depth ih => exact ih
  exact hbrackets depth

namespace Parser

variable {c : Context} {s : State}

/-- A statement is read if it has tokens, and leaves nothing open at the end of
    input. -/
theorem reads_rawStatement_of_span {tokens rest : List Token} {types : TypeNames}
    (hspan : statementSpan 0 (tokens ++ rest) = tokens) (hsome : tokens ≠ [])
    (hclosed : (tokenAt c rest 0).isEnd = true → finalDepth tokens = 0) :
    rawStatement.Reads c ⟨tokens ++ rest, types⟩ tokens ⟨rest, types⟩ := by
  simp only [rawStatement, reads_bind, reads_gets, reads_take, reads_atEnd]
  refine ⟨_, _, ⟨rfl, rfl⟩, _, _, ⟨rfl, rfl⟩, _, _, ⟨rfl, rfl⟩, ?_⟩
  simp only [hspan, List.take_left', List.drop_left']
  split
  · next hend =>
    exact (reads_if_neg (by rw [hclosed hend]; exact Nat.lt_irrefl 0)).2 (reads_pure.2 ⟨rfl, rfl⟩)
  · exact (reads_if_neg (by simpa using hsome)).2 (reads_pure.2 ⟨rfl, rfl⟩)

/-- With the way out behind them, tokens that leave a statement open are passed
    through. -/
theorem reads_rawStatement_wayOut {tokens : List Token} {depth : Nat} {types : TypeNames}
    (hopen : openDepth 0 tokens = some depth) (rest : List Token) :
    rawStatement.Reads c ⟨tokens ++ (wayOut depth ++ rest), types⟩ (tokens ++ wayOut depth)
      ⟨rest, types⟩ := by
  rw [← List.append_assoc]
  refine reads_rawStatement_of_span ?_ ?_ ?_
  · rw [List.append_assoc, statementSpan_append_of_open hopen, statementSpan_wayOut]
  · simp [wayOut]
  -- the end of input may follow, but all brackets are closed
  · intro _
    rw [finalDepth, List.foldl_append, foldl_nesting_of_open hopen, foldl_nesting_wayOut]

end Parser

/-! ## Initializers -/

theorem initializerSpan_append_of_all {stops : List String} {depth : Nat} {tokens : List Token}
    (h : initializerSpan stops depth tokens = tokens) (rest : List Token) :
    initializerSpan stops depth (tokens ++ rest) =
      tokens ++ initializerSpan stops (tokens.foldl nesting depth) rest := by
  induction tokens generalizing depth with
  | nil => rfl
  | cons t tokens ih =>
    rw [initializerSpan] at h
    split at h
    · cases h
    · next hgoes =>
      rw [List.cons_append, initializerSpan, if_neg hgoes, ih (List.cons.inj h).2]
      rfl

/-- An initializer takes in the literal and closes what is open inside of it. -/
theorem initializerSpan_wayOut (stops : List String) (depth : Nat) {rest : List Token}
    (hrest : ∀ t ∈ rest.head?, t.isOperator (stops ++ closers) = true) :
    initializerSpan stops depth (filler :: (List.replicate depth closingBracket ++ rest)) =
      filler :: List.replicate depth closingBracket := by
  have hbrackets (depth : Nat) : initializerSpan stops depth
      (List.replicate depth closingBracket ++ rest) = List.replicate depth closingBracket := by
    induction depth with
    | zero =>
      cases rest with
      | nil => rfl
      | cons t rest => exact if_pos (.inr ⟨rfl, hrest t rfl⟩)
    | succ depth ih =>
      have hopen : ¬(closingBracket.isEnd = true ∨
          depth + 1 = 0 ∧ closingBracket.isOperator (stops ++ closers) = true) :=
        not_or.2 ⟨Bool.false_ne_true, fun h => Nat.succ_ne_zero depth h.1⟩
      rw [List.replicate_succ, List.cons_append, initializerSpan, if_neg hopen]
      exact congrArg _ ih
  have hopen : ¬(filler.isEnd = true ∨ depth = 0 ∧ filler.isOperator (stops ++ closers) = true) :=
    not_or.2 ⟨Bool.false_ne_true, fun h => Bool.false_ne_true h.2⟩
  rw [initializerSpan, if_neg hopen]
  exact congrArg _ (hbrackets depth)

/-- With the way out of what is open in it, an initializer takes in the brackets of
    that, and the others are left. -/
theorem initializerSpan_append_wayOut {stops : List String} {tokens : List Token}
    (h : initializerSpan stops 0 tokens = tokens) (rest : List Token)
    (hrest : ∀ t ∈ rest.head?, t.isOperator (stops ++ closers) = true) :
    initializerSpan stops 0 (tokens ++
        (filler :: List.replicate (tokens.foldl nesting 0) closingBracket) ++ rest) =
      tokens ++ filler :: List.replicate (tokens.foldl nesting 0) closingBracket := by
  rw [List.append_assoc, initializerSpan_append_of_all h, List.cons_append,
    initializerSpan_wayOut stops _ hrest]

/-- The way out of some brackets begins with that of the inner ones. -/
theorem wayOut_add (inside outside : Nat) (rest : List Token) :
    wayOut (outside + inside) ++ rest = (filler :: List.replicate inside closingBracket) ++
      (List.replicate outside closingBracket ++ semicolon :: rest) := by
  rw [wayOut_append, Nat.add_comm, ← List.replicate_append_replicate]
  simp only [List.append_assoc, List.cons_append]

/-- Inside of other brackets, a token opens and closes what it does outside. -/
theorem nesting_add {depth around : Nat} {t : Token}
    (h : ¬(depth = 0 ∧ t.isOperator closers = true)) :
    nesting (around + depth) t = around + nesting depth t := by
  have hinside : ¬(around + depth = 0 ∧ t.isOperator closers = true) := fun hcloses =>
    h ⟨Nat.eq_zero_of_add_eq_zero_left hcloses.1, hcloses.2⟩
  have := nesting_eq h
  have := nesting_eq hinside
  omega

theorem openDepth_cons_of_nesting {depth around : Nat} {t : Token} (haround : 0 < around)
    (hinside : t.isEnd = false) (h : nesting (around + depth) t = around + nesting depth t)
    (tokens : List Token) :
    openDepth (around + depth) (t :: tokens) = openDepth (around + nesting depth t) tokens := by
  rw [openDepth, h, hinside, if_neg]
  simp only [Bool.false_eq_true, false_or]
  omega

/-- Inside of other brackets, what is open in an initializer is open in the
    statement. -/
theorem openDepth_of_initializerSpan {stops : List String} {depth : Nat} {tokens : List Token}
    (h : initializerSpan stops depth tokens = tokens) {around : Nat} (haround : 0 < around) :
    openDepth (around + depth) tokens = some (around + tokens.foldl nesting depth) := by
  induction tokens generalizing depth with
  | nil => rfl
  | cons t tokens ih =>
    rw [initializerSpan] at h
    split at h
    · cases h
    next hgoes =>
    rw [not_or, Bool.not_eq_true] at hgoes
    -- a bracket that closes more than is open here would have ended the span
    rw [openDepth_cons_of_nesting haround hgoes.1 (nesting_add (not_closes_of_goes hgoes.2)),
      ih (List.cons.inj h).2]
    rfl

/-- What is enclosed leaves open what was open around it. -/
theorem openDepth_of_enclosed {stops : List String} {depth : Nat} {tokens : List Token}
    (h : Enclosed stops depth tokens) {around : Nat} (haround : 0 < around) :
    openDepth (around + depth) tokens = some around := by
  induction tokens generalizing depth with
  | nil =>
    have hzero := enclosed_nil.1 h
    rw [openDepth, Int.ofNat_eq_zero.1 hzero]
    rfl
  | cons t tokens ih =>
    obtain ⟨hinside, -, -, hrest⟩ := enclosed_cons.1 h
    have hopen : ¬(depth = 0 ∧ t.isOperator closers = true) := by
      -- it would close a bracket that was open before, and nothing mends that
      rintro ⟨hzero, hclose⟩
      rw [bracketStep_of_closer hclose, hzero] at hrest
      exact not_enclosed_of_neg (by decide) _ hrest
    rw [← nesting_eq hopen] at hrest
    rw [openDepth_cons_of_nesting haround hinside (nesting_add hopen), ih hrest]

end Flattener
