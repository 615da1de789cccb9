import Flattener.Grammar.Scope
import Flattener.Proofs.TypeNames.Registration

/-!
# Successful steps

A parser *reads* a value between two states (`Parser.Reads`) if it succeeds
with that value and takes the one state to the other. For each of the small
parsers, what it reads is said from the state behind it: the state before is the
same one with a few tokens in front (`State.behind`). These are equivalences,
so they serve both to find out what a successful parser has read and to show
that a parser succeeds.
-/

namespace Flattener

/-- The state with more tokens in front. -/
def State.behind (tokens : List Token) (s : State) : State :=
  ⟨tokens ++ s.rest, s.types⟩

theorem State.behind_append (first second : List Token) (s : State) :
    s.behind (first ++ second) = (s.behind second).behind first := by
  rw [behind, List.append_assoc]
  rfl

theorem State.behind_cons (t : Token) (tokens : List Token) (s : State) :
    s.behind (t :: tokens) = (s.behind tokens).behind [t] := rfl

@[simp]
theorem State.types_behind (tokens : List Token) (s : State) : (s.behind tokens).types = s.types :=
  rfl

/-- There are enough rounds for a list of the tokens in front. -/
theorem State.length_lt_budget (tokens : List Token) (s : State) :
    tokens.length < (s.behind tokens).rest.length + 1 := by
  rw [behind, List.length_append]
  omega

theorem State.eq_behind {s s' : State} {tokens : List Token} (hrest : s.rest = tokens ++ s'.rest)
    (htypes : s'.types = s.types) : s = s'.behind tokens := by
  rw [behind, ← hrest, htypes]

/-- A state from which some tokens were dropped is behind them. -/
theorem State.eq_behind_take (n : Nat) (s : State) :
    s = State.behind (s.rest.take n) ⟨s.rest.drop n, s.types⟩ := by
  rw [behind, List.take_append_drop]

namespace Token

theorem isOperator_append (t : Token) (first second : List String) :
    t.isOperator (first ++ second) = (t.isOperator first || t.isOperator second) := by
  unfold isOperator
  split <;> simp

theorem isOperator_singleton {t : Token} {spelling : String} :
    t.isOperator [spelling] = true ↔ t.lexeme = .operator spelling := by
  rw [isOperator]
  split <;> simp_all

/-- There is nothing to the end of input but its place. -/
theorem eq_ending (t : Token) (h : t.isEnd = true) : t = .ending t.location := by
  obtain ⟨lexeme, location⟩ := t
  cases lexeme with
  | endOfInput => rfl
  | _ => cases h

theorem isEnd_of_isOperator {t : Token} {spellings : List String}
    (h : t.isOperator spellings = true) : t.isEnd = false := by
  rw [isOperator] at h
  split at h
  · next hlexeme => rw [isEnd, kind, hlexeme]; rfl
  · cases h

/-- A token is not of another spelling than those it is one of. -/
theorem isOperator_eq_false_of_stop {t : Token} {stops : List String} {spelling : String}
    (hstop : t.isOperator stops = true) (hmem : spelling ∉ stops) :
    t.isOperator [spelling] = false := by
  rw [Token.isOperator] at hstop ⊢
  split at hstop
  · next other hlexeme =>
    have hother : other ∈ stops := by simpa using hstop
    have hne : other ≠ spelling := fun h => hmem (h ▸ hother)
    simpa using hne
  · cases hstop

theorem isEnd_of_identifier {t : Token} {name : String} (h : t.lexeme = .identifier name) :
    t.isEnd = false := by
  rw [isEnd, kind, h]
  rfl

theorem isOperator_of_identifier {t : Token} {name : String} (h : t.lexeme = .identifier name)
    (spellings : List String) : t.isOperator spellings = false := by
  rw [isOperator, h]

theorem isKeyword_of_identifier {t : Token} {name : String} (h : t.lexeme = .identifier name)
    (names : List String) : t.isKeyword names = decide (name ∈ names ∧ name ∈ keywords) := by
  rw [isKeyword, h]

theorem isKeyword_name {n : Name} (h : n.text ∉ keywords) (names : List String) :
    n.token.isKeyword names = false := by
  rw [isKeyword_of_identifier rfl, decide_eq_false_iff_not]
  exact fun hmem => h hmem.2

theorem isKeyword_singleton {t : Token} {name : String} :
    t.isKeyword [name] = true ↔ t.lexeme = .identifier name ∧ name ∈ keywords := by
  rw [isKeyword]
  split
  · next other h =>
    simp only [List.mem_singleton, Bool.decide_and, Bool.and_eq_true, decide_eq_true_eq, h,
      Lexeme.identifier.injEq]
    constructor
    · rintro ⟨rfl, hmem⟩
      exact ⟨rfl, hmem⟩
    · rintro ⟨rfl, hmem⟩
      exact ⟨rfl, hmem⟩
  · next h => simp_all

/-- A keyword is not one of others. -/
theorem isKeyword_eq_false_of_ne {t : Token} {name : String} {names : List String}
    (h : t.isKeyword [name] = true) (hmem : name ∉ names) : t.isKeyword names = false := by
  rw [isKeyword_of_identifier (isKeyword_singleton.1 h).1, decide_eq_false_iff_not]
  exact fun hmem' => hmem hmem'.1

theorem isOperator_of_isKeyword {t : Token} {name : String} (h : t.isKeyword [name] = true)
    (spellings : List String) : t.isOperator spellings = false :=
  isOperator_of_identifier (isKeyword_singleton.1 h).1 spellings

theorem name?_eq_some {t : Token} {n : Name} :
    t.name? = some n ↔ t = n.token ∧ n.text ∉ keywords := by
  obtain ⟨lexeme, location⟩ := t
  obtain ⟨text, place⟩ := n
  cases lexeme with
  | identifier name =>
    simp only [name?, Name.token, Option.ite_none_left_eq_some, Option.some.injEq, Name.mk.injEq,
      Token.mk.injEq, Lexeme.identifier.injEq]
    constructor
    · rintro ⟨hname, rfl, rfl⟩
      exact ⟨⟨rfl, rfl⟩, hname⟩
    · rintro ⟨⟨rfl, rfl⟩, hname⟩
      exact ⟨hname, rfl, rfl⟩
  | _ => simp [name?, Name.token]

end Token

namespace Parser

variable {α β : Type} {c : Context} {s s' : State}

/-! ## Reading -/

/-- The parser succeeds with `a`, and goes from `s` to `s'`. -/
def Reads (p : Parser α) (c : Context) (s : State) (a : α) (s' : State) : Prop :=
  (p c s).result = .ok a ∧ (p c s).state = s'

theorem reads_pure {a b : α} : (pure b : Parser α).Reads c s a s' ↔ a = b ∧ s' = s := by
  simp [Reads, pure_apply, eq_comm]

/-- Two parsers in a row read what each of them reads. -/
theorem reads_bind {p : Parser α} {f : α → Parser β} {b : β} :
    (p >>= f).Reads c s b s' ↔ ∃ a s₁, p.Reads c s a s₁ ∧ (f a).Reads c s₁ b s' := by
  rcases h : (p c s).result with failure | a
  · simp [Reads, bind_of_error h, h]
  · simp [Reads, bind_of_ok h, h]

theorem reads_map {p : Parser α} {f : α → β} {b : β} :
    (f <$> p).Reads c s b s' ↔ ∃ a, p.Reads c s a s' ∧ f a = b := by
  rw [← bind_pure_comp, reads_bind]
  simp [reads_pure, eq_comm]

theorem reads_if_pos {b : Prop} [Decidable b] {p q : Parser α} {a : α} (hb : b) :
    (if b then p else q).Reads c s a s' ↔ p.Reads c s a s' := by
  rw [if_pos hb]

theorem reads_if_neg {b : Prop} [Decidable b] {p q : Parser α} {a : α} (hb : ¬b) :
    (if b then p else q).Reads c s a s' ↔ q.Reads c s a s' := by
  rw [if_neg hb]

theorem reads_gets {f : Context → State → α} {a : α} :
    (gets f).Reads c s a s' ↔ a = f c s ∧ s' = s := by
  simp [Reads, gets, eq_comm]

/-- Behind a look at the state, a parser goes on with what was seen. -/
theorem reads_gets_bind {f : Context → State → α} {g : α → Parser β} {b : β} :
    (gets f >>= g).Reads c s b s' ↔ (g (f c s)).Reads c s b s' :=
  Iff.rfl

theorem reads_peek_bind {g : Token → Parser β} {b : β} :
    (peek >>= g).Reads c s b s' ↔ (g (tokenAt c s.rest 0)).Reads c s b s' :=
  Iff.rfl

theorem reads_atEnd_bind {g : Bool → Parser β} {b : β} :
    (atEnd >>= g).Reads c s b s' ↔ (g (tokenAt c s.rest 0).isEnd).Reads c s b s' :=
  Iff.rfl

theorem reads_checkOperator_bind {spelling : String} {g : Bool → Parser β} {b : β} :
    (checkOperator spelling >>= g).Reads c s b s' ↔
      (g ((tokenAt c s.rest 0).isOperator [spelling])).Reads c s b s' :=
  Iff.rfl

theorem reads_budgeted {p : Nat → Parser α} {a : α} :
    (budgeted p).Reads c s a s' ↔ (p (s.rest.length + 1)).Reads c s a s' :=
  Iff.rfl

theorem reads_peek {t : Token} : peek.Reads c s t s' ↔ t = tokenAt c s.rest 0 ∧ s' = s :=
  reads_gets

theorem behindNext_of_inside {rest : List Token} (h : (tokenAt c rest 0).isEnd = false) :
    behindNext rest = rest.tail := by
  cases rest with
  | nil => rfl
  | cons t rest => exact if_neg (Bool.eq_false_iff.1 h)

theorem behindNext_of_end {rest : List Token} (h : (tokenAt c rest 0).isEnd = true) :
    behindNext rest = rest := by
  cases rest with
  | nil => rfl
  | cons t rest => exact if_pos h

theorem reads_pop {t : Token} :
    pop.Reads c s t s' ↔ t = tokenAt c s.rest 0 ∧ s' = ⟨behindNext s.rest, s.types⟩ := by
  simp [Reads, pop, eq_comm]

theorem reads_take {n : Nat} {tokens : List Token} :
    (take n).Reads c s tokens s' ↔ tokens = s.rest.take n ∧ s' = ⟨s.rest.drop n, s.types⟩ := by
  simp [Reads, take, eq_comm]

theorem not_reads_failAt {t : Token} {cause : Cause} {a : α} :
    ¬(failAt t cause).Reads c s a s' := by
  simp [Reads, failAt]

theorem not_reads_fail {failure : Failure} {a : α} : ¬(fail failure).Reads c s a s' := by
  simp [Reads, fail]

theorem not_reads_unexpected {expected : String} {a : α} :
    ¬(unexpected expected).Reads c s a s' := by
  rw [unexpected, reads_bind]
  rintro ⟨t, s₁, -, h⟩
  exact not_reads_failAt h

/-! ## One token -/

theorem tokenAt_behind_cons (t : Token) (tokens : List Token) :
    tokenAt c (s.behind (t :: tokens)).rest 0 = t := rfl

/-- The end of input is no operator, so only a token of the list can be one. -/
theorem isOperator_tokenAt_eq_false {rest : List Token} {spellings : List String} :
    (tokenAt c rest 0).isOperator spellings = false ↔
      ∀ t ∈ rest.head?, t.isOperator spellings = false := by
  cases rest with
  | nil => exact ⟨fun _ _ h => (nomatch h), fun _ => rfl⟩
  | cons t others => exact ⟨fun h _ ht => by cases ht; exact h, fun h => h t rfl⟩

/-- A token that passes a test which the end of input does not pass is one of the
    list, and is the first one that is consumed. -/
theorem reads_pop_of_test (c : Context) (s s' : State) (t : Token) (test : Token → Bool)
    (hend : ∀ stop, test (.ending stop) = false) :
    test (tokenAt c s.rest 0) = true ∧ pop.Reads c s t s' ↔
      test t = true ∧ s = s'.behind [t] := by
  have hinside {t : Token} (htest : test t = true) : t.isEnd = false := by
    by_contra hisEnd
    rw [Bool.not_eq_false] at hisEnd
    rw [t.eq_ending hisEnd, hend] at htest
    cases htest
  obtain ⟨rest, types⟩ := s
  rw [reads_pop]
  constructor
  · rintro ⟨htest, rfl, rfl⟩
    rw [behindNext_of_inside (hinside htest)]
    cases rest with
    -- what is met behind the last token is the end of input
    | nil => exact absurd htest (by simpa [tokenAt] using hend c.stop)
    | cons first others => exact ⟨htest, rfl⟩
  · rintro ⟨htest, hs⟩
    cases hs
    have hbehind : behindNext (t :: s'.rest) = s'.rest :=
      @behindNext_of_inside c (t :: s'.rest) (hinside htest)
    exact ⟨htest, rfl, congrArg (State.mk · s'.types) hbehind.symm⟩

/-- The end of input is not consumed. -/
theorem reads_popKind_endOfInput {expected : String} {t : Token} :
    (popKind .endOfInput expected).Reads c s t s' ↔
      t.isEnd = true ∧ t = tokenAt c s.rest 0 ∧ s' = s := by
  rw [popKind, reads_peek_bind]
  constructor
  · intro h
    split at h
    · next hkind =>
      obtain ⟨rfl, rfl⟩ := reads_pop.1 h
      have hend : (tokenAt c s.rest 0).isEnd = true := by simpa [Token.isEnd] using hkind
      exact ⟨hend, rfl, by rw [behindNext_of_end hend]⟩
    · exact absurd h not_reads_unexpected
  · rintro ⟨hend, rfl, rfl⟩
    have hkind : (tokenAt c s'.rest 0).kind = .endOfInput := by simpa [Token.isEnd] using hend
    exact (reads_if_pos hkind).2 (reads_pop.2 ⟨rfl, by rw [behindNext_of_end hend]⟩)

theorem reads_atEnd {b : Bool} :
    atEnd.Reads c s b s' ↔ b = (tokenAt c s.rest 0).isEnd ∧ s' = s := by
  simp only [atEnd, bind_pure_comp, reads_map, reads_peek]
  exact ⟨fun ⟨_, ⟨ht, hs⟩, hb⟩ => ⟨ht ▸ hb.symm, hs⟩, fun ⟨hb, hs⟩ => ⟨_, ⟨rfl, hs⟩, hb.symm⟩⟩

theorem reads_checkOperator {spelling : String} {b : Bool} :
    (checkOperator spelling).Reads c s b s' ↔
      b = (tokenAt c s.rest 0).isOperator [spelling] ∧ s' = s := by
  simp only [checkOperator, bind_pure_comp, reads_map, reads_peek]
  exact ⟨fun ⟨_, ⟨ht, hs⟩, hb⟩ => ⟨ht ▸ hb.symm, hs⟩, fun ⟨hb, hs⟩ => ⟨_, ⟨rfl, hs⟩, hb.symm⟩⟩

/-- The next token is consumed if it is an operator, and left if it is none. -/
theorem reads_matchOperator {spelling : String} {found : Option Token} :
    (matchOperator spelling).Reads c s found s' ↔
      (∃ t, t.isOperator [spelling] = true ∧ s = s'.behind [t] ∧ found = some t) ∨
        ((tokenAt c s.rest 0).isOperator [spelling] = false ∧ s' = s ∧ found = none) := by
  have hpop (t : Token) := reads_pop_of_test c s s' t (·.isOperator [spelling]) fun _ => rfl
  simp only [matchOperator, reads_bind, reads_checkOperator]
  constructor
  · rintro ⟨_, _, ⟨rfl, rfl⟩, h⟩
    split at h
    · next htest =>
      obtain ⟨t, ht, rfl⟩ := reads_map.1 h
      obtain ⟨hop, hs⟩ := (hpop t).1 ⟨htest, ht⟩
      exact .inl ⟨t, hop, hs, rfl⟩
    · next htest =>
      obtain ⟨rfl, rfl⟩ := reads_pure.1 h
      exact .inr ⟨by simpa using htest, rfl, rfl⟩
  · rintro (⟨t, hop, hs, rfl⟩ | ⟨htest, rfl, rfl⟩)
    · obtain ⟨htest, ht⟩ := (hpop t).2 ⟨hop, hs⟩
      exact ⟨_, _, ⟨rfl, rfl⟩, (reads_if_pos htest).2 (reads_map.2 ⟨t, ht, rfl⟩)⟩
    · exact ⟨_, _, ⟨rfl, rfl⟩, (reads_if_neg (by simp [htest])).2 (reads_pure.2 ⟨rfl, rfl⟩)⟩

theorem reads_expectOperatorAs {spelling expected : String} {t : Token} :
    (expectOperatorAs spelling expected).Reads c s t s' ↔
      t.isOperator [spelling] = true ∧ s = s'.behind [t] := by
  rw [← reads_pop_of_test c s s' t (·.isOperator [spelling]) fun _ => rfl]
  simp only [expectOperatorAs, reads_bind, reads_checkOperator]
  constructor
  · rintro ⟨_, _, ⟨rfl, rfl⟩, h⟩
    split at h
    · next htest => exact ⟨htest, h⟩
    · exact absurd h not_reads_unexpected
  · rintro ⟨htest, h⟩
    exact ⟨_, _, ⟨rfl, rfl⟩, (reads_if_pos htest).2 h⟩

theorem reads_expectOperator {spelling : String} {t : Token} :
    (expectOperator spelling).Reads c s t s' ↔
      t.isOperator [spelling] = true ∧ s = s'.behind [t] :=
  reads_expectOperatorAs

/-- The next token is consumed if it is a keyword, and left if it is none. -/
theorem reads_matchKeyword {name : String} {found : Option Token} :
    (matchKeyword name).Reads c s found s' ↔
      (∃ t, t.isKeyword [name] = true ∧ s = s'.behind [t] ∧ found = some t) ∨
        ((tokenAt c s.rest 0).isKeyword [name] = false ∧ s' = s ∧ found = none) := by
  have hpop (t : Token) := reads_pop_of_test c s s' t (·.isKeyword [name]) fun _ => rfl
  simp only [matchKeyword, reads_bind, reads_peek]
  constructor
  · rintro ⟨_, _, ⟨rfl, rfl⟩, h⟩
    split at h
    · next htest =>
      obtain ⟨t, ht, rfl⟩ := reads_map.1 h
      obtain ⟨hkey, hs⟩ := (hpop t).1 ⟨htest, ht⟩
      exact .inl ⟨t, hkey, hs, rfl⟩
    · next htest =>
      obtain ⟨rfl, rfl⟩ := reads_pure.1 h
      exact .inr ⟨by simpa using htest, rfl, rfl⟩
  · rintro (⟨t, hkey, hs, rfl⟩ | ⟨htest, rfl, rfl⟩)
    · obtain ⟨htest, ht⟩ := (hpop t).2 ⟨hkey, hs⟩
      exact ⟨_, _, ⟨rfl, rfl⟩, (reads_if_pos htest).2 (reads_map.2 ⟨t, ht, rfl⟩)⟩
    · exact ⟨_, _, ⟨rfl, rfl⟩, (reads_if_neg (by simp [htest])).2 (reads_pure.2 ⟨rfl, rfl⟩)⟩

theorem reads_expectKeyword {name : String} {t : Token} :
    (expectKeyword name).Reads c s t s' ↔
      t.isKeyword [name] = true ∧ s = s'.behind [t] := by
  rw [← reads_pop_of_test c s s' t (·.isKeyword [name]) fun _ => rfl]
  simp only [expectKeyword, reads_bind, reads_peek]
  constructor
  · rintro ⟨_, _, ⟨rfl, rfl⟩, h⟩
    split at h
    · next htest => exact ⟨htest, h⟩
    · exact absurd h not_reads_unexpected
  · rintro ⟨htest, h⟩
    exact ⟨_, _, ⟨rfl, rfl⟩, (reads_if_pos htest).2 h⟩

/-- A name is read of an identifier that is no keyword. -/
theorem reads_popName {expected : String} {n : Name} :
    (popName expected).Reads c s n s' ↔ n.text ∉ keywords ∧ s = s'.behind [n.token] := by
  have hpop := reads_pop_of_test c s s' n.token (·.name?.isSome) fun _ => rfl
  simp only [popName, reads_bind, reads_peek]
  constructor
  · rintro ⟨_, _, ⟨rfl, rfl⟩, h⟩
    split at h
    · next name hname =>
      obtain ⟨t, s₁, ht, hpure⟩ := reads_bind.1 h
      obtain ⟨rfl, rfl⟩ := reads_pure.1 hpure
      -- the token that was looked at is the one that is consumed
      obtain ⟨hn, hkey⟩ := Token.name?_eq_some.1 hname
      obtain rfl := (reads_pop.1 ht).1
      obtain ⟨-, hs⟩ := hpop.1 ⟨by rw [hname]; rfl, hn ▸ ht⟩
      exact ⟨hkey, hs⟩
    · exact absurd h not_reads_unexpected
  · rintro ⟨hkey, hs⟩
    have hname : n.token.name? = some n := Token.name?_eq_some.2 ⟨rfl, hkey⟩
    obtain ⟨-, ht⟩ := hpop.2 ⟨by rw [hname]; rfl, hs⟩
    refine ⟨_, _, ⟨rfl, rfl⟩, ?_⟩
    rw [← (reads_pop.1 ht).1, hname]
    exact reads_bind.2 ⟨_, _, ht, reads_pure.2 ⟨rfl, rfl⟩⟩

/-- An integer is read of a token of that kind. -/
theorem reads_popInteger {expected : String} {t : Token} {value : Nat} :
    (popInteger expected).Reads c s (t, value) s' ↔
      (∃ spelling, t.lexeme = .integer spelling value) ∧ s = s'.behind [t] := by
  have hpop := reads_pop_of_test c s s' t (·.kind = .integer) fun _ => rfl
  simp only [popInteger, reads_bind, reads_peek]
  constructor
  · rintro ⟨_, _, ⟨rfl, rfl⟩, h⟩
    split at h
    · next spelling n hlexeme =>
      obtain ⟨_, s₁, ht, hpure⟩ := reads_bind.1 h
      obtain ⟨heq, rfl⟩ := reads_pure.1 hpure
      cases heq
      obtain rfl := (reads_pop.1 ht).1
      obtain ⟨-, hs⟩ := hpop.1 ⟨by simp [Token.kind, hlexeme, Lexeme.kind], ht⟩
      exact ⟨⟨spelling, hlexeme⟩, hs⟩
    · exact absurd h not_reads_unexpected
  · rintro ⟨⟨spelling, hlexeme⟩, hs⟩
    obtain ⟨-, ht⟩ := hpop.2 ⟨by simp [Token.kind, hlexeme, Lexeme.kind], hs⟩
    refine ⟨_, _, ⟨rfl, rfl⟩, ?_⟩
    rw [← (reads_pop.1 ht).1, hlexeme]
    exact reads_bind.2 ⟨_, _, ht, reads_pure.2 ⟨rfl, rfl⟩⟩

/-! ## Type names -/

theorem reads_isType {name : String} {b : Bool} :
    (isType name).Reads c s b s' ↔ b = s.types.isType name ∧ s' = s :=
  reads_gets

/-- A name that becomes a type is consumed and registered. -/
theorem reads_register {expected : String} {n : Name} :
    (register expected).Reads c s n s' ↔
      n.text ∉ keywords ∧ s.rest = n.token :: s'.rest ∧
        s'.types = s.types.register n.text := by
  refine reads_bind.trans ⟨?_, ?_⟩
  · rintro ⟨name, s₁, hname, hresult, rfl⟩
    cases hresult
    obtain ⟨hkey, rfl⟩ := reads_popName.1 hname
    exact ⟨hkey, rfl, rfl⟩
  · obtain ⟨rest, types⟩ := s
    obtain ⟨rest', types'⟩ := s'
    rintro ⟨hkey, rfl, htypes⟩
    exact ⟨n, ⟨rest', types⟩, reads_popName.2 ⟨hkey, rfl⟩, rfl,
      congrArg (State.mk rest') htypes.symm⟩

end Parser

end Flattener
