import Flattener.Proofs.Grammar.Rounds
import Flattener.Proofs.Grammar.Soundness

/-!
# There are always enough rounds

Every round of a list, of the members of a struct or class, and of a scope
consumes a token (`Parser.Shrinks`). A parser that is given a round for each of
the tokens that are left, and one more, never runs out of them, and as no
rollback goes wrong either, what it fails with is an error of the source
(`Parser.Faultless`, `faultless_scopeItems`). For a whole program that is
`invalid_of_parse`.
-/

namespace Flattener.Parser

variable {α β : Type} {c : Context} {s s' : State} {n : Nat}

/-! ## Combinations -/

/-- On fewer than `n` tokens, the parser fails with nothing but an error of the
    source. -/
structure Faultless (n : Nat) (p : Parser α) : Prop where
  moves : p.Moves
  invalid : ∀ {c : Context} {s : State} {failure : Failure}, s.types.Consistent →
    s.rest.length < n → (p c s).result = .error failure → ∃ error, failure = .invalid error

/-- The parser consumes a token if it succeeds. -/
def Shrinks (p : Parser α) : Prop :=
  ∀ {c : Context} {s : State} {a : α} {s' : State}, s.types.Consistent → p.Reads c s a s' →
    s'.rest.length < s.rest.length

theorem faultless_pure (a : α) : Faultless n (pure a) :=
  ⟨moves_pure a, fun _ _ => nofun⟩

theorem faultless_bind {p : Parser α} {f : α → Parser β} (hp : Faultless n p)
    (hf : ∀ a, Faultless n (f a)) : Faultless n (p >>= f) := by
  refine ⟨moves_bind hp.moves fun a => (hf a).moves, fun {c s _} hs hn h => ?_⟩
  rcases hresult : (p c s).result with failure | a
  · rw [bind_of_error hresult] at h
    cases h
    exact hp.invalid hs hn hresult
  -- the second parser has no more tokens than the first one had
  · have hreaches := hp.moves c s hs
    rw [bind_of_ok hresult] at h
    exact (hf a).invalid (hreaches.consistent hs) (hreaches.1.length_le.trans_lt hn) h

/-- Behind a token there is one less, so one round less is enough. -/
theorem faultless_bind_shrinks {p : Parser α} {f : α → Parser β} (hp : Faultless (n + 1) p)
    (hshrinks : p.Shrinks) (hf : ∀ a, Faultless n (f a)) : Faultless (n + 1) (p >>= f) := by
  refine ⟨moves_bind hp.moves fun a => (hf a).moves, fun {c s _} hs hn h => ?_⟩
  rcases hresult : (p c s).result with failure | a
  · rw [bind_of_error hresult] at h
    cases h
    exact hp.invalid hs hn hresult
  · have hlength := hshrinks hs ⟨hresult, rfl⟩
    rw [bind_of_ok hresult] at h
    exact (hf a).invalid ((hp.moves c s hs).consistent hs) (by omega) h

theorem faultless_map {p : Parser α} (f : α → β) (hp : Faultless n p) : Faultless n (f <$> p) := by
  rw [← bind_pure_comp]
  exact faultless_bind hp fun a => faultless_pure _

theorem faultless_ite {b : Prop} [Decidable b] {p q : Parser α} (hp : Faultless n p)
    (hq : Faultless n q) : Faultless n (if b then p else q) := by
  split
  · exact hp
  · exact hq

theorem faultless_gets (f : Context → State → α) : Faultless n (gets f) :=
  ⟨moves_gets f, fun _ _ => nofun⟩

theorem faultless_failAt (t : Token) (cause : Cause) : Faultless n (failAt t cause : Parser α) :=
  ⟨moves_failAt t cause, fun _ _ h => by cases h; exact ⟨_, rfl⟩⟩

theorem faultless_take (m : Nat) : Faultless n (take m) :=
  ⟨moves_take m, fun _ _ => nofun⟩

theorem faultless_pop : Faultless n pop :=
  ⟨moves_pop, fun _ _ => nofun⟩

/-- The rounds are counted from the tokens that are left. -/
theorem faultless_budgeted {p : Nat → Parser α} (hp : ∀ m, Faultless m (p m)) :
    Faultless n (budgeted p) :=
  ⟨moves_budgeted fun m => (hp m).moves, fun hs _ => (hp _).invalid hs (Nat.lt_succ_self _)⟩

theorem faultless_unexpected (expected : String) : Faultless n (unexpected expected : Parser α) :=
  faultless_bind (faultless_gets _) fun _ => faultless_failAt _ _

theorem faultless_demand (view : Token → Option α) (expected : String) :
    Faultless n (demand view expected) := by
  refine faultless_bind (faultless_gets _) fun t => ?_
  split
  · exact faultless_bind faultless_pop fun _ => faultless_pure _
  · exact faultless_unexpected _

theorem faultless_accept (view : Token → Option α) : Faultless n (accept view) := by
  refine faultless_bind (faultless_gets _) fun t => ?_
  split
  · exact faultless_bind faultless_pop fun _ => faultless_pure _
  · exact faultless_pure _

theorem faultless_popName (expected : String) : Faultless n (popName expected) :=
  popName_eq expected ▸ faultless_demand _ _

theorem faultless_expectOperator (spelling : String) : Faultless n (expectOperator spelling) :=
  expectOperator_eq spelling ▸ faultless_demand _ _

theorem faultless_expectKeyword (name : String) : Faultless n (expectKeyword name) :=
  expectKeyword_eq name ▸ faultless_demand _ _

theorem faultless_matchOperator (spelling : String) : Faultless n (matchOperator spelling) :=
  matchOperator_eq spelling ▸ faultless_accept _

theorem faultless_checkOperator (spelling : String) : Faultless n (checkOperator spelling) :=
  faultless_bind (faultless_gets _) fun _ => faultless_pure _

theorem faultless_register (expected : String) : Faultless n (register expected) :=
  faultless_bind (faultless_popName _) fun name =>
    ⟨fun _ s _ => ⟨List.suffix_refl s.rest, [name.text], rfl⟩, fun _ _ => nofun⟩

/-- A parser that reads what stands between the states shrinks the tokens if that
    is something. -/
theorem shrinks_of_behind {p : Parser α}
    (h : ∀ {c s a s'}, s.types.Consistent → p.Reads c s a s' →
      ∃ tokens : List Token, 0 < tokens.length ∧ s = s'.behind tokens) : p.Shrinks := by
  intro c s a s' hs hread
  obtain ⟨tokens, hpos, rfl⟩ := h hs hread
  show s'.rest.length < (tokens ++ s'.rest).length
  rw [List.length_append]
  omega

theorem shrinks_expectOperator (spelling : String) : (expectOperator spelling).Shrinks :=
  shrinks_of_behind fun {_ _ t _} _ h => ⟨[t], Nat.one_pos, (reads_expectOperator.1 h).2⟩

theorem shrinks_expectKeyword (name : String) : (expectKeyword name).Shrinks :=
  shrinks_of_behind fun {_ _ t _} _ h => ⟨[t], Nat.one_pos, (reads_expectKeyword.1 h).2⟩

/-! ### Declarations -/

theorem faultless_typeRef : Faultless n typeRef := by
  have hstars : Faultless n stars :=
    faultless_bind (faultless_gets _) fun _ => faultless_bind (faultless_take _) fun _ =>
      faultless_pure _
  exact faultless_bind (faultless_popName _) fun _ => faultless_bind (faultless_gets _) fun _ =>
    faultless_ite (faultless_bind hstars fun _ => faultless_pure _) (faultless_failAt _ _)

theorem faultless_declaredName : Faultless n declaredName :=
  faultless_bind (faultless_popName _) fun _ => faultless_bind (faultless_gets _) fun _ =>
    faultless_ite (faultless_failAt _ _) (faultless_pure _)

theorem faultless_arraySize : Faultless n arraySize := by
  have hunsigned : Faultless n unsigned := by
    refine faultless_bind (faultless_matchOperator _) fun sign =>
      faultless_bind (popInteger_eq _ ▸ faultless_demand _ _) fun _ => ?_
    cases sign with
    | none => exact faultless_pure _
    | some sign => exact faultless_ite (faultless_failAt _ _) (faultless_pure _)
  exact faultless_bind (faultless_matchOperator _) fun _ =>
    faultless_ite
      (faultless_bind hunsigned fun _ => faultless_ite (faultless_failAt _ _)
        (faultless_bind (faultless_expectOperator _) fun _ => faultless_pure _))
      (faultless_pure _)

theorem faultless_initializer (stops : List String) : Faultless n (initializer stops) := by
  refine faultless_bind (faultless_gets _) fun _ => faultless_bind (faultless_take _) fun tokens => ?_
  split
  · exact faultless_bind (faultless_gets _) fun _ =>
      faultless_ite (faultless_pure _) (faultless_unexpected _)
  · exact faultless_unexpected _

theorem faultless_variableTail (type : TypeRef) (name : Name) (stops : List String) :
    Faultless n (variableTail type name stops) :=
  faultless_bind faultless_arraySize fun _ => faultless_bind (faultless_matchOperator _) fun _ =>
    faultless_ite (faultless_bind (faultless_initializer _) fun _ => faultless_pure _)
      (faultless_pure _)

/-- Every element of a list consumes a token, so there are rounds enough. -/
theorem faultless_commaList {p : Parser α} (hp : ∀ n, Faultless n p) (hshrinks : p.Shrinks)
    (n : Nat) : Faultless n (commaList p n) := by
  induction n with
  | zero => exact ⟨moves_fail _, fun _ hn => absurd hn (Nat.not_lt_zero _)⟩
  | succ n ih =>
    exact faultless_bind_shrinks (hp _) hshrinks fun _ => faultless_bind (faultless_matchOperator _)
      fun _ => faultless_ite (faultless_bind ih fun _ => faultless_pure _) (faultless_pure _)

theorem shrinks_parameter : parameter.Shrinks :=
  shrinks_of_behind fun hs h => by
    obtain ⟨tokens, hspelled, -, htokens⟩ := spelled_of_reads_parameter hs h
    obtain ⟨first, second, rest, rfl, -, -⟩ := hspelled.leads
    exact ⟨first :: second :: rest, Nat.succ_pos _, htokens⟩

theorem faultless_parameter (n : Nat) : Faultless n parameter :=
  faultless_bind faultless_typeRef fun _ => faultless_bind faultless_declaredName fun _ =>
    faultless_variableTail _ _ _

theorem faultless_parameterList : Faultless n parameterList := by
  have hparameters : Faultless n parameters :=
    faultless_bind (faultless_checkOperator _) fun _ => faultless_ite (faultless_pure _) <|
      faultless_bind (faultless_gets _) fun _ =>
        faultless_ite (faultless_bind faultless_pop fun _ => faultless_pure _)
          (faultless_budgeted (faultless_commaList faultless_parameter shrinks_parameter))
  exact faultless_bind (faultless_expectOperator _) fun _ => faultless_bind hparameters fun _ =>
    faultless_bind (faultless_expectOperator _) fun _ => faultless_pure _

theorem faultless_variableEnd (type : TypeRef) (name : Name) : Faultless n (variableEnd type name) :=
  faultless_bind (faultless_variableTail _ _ _) fun _ =>
    faultless_bind (faultless_expectOperator _) fun _ => faultless_pure _

theorem faultless_variableDecl : Faultless n variableDecl :=
  faultless_bind faultless_typeRef fun _ => faultless_bind faultless_declaredName fun _ =>
    faultless_variableEnd _ _

theorem faultless_declaration (isMember : Bool) : Faultless n (declaration isMember) := by
  have hfunction (returns : TypeRef) (name : Name) :
      Faultless n (functionTail returns name isMember) :=
    faultless_bind faultless_parameterList fun _ => faultless_bind (faultless_checkOperator _)
      fun _ => faultless_ite (faultless_bind (faultless_gets _) fun _ => faultless_failAt _ _)
        (faultless_bind (faultless_expectOperator _) fun _ => faultless_pure _)
  exact faultless_bind faultless_typeRef fun _ => faultless_bind faultless_declaredName fun _ =>
    faultless_bind (faultless_checkOperator _) fun _ =>
      faultless_ite (faultless_map _ (hfunction _ _)) (faultless_map _ (faultless_variableEnd _ _))

theorem faultless_functionPointer : Faultless n functionPointer :=
  faultless_bind (faultless_expectKeyword _) fun _ => faultless_bind faultless_typeRef fun _ =>
    faultless_bind (faultless_expectOperator _) fun _ => faultless_bind (faultless_expectOperator _)
      fun _ => faultless_bind faultless_declaredName fun _ =>
        faultless_bind (faultless_expectOperator _) fun _ => faultless_bind faultless_parameterList
          fun _ => faultless_bind (faultless_expectOperator _) fun _ => faultless_pure _

/-! ### Structs and classes -/

theorem faultless_member {p : Parser α} (hp : Faultless n p) : Faultless n (member p) :=
  faultless_bind (faultless_gets _) fun _ => faultless_ite (faultless_failAt _ _) <|
    faultless_ite (faultless_map _ faultless_functionPointer) (faultless_map _ hp)

theorem shrinks_structMember : structMember.Shrinks :=
  shrinks_of_behind fun hs h => by
    obtain ⟨tokens, hspelled, -, htokens⟩ := (reads_structMember hs).1 h
    exact ⟨tokens, hspelled.length_pos, htokens⟩

theorem shrinks_classMember (access : Access) : (classMember access).Shrinks :=
  shrinks_of_behind fun hs h => by
    obtain ⟨tokens, hspelled, -, htokens⟩ := (reads_classMember hs).1 h
    exact ⟨tokens, hspelled.length_pos, htokens⟩

theorem shrinks_trait : trait.Shrinks :=
  shrinks_of_behind fun _ h => by
    obtain ⟨tokens, hspelled, htokens⟩ := reads_trait.1 h
    exact ⟨tokens, by cases hspelled; exact Nat.one_pos, htokens⟩

theorem faultless_structMember : Faultless n structMember := by
  refine faultless_bind (faultless_member faultless_variableDecl) fun found => ?_
  split <;> exact faultless_pure _

theorem faultless_classMember (access : Access) : Faultless n (classMember access) := by
  refine faultless_bind (faultless_member (faultless_declaration _)) fun found => ?_
  split <;> exact faultless_pure _

theorem faultless_trait (n : Nat) : Faultless n trait :=
  faultless_bind (faultless_popName _) fun _ => faultless_pure _

theorem faultless_structMembers (n : Nat) : Faultless n (structMembers n) := by
  induction n with
  | zero => exact ⟨moves_fail _, fun _ hn => absurd hn (Nat.not_lt_zero _)⟩
  | succ n ih =>
    exact faultless_bind (faultless_checkOperator _) fun _ => faultless_ite (faultless_pure _) <|
      faultless_bind_shrinks faultless_structMember shrinks_structMember fun _ =>
        faultless_bind ih fun _ => faultless_pure _

theorem faultless_classMembers (n : Nat) (access : Access) :
    Faultless n (classMembers n access) := by
  induction n generalizing access with
  | zero => exact ⟨moves_fail _, fun _ hn => absurd hn (Nat.not_lt_zero _)⟩
  | succ n ih =>
    refine faultless_bind (faultless_checkOperator _) fun _ => faultless_ite (faultless_pure _) ?_
    refine faultless_bind (faultless_gets _) fun t => ?_
    dsimp only
    split
    · exact faultless_bind faultless_pop fun _ =>
        faultless_bind_shrinks (faultless_expectOperator _) (shrinks_expectOperator _) fun _ => ih _
    · exact faultless_bind (matchKeyword_eq _ ▸ faultless_accept _) fun _ =>
        faultless_bind_shrinks (faultless_classMember _) (shrinks_classMember _) fun _ =>
          faultless_bind (ih _) fun _ => faultless_pure _

theorem faultless_structDecl : Faultless n structDecl :=
  faultless_bind (faultless_expectKeyword _) fun _ => faultless_bind (faultless_register _) fun _ =>
    faultless_bind (faultless_matchOperator _) fun _ => faultless_ite (faultless_pure _) <|
      faultless_bind (faultless_expectOperator _) fun _ =>
        faultless_bind (faultless_budgeted faultless_structMembers) fun _ =>
          faultless_bind (faultless_expectOperator _) fun _ =>
            faultless_bind (faultless_expectOperator _) fun _ => faultless_pure _

theorem faultless_classDecl : Faultless n classDecl := by
  have htraits : Faultless n traits :=
    faultless_bind (faultless_matchOperator _) fun _ =>
      faultless_ite (faultless_budgeted (faultless_commaList faultless_trait shrinks_trait))
        (faultless_pure _)
  exact faultless_bind (faultless_expectKeyword _) fun _ =>
    faultless_bind (faultless_register _) fun _ => faultless_bind (faultless_matchOperator _)
      fun _ => faultless_ite (faultless_pure _) <| faultless_bind htraits fun _ =>
        faultless_bind (faultless_expectOperator _) fun _ =>
          faultless_bind (faultless_budgeted fun n => faultless_classMembers n _) fun _ =>
            faultless_bind (faultless_expectOperator _) fun _ =>
              faultless_bind (faultless_expectOperator _) fun _ => faultless_pure _

/-! ### Scopes -/

theorem faultless_attempt {p : Parser α} (hp : Faultless n p) : Faultless n (attempt p) := by
  refine ⟨moves_attempt hp.moves, fun {c s _} hs hn h => ?_⟩
  rcases hresult : (p c s).result with failure | a
  · cases hmend : isRecoverable failure with
    | true =>
      obtain ⟨events, hnone⟩ := attempt_of_recoverable hp.moves hs hresult hmend
      rw [hnone] at h
      cases h
    -- an error that is passed on is that of the production
    | false =>
      rw [attempt_of_fatal hresult hmend] at h
      cases h
      exact hp.invalid hs hn hresult
  · rw [attempt_of_ok hresult] at h
    cases h

/-- The keyword of a namespace makes up for the round that its items take. -/
theorem faultless_produce {body : Parser (List Item)} (hbody : Faultless n body)
    (production : Production) : Faultless (n + 1) (produce body production) := by
  cases production with
  | namespaceDecl =>
    exact faultless_bind_shrinks (faultless_expectKeyword _) (shrinks_expectKeyword _) fun _ =>
      faultless_bind (faultless_popName _) fun _ => faultless_bind (faultless_expectOperator _)
        fun _ => faultless_bind hbody fun _ => faultless_bind (faultless_expectOperator _) fun _ =>
          faultless_pure _
  | classDecl => exact faultless_map _ faultless_classDecl
  | structDecl => exact faultless_map _ faultless_structDecl
  | declaration =>
    refine faultless_bind (faultless_declaration _) fun declared => ?_
    split <;> exact faultless_pure _

theorem faultless_rawStatement : Faultless n rawStatement :=
  faultless_bind (faultless_gets _) fun _ => faultless_bind (faultless_take _) fun _ =>
    faultless_bind (faultless_bind (faultless_gets _) fun _ => faultless_pure _) fun _ =>
      faultless_ite (faultless_ite (faultless_unexpected _) (faultless_pure _))
        (faultless_ite (faultless_unexpected _) (faultless_pure _))

/-- Where the input does not end, a statement has tokens. -/
theorem ne_nil_of_reads_rawStatement {tokens : List Token}
    (hend : (tokenAt c s.rest 0).isEnd = false) (h : rawStatement.Reads c s tokens s') :
    tokens ≠ [] := by
  have hall := List.take_append_drop (statementSpan 0 s.rest).length s.rest
  simp only [rawStatement, reads_bind, reads_gets, reads_take, reads_atEnd] at h
  obtain ⟨_, _, ⟨rfl, rfl⟩, _, _, ⟨rfl, rfl⟩, _, _, ⟨rfl, rfl⟩, h⟩ := h
  rintro rfl
  split at h
  · next hstop =>
    split at h
    · exact absurd h not_reads_unexpected
    · -- nothing was taken, so the input ended before
      obtain ⟨htake, -⟩ := reads_pure.1 h
      rw [← htake, List.nil_append] at hall
      rw [hall, hend] at hstop
      cases hstop
  · split at h
    · exact absurd h not_reads_unexpected
    · next hsome =>
      obtain ⟨htake, -⟩ := reads_pure.1 h
      rw [← htake] at hsome
      exact hsome rfl

/-- A statement that is passed through leaves fewer tokens for the rounds behind. -/
theorem faultless_statementThen {others : Parser (List Item)} (hothers : Faultless n others)
    (hs : s.types.Consistent) (hend : (tokenAt c s.rest 0).isEnd = false)
    (hn : s.rest.length < n + 1) {failure : Failure}
    (h : (statementThen others c s).result = .error failure) :
    ∃ error, failure = .invalid error := by
  have hbehind (tokens : List Token) :
      Faultless n (others >>= fun behind => pure (Item.consRaw tokens behind)) :=
    faultless_bind hothers fun _ => faultless_pure _
  rcases hresult : (rawStatement c s).result with failure' | tokens
  · rw [statementThen, bind_of_error hresult] at h
    cases h
    exact faultless_rawStatement.invalid hs hn hresult
  · have htokens := ne_nil_of_reads_rawStatement hend ⟨hresult, rfl⟩
    have hrest := congrArg (List.length ·.rest) (eq_behind_of_reads_rawStatement ⟨hresult, rfl⟩)
    rw [statementThen, bind_of_ok hresult] at h
    refine (hbehind tokens).invalid ((moves_rawStatement c s hs).consistent hs) ?_ h
    simp only [State.behind, List.length_append] at hrest
    have := List.length_pos_iff.2 htokens
    omega

/-- With a round for each token and one more, the items of a scope take no fault. -/
theorem faultless_scopeItems (n : Nat) (nested : Bool) : Faultless n (scopeItems n nested) := by
  induction n generalizing nested with
  | zero => exact ⟨moves_fail _, fun _ hn => absurd hn (Nat.not_lt_zero _)⟩
  | succ n ih =>
    refine ⟨moves_scopeItems _ _, fun {c s failure} hs hn h => ?_⟩
    rw [scopeItems_succ] at h
    split at h
    · cases h
    next hends =>
    have hend : (tokenAt c s.rest 0).isEnd = false := by
      rw [scopeEnds, Bool.not_eq_true, Bool.or_eq_false_iff] at hends
      exact hends.1
    cases hproduction : productionAt c s with
    | none =>
      rw [hproduction] at h
      exact faultless_statementThen (ih nested) hs hend hn h
    | some production =>
      rw [hproduction, round] at h
      have hproduce := faultless_produce (ih true) production
      rcases hresult : (attempt (produce (scopeItems n true) production) c s).result with _ | item
      · rw [bind_of_error hresult] at h
        cases h
        exact (faultless_attempt hproduce).invalid hs hn hresult
      rw [bind_of_ok hresult] at h
      cases item with
      | none =>
        -- the production has left no trace, so the statement has all the tokens
        have hsame := eq_of_reads_attempt_none hproduce.moves hs ⟨hresult, rfl⟩
        rw [hsame] at h
        exact faultless_statementThen (ih nested) hs hend hn h
      | some item =>
        -- an item has tokens, so the round that it took is made up for
        have hread := (reads_attempt_some hproduce.moves hs).1 ⟨hresult, rfl⟩
        obtain ⟨⟨⟨tokens, hspelled, hrest⟩, -, -⟩, -⟩ :=
          itemRead_of_produce (fun hs h => (itemsRead_of_scopeItems hs h).1) hs hread
        have hlength := congrArg List.length hrest
        have := List.length_pos_iff.2 hspelled.ne_nil
        rw [List.length_append] at hlength
        have hothers : Faultless n (scopeItems n nested >>= fun others => pure (item :: others)) :=
          faultless_bind (ih nested) fun _ => faultless_pure _
        exact hothers.invalid ((moves_attempt hproduce.moves c s hs).consistent hs) (by omega) h

/-- A round for each token and one more are enough. -/
theorem result_scopeItems_ne_exhausted {nested : Bool} (hs : s.types.Consistent)
    (hn : s.rest.length < n) : (scopeItems n nested c s).result ≠ .error (.misuse .exhausted) := by
  intro hexhausted
  obtain ⟨e, he⟩ := (faultless_scopeItems n nested).invalid hs hn hexhausted
  cases he

/-- More rounds than there are tokens are as good as just enough. -/
theorem scopeItems_eq_scopeBody {nested : Bool} (hs : s.types.Consistent)
    (hn : s.rest.length < n) : scopeItems n nested c s = scopeBody nested c s :=
  approximates_of_le (fun n => approximates_scopeItems n nested) hn c s
    (result_scopeItems_ne_exhausted hs (Nat.lt_succ_self _))

/-- A program is parsed, or an error of the source is found. -/
theorem invalid_of_parse {builtins lines : List String} {tokens : List Token} {stop : Location}
    {failure : Failure} (h : (parse builtins lines tokens stop).result = .error failure) :
    ∃ error, failure = .invalid error := by
  have hend (n : Nat) (expected : String) : Faultless n (popKind .endOfInput expected) :=
    faultless_bind (faultless_gets _) fun _ => faultless_ite faultless_pop (faultless_unexpected _)
  have hscope : Faultless (tokens.length + 1) scope :=
    faultless_bind (faultless_gets _) fun _ =>
      faultless_bind (faultless_budgeted fun n => faultless_scopeItems n false) fun _ =>
        faultless_bind (hend _ _) fun _ => faultless_pure _
  exact hscope.invalid (TypeNames.consistent_ofBuiltins builtins) (Nat.lt_succ_self _) h

end Flattener.Parser
