import Flattener.Proofs.Grammar.Stability
import Flattener.Proofs.Grammar.Trials

/-!
# Rejection is stable

An error that is not at the end of input stays the error whatever tokens follow,
and so a beginning of a program is a program itself or an error at the end of
input (`rejection_is_stable`). What carries this through a scope is that a
production on trial is stable (`stable_attempt`), so that the choice between it
and a statement is made alike, and that two tokens are enough to choose the
production (`productionAt_followed`).

There is an exception, a last `void` that is no built-in type, directly behind the
parenthesis that opens a list of parameters (`rejection_unstable_loneVoid`).
-/

namespace Flattener

namespace Parser

variable {α : Type} {c c' : Context} {s : State} {more : List Token}

/-! ## Scopes -/

/-- Where an error is shown has no part in whether it can be mended. -/
theorem isRecoverable_shownIn (lines : List String) (e : SyntaxError) :
    isRecoverable (.invalid (e.shownIn lines)) = isRecoverable (.invalid e) := by
  obtain ⟨cause, location, atEnd, line⟩ := e
  cases cause <;> rfl

theorem not_isRecoverable_of_voidAtEnd {builtins : List String} {tokens : List Token}
    {e : SyntaxError} (h : VoidAtEnd builtins tokens e) : isRecoverable (.invalid e) = false := by
  obtain ⟨cause, location, atEnd, line⟩ := e
  cases h.cause
  rfl

theorem stable_attempt {p : Parser α} (hp : Stable never p) : Stable never (attempt p) := by
  refine ⟨moves_attempt hp.moves, fun c c' more s hs => ?_⟩
  have hs' : (s.followed more).types.Consistent := hs.consistent
  cases hp.extended c c' more hs with
  | read h h' hstate =>
    rw [attempt_of_ok h, attempt_of_ok h']
    exact .read rfl rfl hstate
  | @refused e h hinside h' =>
    -- both runs give the production up, or both pass its error on
    cases hmend : isRecoverable (.invalid e) with
    | true =>
      have hmend' := (isRecoverable_shownIn c'.lines e).trans hmend
      obtain ⟨events, hnone⟩ := attempt_of_recoverable hp.moves hs.consistent h hmend
      obtain ⟨events', hnone'⟩ := attempt_of_recoverable hp.moves hs' h' hmend'
      rw [hnone, hnone']
      exact .read rfl rfl rfl
    | false =>
      have hmend' := (isRecoverable_shownIn c'.lines e).trans hmend
      rw [attempt_of_fatal h hmend, attempt_of_fatal h' hmend']
      exact .refused rfl hinside rfl
  | @spoiled e h hvoid =>
    rw [attempt_of_fatal h (not_isRecoverable_of_voidAtEnd hvoid)]
    exact .spoiled rfl hvoid
  | halted hhalted =>
    cases hhalted with
    | ended h =>
      rw [attempt_of_fatal h rfl]
      exact .halted (.ended rfl)
    | loose _ ha _ => exact ha.elim
    | spent h =>
      rw [attempt_of_fatal h rfl]
      exact .halted (.spent rfl)

theorem stable_produce {body : Parser (List Item)} (hbody : Stable always body)
    (production : Production) : Stable never (produce body production) := by
  cases production with
  | namespaceDecl =>
    exact stable_then (stable_expectKeyword _) fun _ => stable_then (stable_popName _) fun _ =>
      stable_then (stable_expectOperator _) fun _ => stable_bind hbody
        (fun _ => stable_then (stable_expectOperator _) fun _ => stable_pure _)
        fun _ _ => halts_then (halts_expectOperator _)
  | classDecl => exact stable_map stable_classDecl fun _ => False.elim
  | structDecl => exact stable_map stable_structDecl fun _ => False.elim
  | declaration =>
    refine stable_then (stable_declaration _) fun {_ _ declared _} _ => ?_
    cases declared <;> exact stable_pure _

theorem halts_scopeItems (n : Nat) (nested : Bool) : Halts always (scopeItems n nested) := by
  intro c s hrest
  cases n with
  | zero => exact .spent rfl
  | succ n =>
    have hends : scopeEnds c nested s = true := by
      rw [scopeEnds, hrest]
      rfl
    rw [scopeItems_succ, if_pos hends]
    exact .loose rfl trivial hrest

theorem stable_statementThen {others : Parser (List Item)} (hothers : Stable always others)
    (hhalts : Halts always others) : Stable always (statementThen others) :=
  stable_bind stable_rawStatement
    (fun _ => stable_bind hothers (fun _ => stable_pure _) fun _ _ => halts_pure trivial)
    fun _ _ => halts_bind hhalts fun _ _ => halts_pure trivial

theorem stable_round {n : Nat} (h : ∀ nested, Stable always (scopeItems n nested)) (nested : Bool)
    (production : Option Production) : Stable always (round n nested production) := by
  have hstatement := stable_statementThen (h nested) (halts_scopeItems n nested)
  cases production with
  | none => exact hstatement
  | some production =>
    refine stable_then (stable_attempt (stable_produce (h true) production))
      fun {_ _ item _} _ => ?_
    cases item with
    | none => exact hstatement
    | some item => exact stable_bind (h nested) (fun _ => stable_pure _) fun _ _ => halts_pure trivial

theorem declarationAt_of_none (h : (tokenAt c s.rest 0).name? = none) :
    declarationAt c s = false := by
  rw [declarationAt, h]

theorem declarationAt_of_some {name : Name} (h : (tokenAt c s.rest 0).name? = some name) :
    declarationAt c s = (s.types.isType name.text || (tokenAt c s.rest 1).name?.isSome) := by
  rw [declarationAt, h]

/-- The production that tokens call for is seen from two of them. With one token
    left, only a name that is no type may call for another one. -/
theorem productionAt_followed (c c' : Context) (more : List Token) (t : Token) (rest : List Token)
    (types : TypeNames) :
    productionAt c' (State.followed ⟨t :: rest, types⟩ more) = productionAt c ⟨t :: rest, types⟩ ∨
      rest = [] ∧ productionAt c ⟨t :: rest, types⟩ = none ∧ ∃ name : Name, t = name.token := by
  cases rest with
  | cons next rest => exact .inl rfl
  | nil =>
    have hsame (h : declarationAt c' (State.followed ⟨[t], types⟩ more) =
        declarationAt c ⟨[t], types⟩) :
        productionAt c' (State.followed ⟨[t], types⟩ more) = productionAt c ⟨[t], types⟩ := by
      unfold productionAt
      rw [h]
      rfl
    have hhead : tokenAt c' (State.followed ⟨[t], types⟩ more).rest 0 = t := rfl
    have hhead' : tokenAt c (State.mk [t] types).rest 0 = t := rfl
    cases hname : t.name? with
    | none =>
      refine .inl (hsame ?_)
      rw [declarationAt_of_none (hhead ▸ hname), declarationAt_of_none (hhead' ▸ hname)]
    | some name =>
      have hlast := declarationAt_of_some (c := c) (s := ⟨[t], types⟩) hname
      cases htype : types.isType name.text with
      | true =>
        refine .inl (hsame ?_)
        rw [declarationAt_of_some (hhead ▸ hname), hlast, htype]
        exact congrArg (· || _) htype
      | false =>
        obtain ⟨rfl, hkey⟩ := Token.name?_eq_some.1 hname
        have hkeyword (names : List String) :
            (tokenAt c [name.token] 0).isKeyword names = false := Token.isKeyword_name hkey names
        rw [htype] at hlast
        refine .inr ⟨rfl, ?_, name, rfl⟩
        rw [productionAt]
        simp only [hkeyword, hlast]
        rfl

/-- A name on its own is passed through, and may belong to what follows. -/
theorem halted_statementThen_name {n : Nat} {nested : Bool} {name : Name} {types : TypeNames} :
    Halted always c (statementThen (scopeItems n nested) c ⟨[name.token], types⟩) := by
  have hraw : rawStatement c ⟨[name.token], types⟩ = ⟨.ok [name.token], ⟨[], types⟩, []⟩ := rfl
  have hbehind : Halts always (do
      let behind ← scopeItems n nested
      return Item.consRaw [name.token] behind) :=
    halts_bind (halts_scopeItems n nested) fun _ _ => halts_pure trivial
  rw [statementThen, bind_of_ok (by rw [hraw]), hraw]
  exact (hbehind rfl).congr rfl rfl

theorem stable_scopeItems (n : Nat) (nested : Bool) : Stable always (scopeItems n nested) := by
  induction n generalizing nested with
  | zero => exact ⟨moves_fail _, fun _ _ _ _ _ => .halted (.spent rfl)⟩
  | succ n ih =>
    refine ⟨moves_scopeItems _ _, fun c c' more s hs => ?_⟩
    obtain ⟨rest, types⟩ := s
    cases rest with
    | nil => exact .halted (halts_scopeItems _ _ rfl)
    | cons t rest =>
      have hends : scopeEnds c' nested (State.followed ⟨t :: rest, types⟩ more) =
        scopeEnds c nested ⟨t :: rest, types⟩ := rfl
      rw [scopeItems_succ, scopeItems_succ, hends]
      cases scopeEnds c nested ⟨t :: rest, types⟩ with
      | true => exact .read rfl rfl rfl
      | false =>
        -- the same production is tried, or there is a single name, which
        -- takes part in a statement alone
        rcases productionAt_followed c c' more t rest types with
          hsame | ⟨rfl, hnone, name, rfl⟩
        · rw [hsame]
          exact (stable_round ih nested _).extended c c' more hs
        · rw [hnone]
          exact .halted halted_statementThen_name

theorem stable_scopeBody (nested : Bool) : Stable always (scopeBody nested) :=
  stable_budgeted (fun n => stable_scopeItems n nested) fun n => approximates_scopeItems n nested

/-- Behind the items of a whole program there is nothing but the end of input. -/
theorem result_scope (hs : s.types.Consistent) : (scope c s).result =
    (scopeBody false c s).result.map fun children => ⟨(tokenAt c s.rest 0).location, children⟩ := by
  rw [scope, bind_of_look peek_apply]
  rcases h : (scopeBody false c s).result with failure | children
  · rw [bind_of_error h]
    rfl
  · have hread : (scopeBody false).Reads c s children (scopeBody false c s).state := ⟨h, rfl⟩
    obtain ⟨-, hends⟩ := itemsRead_of_scopeItems hs (reads_budgeted.1 hread)
    -- outside of braces, only the end of input ends a scope
    have hend : (tokenAt c (scopeBody false c s).state.rest 0).isEnd = true := by
      simpa [scopeEnds] using hends
    have hpop : (popKind .endOfInput "end of input").Reads c (scopeBody false c s).state _ _ :=
      reads_popKind_endOfInput.2 ⟨hend, rfl, rfl⟩
    rw [bind_of_ok h, bind_of_ok hpop.1]
    rfl

end Parser

/-! ## Whole programs -/

section

variable {builtins lines : List String} {tokens : List Token} {stop : Location}

/-- A program is parsed as the items of a scope are. -/
theorem parse_eq_error_iff {failure : Failure} :
    (parse builtins lines tokens stop).result = .error failure ↔
      (Parser.scopeBody false ⟨stop, lines⟩ ⟨tokens, .ofBuiltins builtins⟩).result =
        .error failure := by
  rw [parse, Parser.result_scope (TypeNames.consistent_ofBuiltins builtins)]
  cases (Parser.scopeBody false ⟨stop, lines⟩ ⟨tokens, .ofBuiltins builtins⟩).result with
  | error other => exact ⟨fun h => by cases h; rfl, fun h => by cases h; rfl⟩
  | ok children => exact ⟨nofun, nofun⟩

/-- An error of a parse is one that stays, that of a last `void`, or one at the end
    of input. -/
theorem cases_of_parse_error {e : SyntaxError} (hend : ∀ t ∈ tokens, t.isEnd = false)
    (h : (parse builtins lines tokens stop).result = .error (.invalid e)) :
    (e.atEnd = false ∧ ∀ lines' more stop',
        (parse builtins lines' (tokens ++ more) stop').result =
          .error (.invalid (e.shownIn lines'))) ∨
      VoidAtEnd builtins tokens e ∨ ∃ expected, e = Parser.endError ⟨stop, lines⟩ expected := by
  have hproper : Parser.Proper ⟨tokens, .ofBuiltins builtins⟩ :=
    ⟨hend, TypeNames.consistent_ofBuiltins builtins⟩
  have hbody := parse_eq_error_iff.1 h
  by_cases hvoid : VoidAtEnd builtins tokens e
  · exact .inr (.inl hvoid)
  by_cases hstop : ∃ expected, e = Parser.endError ⟨stop, lines⟩ expected
  · exact .inr (.inr hstop)
  have hstays (lines' : List String) (more : List Token) (stop' : Location) : e.atEnd = false ∧
      (parse builtins lines' (tokens ++ more) stop').result =
        .error (.invalid (e.shownIn lines')) := by
    cases (Parser.stable_scopeBody false).extended ⟨stop, lines⟩ ⟨stop', lines'⟩ more hproper with
    | read hread => cases hbody.symm.trans hread
    | refused herror hinside hsame =>
      cases hbody.symm.trans herror
      exact ⟨hinside, parse_eq_error_iff.2 hsame⟩
    | spoiled herror hspoiled =>
      cases hbody.symm.trans herror
      exact absurd hspoiled hvoid
    | halted hhalted =>
      cases hhalted with
      | ended herror =>
        cases hbody.symm.trans herror
        exact absurd ⟨_, rfl⟩ hstop
      | loose hread => cases hbody.symm.trans hread
      | spent herror => cases hbody.symm.trans herror
  exact .inl ⟨(hstays [] [] default).1, fun lines' more stop' => (hstays lines' more stop').2⟩

/-- What tokens are refused for is what longer ones are refused for, unless it is
    that they end, or that their last one is a `void` which is no type, directly
    behind the parenthesis that opens a list of parameters. So the beginning of a
    program is one itself, or is refused for one of these two; and what is refused
    for its end lacks a token there. -/
theorem rejection_is_stable (hend : ∀ t ∈ tokens, t.isEnd = false) :
    (∀ e, (parse builtins lines tokens stop).result = .error (.invalid e) → e.atEnd = false →
      ¬VoidAtEnd builtins tokens e → ∀ lines' more stop',
        (parse builtins lines' (tokens ++ more) stop').result =
          .error (.invalid (e.shownIn lines'))) ∧
    (∀ lines' more stop' tree, (parse builtins lines' (tokens ++ more) stop').result = .ok tree →
      (∃ tree', (parse builtins lines tokens stop).result = .ok tree') ∨
        ∃ e, (parse builtins lines tokens stop).result = .error (.invalid e) ∧
          (e.atEnd = true ∨ VoidAtEnd builtins tokens e)) ∧
    ∀ e, (parse builtins lines tokens stop).result = .error (.invalid e) → e.atEnd = true →
      ∃ expected, e.cause = .unexpectedToken "end of input" (some expected) ∧
        e.location = some stop := by
  refine ⟨fun e herror hinside hvoid => ?_, fun lines' more stop' tree htree => ?_,
    fun e herror hatEnd => ?_⟩
  · rcases cases_of_parse_error hend herror with ⟨-, hsame⟩ | hspoiled | ⟨expected, rfl⟩
    · exact hsame
    · exact absurd hspoiled hvoid
    · cases hinside
  · rcases hresult : (parse builtins lines tokens stop).result with failure | tree'
    · obtain ⟨e, rfl⟩ := Parser.invalid_of_parse hresult
      refine .inr ⟨e, rfl, ?_⟩
      rcases cases_of_parse_error hend hresult with ⟨-, hsame⟩ | hspoiled | ⟨expected, rfl⟩
      · cases htree.symm.trans (hsame lines' more stop')
      · exact .inr hspoiled
      · exact .inl rfl
    · exact .inl ⟨tree', rfl⟩
  · rcases cases_of_parse_error hend herror with ⟨hinside, -⟩ | hspoiled | ⟨expected, rfl⟩
    · cases hinside.symm.trans hatEnd
    · cases hspoiled.inside.symm.trans hatEnd
    · exact ⟨expected, rfl, rfl⟩

/-- Two names in a row, of which the first is no type. -/
def unknownPair : List Token :=
  [Lexeme.identifier "foo", .identifier "bar"].map (Token.mk · default)

/-- Such a beginning is refused at once and for good. -/
theorem rejection_is_stable_unknownPair :
    ∃ e, (parse ["int"] [] unknownPair default).result = .error (.invalid e) ∧
      ∀ lines' more stop', (parse ["int"] lines' (unknownPair ++ more) stop').result =
        .error (.invalid (e.shownIn lines')) :=
  ⟨_, rfl, (rejection_is_stable (by decide)).1 _ rfl rfl fun h => nomatch h.cause⟩

/-- The beginning of a function without parameters, for a reader who does not know
    `void`:

        int f ( void -/
def loneVoidPrefix : List Token :=
  [Lexeme.identifier "int", .identifier "f", .operator "(", .identifier "void"].map
    (Token.mk · default)

/-- It is refused in front of the end of input, and is the beginning of a program. -/
theorem rejection_unstable_loneVoid :
    ∃ e tree, (parse ["int"] [] loneVoidPrefix default).result = .error (.invalid e) ∧
      e.atEnd = false ∧ (parse ["int"] [] (loneVoidPrefix ++
        [⟨.operator ")", default⟩, ⟨.operator ";", default⟩]) default).result = .ok tree :=
  ⟨_, _, rfl, rfl, rfl⟩

end

end Flattener
