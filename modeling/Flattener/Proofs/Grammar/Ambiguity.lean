import Flattener.Proofs.Grammar.Completeness
import Flattener.Proofs.Grammar.Halting
import Flattener.Proofs.Grammar.Rejection

/-!
# Declarations that look like products

A name, stars, another name and a `;` declare a pointer if the first name is a type,
and are a product if it is none. Which of the two they are at the head of a scope
depends on the names that are types there and on nothing behind the `;`
(`scopeBody_of_starred`): a variable is declared, a type stands where a new name should
be, the tokens are passed through as one statement, or, where there are no stars between
the names, the first name is missed as a type. Two names in a row are no expression, so
that they are an error and not a statement.

The two errors are passed on by all trials around them, and so they are the errors of
every parse that comes to them (`Visit.Reachable.error_of_scopeBody`).
-/

namespace Flattener

/-- The tokens are a name, so many stars, a second name and a `;`. -/
inductive Starred (first second : Name) : Nat → List Token → Prop
  | intro {stars : List Token} {stop : Token} : first.text ∉ keywords →
    (∀ t ∈ stars, t.isOperator ["*"] = true) → second.text ∉ keywords →
    stop.isOperator [";"] = true →
    Starred first second stars.length (first.token :: (stars ++ [second.token, stop]))

namespace Starred

variable {first second : Name} {n : Nat} {tokens : List Token}

theorem length_eq (h : Starred first second n tokens) : tokens.length = n + 3 := by
  cases h
  simp

theorem beginsWith (h : Starred first second n tokens) : BeginsWith first tokens := by
  obtain ⟨hfirst, -, -, -⟩ := h
  exact ⟨hfirst, _, rfl⟩

/-- As a declaration, they declare the second name with a type of the first one. -/
theorem declared (h : Starred first second n tokens) :
    (⟨second, ⟨first, n, none⟩, none⟩ : Variable).Declared tokens := by
  obtain @⟨stars, stop, hfirst, hstars, hsecond, hstop⟩ := h
  have hdeclared := Variable.Declared.intro
    (.intro (v := ⟨second, ⟨first, stars.length, none⟩, none⟩) (.intro none hfirst hstars) hsecond
      .absent .absent) hstop
  simpa using hdeclared

/-- Names and stars leave a statement open, and no bracket. -/
theorem openDepth_front (first second : Name) {stars : List Token}
    (hstars : ∀ t ∈ stars, t.isOperator ["*"] = true) :
    openDepth 0 (first.token :: (stars ++ [second.token])) = some 0 := by
  refine openDepth_of_forall fun t ht => ?_
  simp only [List.mem_cons, List.mem_append, List.not_mem_nil, or_false] at ht
  obtain rfl | ht | rfl := ht
  · exact openDepth_of_identifier rfl 0
  · exact openDepth_of_plain_operator (hstars t ht) (by decide) 0
  · exact openDepth_of_identifier rfl 0

/-- As a statement, they end with their `;`, whatever follows. -/
theorem statementSpan_append (h : Starred first second n tokens) (rest : List Token) :
    statementSpan 0 (tokens ++ rest) = tokens := by
  obtain @⟨stars, stop, -, hstars, -, hstop⟩ := h
  have hend : statementSpan 0 (stop :: rest) = [stop] := by
    simp [statementSpan, Token.isEnd_of_isOperator hstop, nesting,
      Token.isOperator_of_singleton hstop, closers, openers, openBrace, closeBrace]
  have hspan := statementSpan_append_of_open (openDepth_front first second hstars) (stop :: rest)
  rw [hend] at hspan
  simpa using hspan

theorem finalDepth_eq_zero (h : Starred first second n tokens) : finalDepth tokens = 0 := by
  obtain @⟨stars, stop, -, hstars, -, hstop⟩ := h
  have hfront := foldl_nesting_of_open (openDepth_front first second hstars)
  have hsplit : first.token :: (stars ++ [second.token, stop]) =
      (first.token :: (stars ++ [second.token])) ++ [stop] := by simp
  rw [hsplit, finalDepth, List.foldl_append, hfront]
  simp [nesting, Token.isOperator_of_singleton hstop, closers, openers, openBrace, closeBrace]

end Starred

namespace Parser

variable {c : Context} {s s' : State} {nested : Bool} {body : Parser (List Item)}

/-! ## Errors that are passed on -/

theorem error_bind {α β : Type} {p : Parser α} {f : α → Parser β} {failure : Failure}
    (h : (p c s).result = .error failure) : ((p >>= f) c s).result = .error failure := by
  rw [bind_of_error h]

theorem error_bind_of_reads {α β : Type} {p : Parser α} {f : α → Parser β} {a : α}
    {failure : Failure} (hp : p.Reads c s a s') (h : (f a c s').result = .error failure) :
    ((p >>= f) c s).result = .error failure := by
  rw [bind_of_ok hp.1, hp.2]
  exact h

theorem error_of_goes {n : Nat} {failure : Failure} (hgoes : scopeEnds c nested s = false)
    (h : (round n nested (productionAt c s) c s).result = .error failure) :
    (scopeItems (n + 1) nested c s).result = .error failure := by
  rw [scopeItems_succ, if_neg (by rw [hgoes]; exact Bool.false_ne_true)]
  exact h

/-! ## One round -/

theorem reads_scopeRound (hgoes : scopeEnds c nested s = false) {turn : Turn Unit (List Item)} :
    (scopeRound body nested ()).Reads c s turn s' ↔
      (itemTurn body (productionAt c s)).Reads c s turn s' := by
  rw [Reads, Reads, scopeRound_apply, if_neg (by rw [hgoes]; exact Bool.false_ne_true)]

/-- A round that goes on is followed by the rest of the scope. -/
theorem scopeBody_of_round (hs : s.types.Consistent) {complete : List Item → List Item}
    (h : (scopeRound (scopeBody true) nested ()).Reads c s (.goes () complete) s') :
    (scopeBody nested c s).result = (scopeBody nested c s').result.map complete ∧
      (scopeBody nested c s).state = (scopeBody nested c s').state := by
  rw [scopeBody_unfold hs, bind_of_ok h.1, h.2, turn, map_eq_pure_bind]
  rcases hothers : (scopeBody nested c s').result with failure | others
  · rw [bind_of_error hothers]
    exact ⟨rfl, rfl⟩
  · rw [bind_of_ok hothers]
    exact ⟨rfl, rfl⟩

/-- A round that fails is the end of the scope. -/
theorem error_of_round (hs : s.types.Consistent) {failure : Failure}
    (h : (scopeRound (scopeBody true) nested () c s).result = .error failure) :
    (scopeBody nested c s).result = .error failure := by
  rw [scopeBody_unfold hs, bind_of_error h]

/-- A declaration that fails for good is the end of the scope. -/
theorem error_of_declaration (hs : s.types.Consistent) (hgoes : scopeEnds c nested s = false)
    (hproduction : productionAt c s = some .declaration) {failure : Failure}
    (h : (declaration false c s).result = .error failure) (hfatal : isRecoverable failure = false) :
    (scopeBody nested c s).result = .error failure := by
  have hproduce : (produce (scopeBody true) .declaration c s).result = .error failure := by
    show (scopeDeclaration c s).result = _
    rw [scopeDeclaration, bind_of_error h]
  refine error_of_round hs ?_
  rw [scopeRound_apply, if_neg (by rw [hgoes]; exact Bool.false_ne_true), hproduction, itemTurn,
    bind_of_error (by rw [attempt_of_fatal hproduce hfatal])]

namespace Visit

variable {v v' : Visit} {failure : Failure}

/-- What is left of the scope at a round. -/
def others (v : Visit) : Parser (List Item) :=
  scopeItems (v.left + 1) v.nested

/-- An error that is passed on at the next round is passed on at a round: behind what was
    read there, and out of a namespace, which is on trial around it. -/
theorem Step.error (h : v.Step c v') (hfatal : isRecoverable failure = false)
    (herror : (v'.others c v'.state).result = .error failure) :
    (v.others c v.state).result = .error failure := by
  cases h with
  | @item n nested s s' production item hgoes hproduction hitem =>
    refine error_of_goes (n := n + 1) hgoes ?_
    rw [hproduction]
    exact error_bind_of_reads hitem (error_bind herror)
  | @abandoned n nested s s₁ s' production tokens hgoes hproduction hnone htokens =>
    refine error_of_goes (n := n + 1) hgoes ?_
    rw [hproduction]
    exact error_bind_of_reads hnone (error_bind_of_reads htokens (error_bind herror))
  | @statement n nested s s' tokens hgoes hproduction htokens =>
    refine error_of_goes (n := n + 1) hgoes ?_
    rw [hproduction]
    exact error_bind_of_reads htokens (error_bind herror)
  | @inside n nested s s' name hgoes hproduction hhead =>
    have hnamespace : (produce (scopeItems (n + 1) true) .namespaceDecl c s).result =
        .error failure := by
      show (namespaceDecl (scopeItems (n + 1) true) c s).result = _
      rw [namespaceDecl_eq]
      exact error_bind_of_reads hhead (error_bind herror)
    refine error_of_goes (n := n + 1) hgoes ?_
    rw [hproduction]
    exact error_bind (by rw [attempt_of_fatal hnamespace hfatal])

/-- An error that no trial mends is that of every parse that comes to it. -/
theorem Reachable.error_of_scopeBody {builtins : List String} {tokens : List Token}
    (h : v.Reachable c builtins tokens)
    (herror : (scopeBody v.nested c v.state).result = .error failure)
    (hfatal : isRecoverable failure = false) :
    (parse builtins c.lines tokens c.stop).result = .error failure := by
  have hscope : (v.others c v.state).result = .error failure := by
    rw [others, scopeItems_eq_scopeBody h.sound.consistent (Nat.lt_succ_of_le h.sound.enough)]
    exact herror
  clear herror
  induction h with
  | start => exact error_bind_of_reads (reads_peek.2 ⟨rfl, rfl⟩) (error_bind hscope)
  | step _ hstep ih => exact ih (hstep.error hfatal hscope)

end Visit

/-! ## Names, stars and a name -/

/-- The scope goes on behind some tokens, with what a round does there. -/
def Continues (c : Context) (nested : Bool) (s s' : State)
    (complete : List Item → List Item) : Prop :=
  (scopeRound (scopeBody true) nested ()).Reads c s (.goes () complete) s' ∧
    (scopeBody nested c s).result = (scopeBody nested c s').result.map complete ∧
    (scopeBody nested c s).state = (scopeBody nested c s').state

/-- The scope fails, and so does every parse that comes to it. -/
def Fails (c : Context) (nested : Bool) (s : State) (error : SyntaxError) : Prop :=
  (scopeBody nested c s).result = .error (.invalid error) ∧
    ∀ builtins tokens n, Visit.Reachable c builtins tokens ⟨n, nested, s⟩ →
      (parse builtins c.lines tokens c.stop).result = .error (.invalid error)

theorem continues_of_round (hs : s.types.Consistent) {complete : List Item → List Item}
    (h : (scopeRound (scopeBody true) nested ()).Reads c s (.goes () complete) s') :
    Continues c nested s s' complete :=
  ⟨h, scopeBody_of_round hs h⟩

theorem fails_of_declaration (hs : s.types.Consistent) (hgoes : scopeEnds c nested s = false)
    (hproduction : productionAt c s = some .declaration) {error : SyntaxError}
    (h : (declaration false c s).result = .error (.invalid error))
    (hfatal : isRecoverable (.invalid error) = false) : Fails c nested s error := by
  have hscope := error_of_declaration hs hgoes hproduction h hfatal
  exact ⟨hscope, fun _ _ _ hreachable => hreachable.error_of_scopeBody hscope hfatal⟩

variable {first second : Name} {stars : Nat} {tokens : List Token}

theorem error_of_typeRef (hkey : first.text ∉ keywords)
    (hunknown : s.types.isType first.text = false) :
    (typeRef c (s.behind [first.token])).result =
      .error (.invalid (errorAt c first.token (.unknownType first.text))) := by
  refine error_bind_of_reads (reads_popName.2 ⟨hkey, rfl⟩)
    (error_bind_of_reads (reads_isType.2 ⟨rfl, rfl⟩) ?_)
  rw [hunknown]
  rfl

theorem error_of_declaredName (hkey : second.text ∉ keywords)
    (hknown : s.types.isType second.text = true) :
    (declaredName c (s.behind [second.token])).result =
      .error (.invalid (errorAt c second.token (.typeAsName second.text))) := by
  refine error_bind_of_reads (reads_popName.2 ⟨hkey, rfl⟩)
    (error_bind_of_reads (reads_isType.2 ⟨rfl, rfl⟩) ?_)
  rw [hknown]
  rfl

/-- No scope ends in front of a name. -/
theorem scopeEnds_of_starred (h : Starred first second stars tokens) :
    scopeEnds c nested (s.behind tokens) = false := by
  obtain ⟨-, -, -, -⟩ := h
  have hlexeme : first.token.lexeme = .identifier first.text := rfl
  exact scopeEnds_of_identifier hlexeme

theorem productionAt_of_starred (h : Starred first second stars tokens)
    (htype : s.types.isType first.text = true) :
    productionAt c (s.behind tokens) = some .declaration := by
  obtain ⟨hfirst, -, -, -⟩ := h
  exact productionAt_of_type hfirst htype rfl

/-- An unknown name calls for a declaration if there are no stars behind it. -/
theorem productionAt_of_starred_unknown (h : Starred first second stars tokens)
    (hunknown : s.types.isType first.text = false) : productionAt c (s.behind tokens) =
      if stars = 0 then some .declaration else none := by
  obtain @⟨between, stop, hfirst, hstars, hsecond, hstop⟩ := h
  have hname : first.token.name? = some first := Token.name?_eq_some.2 ⟨rfl, hfirst⟩
  have hdeclaration : declarationAt c
      (s.behind (first.token :: (between ++ [second.token, stop]))) =
        decide (between.length = 0) := by
    have hbehind := declarationAt_of_some (c := c)
      (s := s.behind (first.token :: (between ++ [second.token, stop]))) hname
    rw [hbehind, State.types_behind, hunknown, Bool.false_or]
    cases between with
    | nil =>
      show second.token.name?.isSome = true
      rw [Token.name?_eq_some.2 ⟨rfl, hsecond⟩]
      rfl
    | cons star between =>
      have hstar := Token.isOperator_singleton.1 (hstars star List.mem_cons_self)
      show star.name?.isSome = false
      rw [Token.name?, hstar]
      rfl
  rw [productionAt, tokenAt_behind_cons, Token.isKeyword_name hfirst, Token.isKeyword_name hfirst,
    Token.isKeyword_name hfirst, hdeclaration]
  simp

theorem continues_of_known (h : Starred first second stars tokens) (hs : s.types.Consistent)
    (hfirst : first.text ∈ s.types.visible) (hsecond : second.text ∉ s.types.visible) :
    Continues c nested (s.behind tokens) s
      (.variableDecl ⟨second, ⟨first, stars, none⟩, none⟩ :: ·) := by
  have hproduction := productionAt_of_starred (c := c) h ((TypeNames.isType_iff hs _).2 hfirst)
  have hread : (declaration false).Reads c (s.behind tokens)
      (.variableDecl ⟨second, ⟨first, stars, none⟩, none⟩) s :=
    (reads_declaration (s := s.behind tokens) hs).2
      ⟨tokens, .variableDecl h.declared, ⟨hfirst, hsecond⟩, rfl⟩
  have hproduce : (produce (scopeBody true) .declaration).Reads c (s.behind tokens)
      (.variableDecl ⟨second, ⟨first, stars, none⟩, none⟩) s :=
    reads_bind.2 ⟨_, s, hread, reads_pure.2 ⟨rfl, rfl⟩⟩
  refine continues_of_round (s := s.behind tokens) hs
    ((reads_scopeRound (scopeEnds_of_starred h)).2 ?_)
  rw [hproduction]
  have htrial :=
    (reads_attempt_some (s := s.behind tokens) (moves_trial .declaration) hs).2 hproduce
  exact reads_bind.2 ⟨_, s, htrial, reads_pure.2 ⟨rfl, rfl⟩⟩

theorem fails_of_known (h : Starred first second stars tokens) (hs : s.types.Consistent)
    (hfirst : first.text ∈ s.types.visible) (hsecond : second.text ∈ s.types.visible) :
    Fails c nested (s.behind tokens) (errorAt c second.token (.typeAsName second.text)) := by
  have htype := (TypeNames.isType_iff hs _).2 hfirst
  refine fails_of_declaration (s := s.behind tokens) hs (scopeEnds_of_starred h)
    (productionAt_of_starred h htype) ?_ rfl
  obtain @⟨between, stop, hfirst, hstars, hkey, hstop⟩ := h
  -- the type is read up to the second name, which is met there
  have hread : typeRef.Reads c (s.behind (first.token :: (between ++ [second.token, stop])))
      ⟨first, between.length, none⟩ ((s.behind [stop]).behind [second.token]) := by
    refine reads_typeRef.2 ⟨first.token :: between, .intro none hfirst hstars, rfl, htype, ?_,
      Token.isOperator_of_identifier rfl _⟩
    simp only [← State.behind_append, List.cons_append, List.nil_append]
  exact error_bind_of_reads hread
    (error_bind (error_of_declaredName hkey ((TypeNames.isType_iff hs _).2 hsecond)))

/-- With stars between the names, the tokens are passed through. -/
theorem continues_of_unknown (h : Starred first second stars tokens) (hs : s.types.Consistent)
    (hfirst : first.text ∉ s.types.visible) (hstars : 0 < stars) :
    rawStatement.Reads c (s.behind tokens) tokens s ∧
      Continues c nested (s.behind tokens) s (Item.consRaw tokens) := by
  have hread : rawStatement.Reads c (s.behind tokens) tokens s := by
    refine reads_rawStatement_of_span (h.statementSpan_append s.rest) ?_ fun _ =>
      h.finalDepth_eq_zero
    exact List.ne_nil_of_length_pos (by rw [h.length_eq]; omega)
  have hproduction := productionAt_of_starred_unknown (c := c) h
    ((TypeNames.isType_eq_false_iff hs _).2 hfirst)
  rw [if_neg hstars.ne'] at hproduction
  refine ⟨hread, continues_of_round (s := s.behind tokens) hs
    ((reads_scopeRound (scopeEnds_of_starred h)).2 ?_)⟩
  rw [hproduction]
  exact reads_bind.2 ⟨_, s, hread, reads_pure.2 ⟨rfl, rfl⟩⟩

/-- Without stars between the names, the first one should have been a type. -/
theorem fails_of_unknown (h : Starred first second 0 tokens) (hs : s.types.Consistent)
    (hfirst : first.text ∉ s.types.visible) :
    Fails c nested (s.behind tokens) (errorAt c first.token (.unknownType first.text)) := by
  have hunknown := (TypeNames.isType_eq_false_iff hs _).2 hfirst
  refine fails_of_declaration (s := s.behind tokens) hs (scopeEnds_of_starred h)
    (productionAt_of_starred_unknown h hunknown) ?_ rfl
  obtain ⟨hkey, rest, rfl⟩ := h.beginsWith
  rw [State.behind_cons]
  exact error_bind (error_of_typeRef hkey hunknown)

/-- What a name, stars, a second name and a `;` are at the head of a scope, in any
    environment and whatever follows. They declare a variable if the first name is a type
    and the second is none, and are one statement if the first name is none and there are
    stars; the scope then goes on behind the `;`, with the same types. If both names are
    types, the second one is an error, and if the first name is no type and there are no
    stars, that is one. -/
theorem scopeBody_of_starred (h : Starred first second stars tokens) (c : Context)
    (nested : Bool) {s : State} (hs : s.types.Consistent) :
    (first.text ∈ s.types.visible → second.text ∉ s.types.visible →
      Continues c nested (s.behind tokens) s
        (.variableDecl ⟨second, ⟨first, stars, none⟩, none⟩ :: ·)) ∧
    (first.text ∈ s.types.visible → second.text ∈ s.types.visible →
      Fails c nested (s.behind tokens) (errorAt c second.token (.typeAsName second.text))) ∧
    (first.text ∉ s.types.visible → 0 < stars → tokens.length = stars + 3 ∧
      rawStatement.Reads c (s.behind tokens) tokens s ∧
      Continues c nested (s.behind tokens) s (Item.consRaw tokens)) ∧
    (first.text ∉ s.types.visible → stars = 0 →
      Fails c nested (s.behind tokens) (errorAt c first.token (.unknownType first.text))) := by
  refine ⟨continues_of_known h hs, fails_of_known h hs, fun hfirst hstars =>
    ⟨h.length_eq, continues_of_unknown h hs hfirst hstars⟩, fun hfirst hstars => ?_⟩
  subst hstars
  exact fails_of_unknown h hs hfirst

/-- A product of a struct with itself, inside of a namespace:

        struct foo; namespace n { foo * foo; } -/
def productOfTypes : List Token :=
  [Lexeme.identifier "struct", .identifier "foo", .operator ";", .identifier "namespace",
    .identifier "n", .operator openBrace, .identifier "foo", .operator "*", .identifier "foo",
    .operator ";", .operator closeBrace].map (Token.mk · default)

/-- The second name there is an error of the whole parse. A name that is no type can be
    multiplied with it, or declared as a pointer to it. -/
theorem scopeBody_of_starred_productOfTypes :
    let foo : Name := ⟨"foo", default⟩
    let a : Name := ⟨"a", default⟩
    let star : Token := ⟨.operator "*", default⟩
    let c : Context := ⟨default, []⟩
    let s : State := ⟨[closingBrace], (TypeNames.ofBuiltins ["int"]).register "foo"⟩
    (parse ["int"] [] productOfTypes default).result =
      .error (.invalid (errorAt c foo.token (.typeAsName "foo"))) ∧
    Continues c true (s.behind [foo.token, star, a.token, semicolon]) s
      (.variableDecl ⟨a, ⟨foo, 1, none⟩, none⟩ :: ·) ∧
    Continues c true (s.behind [a.token, star, foo.token, semicolon]) s
      (Item.consRaw [a.token, star, foo.token, semicolon]) ∧
    Fails c true (s.behind [a.token, foo.token, semicolon])
      (errorAt c a.token (.unknownType "a")) := by
  intro foo a star c s
  have hs : s.types.Consistent :=
    TypeNames.consistent_register (TypeNames.consistent_ofBuiltins _) "foo"
  have hfoo : foo.text ∈ s.types.visible := by decide
  have ha : a.text ∉ s.types.visible := by decide
  have hfoo' : foo.text ∉ keywords := by decide
  have ha' : a.text ∉ keywords := by decide
  have hstar : ∀ t ∈ [star], t.isOperator ["*"] = true := by decide
  -- the round inside of the namespace, behind the one of the struct
  have hreachable : Visit.Reachable c ["int"] productOfTypes
      ⟨9, true, s.behind [foo.token, star, foo.token, semicolon]⟩ :=
    .step (.step .start (.item rfl (show productionAt _ _ = some .structDecl from rfl) ⟨rfl, rfl⟩))
      (.inside rfl rfl ⟨rfl, rfl⟩)
  have hstarred {first second : Name} (hfirst : first.text ∉ keywords)
      (hsecond : second.text ∉ keywords) :
      Starred first second 1 [first.token, star, second.token, semicolon] :=
    .intro hfirst hstar hsecond rfl
  have hpair : Starred a foo 0 [a.token, foo.token, semicolon] :=
    .intro ha' (List.forall_mem_nil _) hfoo' rfl
  obtain ⟨-, hfails, -, -⟩ := scopeBody_of_starred (hstarred hfoo' hfoo') c true hs
  obtain ⟨hdeclares, -, -, -⟩ := scopeBody_of_starred (hstarred hfoo' ha') c true hs
  obtain ⟨-, -, hpasses, -⟩ := scopeBody_of_starred (hstarred ha' hfoo') c true hs
  obtain ⟨-, -, -, hmisses⟩ := scopeBody_of_starred hpair c true hs
  exact ⟨(hfails hfoo hfoo).2 ["int"] productOfTypes 9 hreachable, hdeclares hfoo ha,
    (hpasses ha Nat.one_pos).2.2, hmisses ha rfl⟩

end Parser

end Flattener
