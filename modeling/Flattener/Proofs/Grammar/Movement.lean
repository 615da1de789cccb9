import Flattener.Proofs.Grammar.Reading

/-!
# What a parse changes

A parser can do two things to a state, whether it succeeds or not: drop tokens
at the head, and register names (`State.Reaches`, `Parser.Moves`). It never
takes back a registration that was made before it began. A production on trial
that is given up is therefore undone by a rollback, and leaves the state exactly
as it was (`eq_of_reads_attempt_none`).
-/

namespace Flattener

namespace State

/-- A state that a parse can come to from another one. -/
def Reaches (s s' : State) : Prop :=
  s'.rest <:+ s.rest ∧ ∃ names, s'.types = s.types.registerAll names

theorem reaches_refl (s : State) : s.Reaches s :=
  ⟨List.suffix_refl _, [], rfl⟩

theorem Reaches.trans {s₁ s₂ s₃ : State} (h₁ : s₁.Reaches s₂) (h₂ : s₂.Reaches s₃) :
    s₁.Reaches s₃ := by
  obtain ⟨hrest₁, first, htypes₁⟩ := h₁
  obtain ⟨hrest₂, second, htypes₂⟩ := h₂
  refine ⟨hrest₂.trans hrest₁, first ++ second, ?_⟩
  rw [htypes₂, htypes₁, TypeNames.registerAll_append]

theorem Reaches.consistent {s s' : State} (h : s.Reaches s') (hs : s.types.Consistent) :
    s'.types.Consistent := by
  obtain ⟨-, names, htypes⟩ := h
  rw [htypes]
  exact TypeNames.consistent_registerAll hs names

end State

namespace Parser

variable {α β : Type} {c : Context} {s s' : State}

/-- The parser drops tokens and registers names, and changes nothing else. -/
def Moves (p : Parser α) : Prop :=
  ∀ (c : Context) (s : State), s.types.Consistent → s.Reaches (p c s).state

/-! ## Combinations -/

theorem moves_pure (a : α) : (pure a : Parser α).Moves := fun _ s _ =>
  s.reaches_refl

theorem moves_bind {p : Parser α} {f : α → Parser β} (hp : p.Moves) (hf : ∀ a, (f a).Moves) :
    (p >>= f).Moves := by
  intro c s hs
  have hfirst := hp c s hs
  rcases h : (p c s).result with failure | a
  · rw [bind_of_error h]
    exact hfirst
  · rw [bind_of_ok h]
    exact hfirst.trans (hf a c _ (hfirst.consistent hs))

theorem moves_map {p : Parser α} {f : α → β} (hp : p.Moves) : (f <$> p).Moves := by
  rw [← bind_pure_comp]
  exact moves_bind hp fun a => moves_pure (f a)

theorem moves_ite {b : Prop} [Decidable b] {p q : Parser α} (hp : p.Moves) (hq : q.Moves) :
    (if b then p else q).Moves := by
  split
  · exact hp
  · exact hq

theorem moves_gets (f : Context → State → α) : (gets f).Moves := fun _ s _ =>
  s.reaches_refl

theorem moves_fail (failure : Failure) : (fail failure : Parser α).Moves := fun _ s _ =>
  s.reaches_refl

theorem moves_failAt (t : Token) (cause : Cause) : (failAt t cause : Parser α).Moves :=
  fun _ s _ => s.reaches_refl

theorem moves_budgeted {p : Nat → Parser α} (hp : ∀ n, (p n).Moves) : (budgeted p).Moves :=
  fun c s hs => hp _ c s hs

/-! ## One token -/

theorem moves_peek : peek.Moves := moves_gets _

theorem behindNext_suffix (rest : List Token) : behindNext rest <:+ rest := by
  unfold behindNext
  split
  · exact List.suffix_refl _
  · split
    · exact List.suffix_refl _
    · exact List.suffix_cons _ _

theorem moves_pop : pop.Moves := fun _ s _ =>
  ⟨behindNext_suffix s.rest, [], rfl⟩

theorem moves_take (n : Nat) : (take n).Moves := fun _ s _ =>
  ⟨List.drop_suffix n s.rest, [], rfl⟩

theorem moves_unexpected (expected : String) : (unexpected expected : Parser α).Moves :=
  moves_bind moves_peek fun t => moves_failAt t _

theorem moves_atEnd : atEnd.Moves :=
  moves_bind moves_peek fun _ => moves_pure _

theorem moves_popInteger (expected : String) : (popInteger expected).Moves := by
  refine moves_bind moves_peek fun t => ?_
  split
  · exact moves_bind moves_pop fun _ => moves_pure _
  · exact moves_unexpected _

theorem moves_popName (expected : String) : (popName expected).Moves := by
  refine moves_bind moves_peek fun t => ?_
  split
  · exact moves_bind moves_pop fun _ => moves_pure _
  · exact moves_unexpected _

theorem moves_checkOperator (spelling : String) : (checkOperator spelling).Moves :=
  moves_bind moves_peek fun _ => moves_pure _

theorem moves_matchOperator (spelling : String) : (matchOperator spelling).Moves :=
  moves_bind (moves_checkOperator _) fun _ => moves_ite (moves_map moves_pop) (moves_pure _)

theorem moves_expectOperator (spelling : String) : (expectOperator spelling).Moves :=
  moves_bind (moves_checkOperator _) fun _ => moves_ite moves_pop (moves_unexpected _)

theorem moves_matchKeyword (name : String) : (matchKeyword name).Moves :=
  moves_bind moves_peek fun _ => moves_ite (moves_map moves_pop) (moves_pure _)

theorem moves_expectKeyword (name : String) : (expectKeyword name).Moves :=
  moves_bind moves_peek fun _ => moves_ite moves_pop (moves_unexpected _)

theorem moves_register (expected : String) : (register expected).Moves :=
  moves_bind (moves_popName _) fun name _ s _ => ⟨List.suffix_refl s.rest, [name.text], rfl⟩

theorem moves_commaList {p : Parser α} (hp : p.Moves) (n : Nat) : (commaList p n).Moves := by
  induction n with
  | zero => exact moves_fail _
  | succ n ih =>
    exact moves_bind hp fun _ => moves_bind (moves_matchOperator _) fun _ =>
      moves_ite (moves_bind ih fun _ => moves_pure _) (moves_pure _)

/-! ## Spans and declarations -/

theorem moves_rawStatement : rawStatement.Moves :=
  moves_bind (moves_gets _) fun _ => moves_bind (moves_take _) fun _ =>
    moves_bind moves_atEnd fun _ =>
      moves_ite (moves_ite (moves_unexpected _) (moves_pure _))
        (moves_ite (moves_unexpected _) (moves_pure _))

theorem moves_initializer (stops : List String) : (initializer stops).Moves := by
  refine moves_bind (moves_gets _) fun _ => moves_bind (moves_take _) fun tokens => ?_
  split
  · exact moves_bind moves_peek fun _ => moves_ite (moves_pure _) (moves_unexpected _)
  · exact moves_unexpected _

theorem moves_typeRef : typeRef.Moves := by
  refine moves_bind (moves_popName _) fun name => moves_bind (moves_gets _) fun _ => ?_
  have hstars : stars.Moves :=
    moves_bind (moves_gets _) fun _ => moves_bind (moves_take _) fun _ => moves_pure _
  exact moves_ite (moves_bind hstars fun _ => moves_pure _) (moves_failAt _ _)

theorem moves_declaredName : declaredName.Moves :=
  moves_bind (moves_popName _) fun _ => moves_bind (moves_gets _) fun _ =>
    moves_ite (moves_failAt _ _) (moves_pure _)

theorem moves_unsigned : unsigned.Moves := by
  refine moves_bind (moves_matchOperator _) fun sign => moves_bind (moves_popInteger _) fun _ => ?_
  cases sign with
  | none => exact moves_pure _
  | some sign => exact moves_ite (moves_failAt _ _) (moves_pure _)

theorem moves_arraySize : arraySize.Moves :=
  moves_bind (moves_matchOperator _) fun _ =>
    moves_ite
      (moves_bind moves_unsigned fun _ => moves_ite (moves_failAt _ _)
        (moves_bind (moves_expectOperator _) fun _ => moves_pure _))
      (moves_pure _)

theorem moves_variableTail (type : TypeRef) (name : Name) (stops : List String) :
    (variableTail type name stops).Moves :=
  moves_bind moves_arraySize fun _ => moves_bind (moves_matchOperator _) fun _ =>
    moves_ite (moves_bind (moves_initializer _) fun _ => moves_pure _) (moves_pure _)

theorem moves_parameterList : parameterList.Moves := by
  have hparameter : parameter.Moves :=
    moves_bind moves_typeRef fun _ => moves_bind moves_declaredName fun _ =>
      moves_variableTail _ _ _
  have hparameters : parameters.Moves :=
    moves_bind (moves_checkOperator _) fun _ => moves_ite (moves_pure _) <|
      moves_bind (moves_gets _) fun _ =>
        moves_ite (moves_bind moves_pop fun _ => moves_pure _)
          (moves_budgeted (moves_commaList hparameter))
  exact moves_bind (moves_expectOperator _) fun _ => moves_bind hparameters fun _ =>
    moves_bind (moves_expectOperator _) fun _ => moves_pure _

theorem moves_functionTail (returns : TypeRef) (name : Name) (isMethod : Bool) :
    (functionTail returns name isMethod).Moves :=
  moves_bind moves_parameterList fun _ => moves_bind (moves_checkOperator _) fun _ =>
    moves_ite (moves_bind moves_peek fun _ => moves_failAt _ _)
      (moves_bind (moves_expectOperator _) fun _ => moves_pure _)

theorem moves_variableEnd (type : TypeRef) (name : Name) : (variableEnd type name).Moves :=
  moves_bind (moves_variableTail _ _ _) fun _ => moves_bind (moves_expectOperator _) fun _ =>
    moves_pure _

theorem moves_variableDecl : variableDecl.Moves :=
  moves_bind moves_typeRef fun _ => moves_bind moves_declaredName fun _ => moves_variableEnd _ _

theorem moves_declaration (isMember : Bool) : (declaration isMember).Moves :=
  moves_bind moves_typeRef fun _ => moves_bind moves_declaredName fun _ =>
    moves_bind (moves_checkOperator _) fun _ =>
      moves_ite (moves_map (moves_functionTail _ _ _)) (moves_map (moves_variableEnd _ _))

theorem moves_functionPointer : functionPointer.Moves :=
  moves_bind (moves_expectKeyword _) fun _ => moves_bind moves_typeRef fun _ =>
    moves_bind (moves_expectOperator _) fun _ => moves_bind (moves_expectOperator _) fun _ =>
      moves_bind moves_declaredName fun _ => moves_bind (moves_expectOperator _) fun _ =>
        moves_bind moves_parameterList fun _ => moves_bind (moves_expectOperator _) fun _ =>
          moves_pure _

/-! ## Structs and classes -/

theorem moves_member {p : Parser α} (hp : p.Moves) : (member p).Moves :=
  moves_bind moves_peek fun _ => moves_ite (moves_failAt _ _) <|
    moves_ite (moves_map moves_functionPointer) (moves_map hp)

theorem moves_structMembers (n : Nat) : (structMembers n).Moves := by
  have hmember : structMember.Moves := by
    refine moves_bind (moves_member moves_variableDecl) fun found => ?_
    split <;> exact moves_pure _
  induction n with
  | zero => exact moves_fail _
  | succ n ih =>
    exact moves_bind (moves_checkOperator _) fun _ => moves_ite (moves_pure _) <|
      moves_bind hmember fun _ => moves_bind ih fun _ => moves_pure _

theorem moves_classMember (access : Access) : (classMember access).Moves := by
  refine moves_bind (moves_member (moves_declaration _)) fun found => ?_
  split <;> exact moves_pure _

theorem moves_classMembers (n : Nat) (access : Access) : (classMembers n access).Moves := by
  induction n generalizing access with
  | zero => exact moves_fail _
  | succ n ih =>
    refine moves_bind (moves_checkOperator _) fun _ => moves_ite (moves_pure _) ?_
    refine moves_bind moves_peek fun t => ?_
    split
    · exact moves_bind moves_pop fun _ => moves_bind (moves_expectOperator _) fun _ => ih _
    · exact moves_bind (moves_matchKeyword _) fun _ => moves_bind (moves_classMember _) fun _ =>
        moves_bind (ih _) fun _ => moves_pure _

theorem moves_structDecl : structDecl.Moves :=
  moves_bind (moves_expectKeyword _) fun _ => moves_bind (moves_register _) fun _ =>
    moves_bind (moves_matchOperator _) fun _ => moves_ite (moves_pure _) <|
      moves_bind (moves_expectOperator _) fun _ =>
        moves_bind (moves_budgeted moves_structMembers) fun _ =>
          moves_bind (moves_expectOperator _) fun _ =>
            moves_bind (moves_expectOperator _) fun _ => moves_pure _

theorem moves_classDecl : classDecl.Moves := by
  have htrait : trait.Moves := moves_bind (moves_popName _) fun _ => moves_pure _
  have htraits : traits.Moves :=
    moves_bind (moves_matchOperator _) fun _ =>
      moves_ite (moves_budgeted (moves_commaList htrait)) (moves_pure _)
  exact moves_bind (moves_expectKeyword _) fun _ => moves_bind (moves_register _) fun _ =>
    moves_bind (moves_matchOperator _) fun _ => moves_ite (moves_pure _) <|
      moves_bind htraits fun _ => moves_bind (moves_expectOperator _) fun _ =>
        moves_bind (moves_budgeted fun n => moves_classMembers n _) fun _ =>
          moves_bind (moves_expectOperator _) fun _ =>
            moves_bind (moves_expectOperator _) fun _ => moves_pure _

/-! ## Trials -/

/-- The way back from a state is always there, and leads to where it started. -/
theorem restore_of_reaches (hs : s.types.Consistent) (h : s.Reaches s') (reason : String) :
    (restore s.rest s.types.mark reason c s').result = .ok () ∧
      (restore s.rest s.types.mark reason c s').state = s := by
  obtain ⟨-, names, htypes⟩ := h
  -- names were only registered, so the mark of the start still stands for it
  obtain ⟨gone, hback⟩ := TypeNames.rollbackTo_registerAll hs names
  rw [← htypes] at hback
  simp only [restore, hback, and_self]

theorem attempt_of_ok {p : Parser α} {a : α} (h : (p c s).result = .ok a) :
    attempt p c s = ⟨.ok (some a), (p c s).state, (p c s).events⟩ := by
  simp only [attempt, h]

theorem attempt_of_fatal {p : Parser α} {failure : Failure} (h : (p c s).result = .error failure)
    (hfatal : isRecoverable failure = false) :
    attempt p c s = ⟨.error failure, (p c s).state, (p c s).events⟩ := by
  simp only [attempt, h, hfatal, Bool.false_eq_true, if_false]

/-- A production that is given up leaves nothing but what happened. -/
theorem attempt_of_recoverable {p : Parser α} {failure : Failure} (hp : p.Moves)
    (hs : s.types.Consistent) (h : (p c s).result = .error failure)
    (hmend : isRecoverable failure = true) :
    ∃ events, attempt p c s = ⟨.ok none, s, events⟩ := by
  have hback := restore_of_reaches (c := c) hs (hp c s hs)
  simp only [attempt, h, hmend, if_true, hback, Except.map]
  exact ⟨_, rfl⟩

/-- A trial that reads something is the production itself. -/
theorem reads_attempt_some {p : Parser α} {a : α} (hp : p.Moves) (hs : s.types.Consistent) :
    (attempt p).Reads c s (some a) s' ↔ p.Reads c s a s' := by
  unfold Reads
  rcases h : (p c s).result with failure | b
  · cases hmend : isRecoverable failure with
    | true =>
      obtain ⟨events, hnone⟩ := attempt_of_recoverable hp hs h hmend
      simp [hnone]
    | false => simp [attempt_of_fatal h hmend]
  · simp [attempt_of_ok h]

/-- A trial that reads nothing has changed nothing. -/
theorem eq_of_reads_attempt_none {p : Parser α} (hp : p.Moves) (hs : s.types.Consistent)
    (h : (attempt p).Reads c s none s') : s' = s := by
  obtain ⟨hresult, rfl⟩ := h
  rcases hp' : (p c s).result with failure | a
  · cases hmend : isRecoverable failure with
    | true =>
      obtain ⟨events, hnone⟩ := attempt_of_recoverable hp hs hp' hmend
      rw [hnone]
    | false => simp [attempt_of_fatal hp' hmend] at hresult
  · simp [attempt_of_ok hp'] at hresult

theorem moves_attempt {p : Parser α} (hp : p.Moves) : (attempt p).Moves := by
  intro c s hs
  rcases h : (p c s).result with failure | a
  · cases hmend : isRecoverable failure with
    | true =>
      obtain ⟨events, hnone⟩ := attempt_of_recoverable hp hs h hmend
      rw [hnone]
      exact s.reaches_refl
    | false =>
      rw [attempt_of_fatal h hmend]
      exact hp c s hs
  · rw [attempt_of_ok h]
    exact hp c s hs

/-! ## Scopes -/

theorem moves_selectProduction : selectProduction.Moves :=
  moves_bind moves_peek fun _ => moves_ite (moves_pure _) <| moves_ite (moves_pure _) <|
    moves_ite (moves_pure _) <| moves_bind (moves_gets _) fun _ =>
      moves_ite (moves_pure _) (moves_pure _)

theorem moves_produce {body : Parser (List Item)} (hbody : body.Moves) (production : Production) :
    (produce body production).Moves := by
  cases production with
  | namespaceDecl =>
    exact moves_bind (moves_expectKeyword _) fun _ => moves_bind (moves_popName _) fun _ =>
      moves_bind (moves_expectOperator _) fun _ => moves_bind hbody fun _ =>
        moves_bind (moves_expectOperator _) fun _ => moves_pure _
  | classDecl => exact moves_map moves_classDecl
  | structDecl => exact moves_map moves_structDecl
  | declaration =>
    refine moves_bind (moves_declaration _) fun declared => ?_
    split <;> exact moves_pure _

theorem moves_scopeItems (n : Nat) (nested : Bool) : (scopeItems n nested).Moves := by
  induction n generalizing nested with
  | zero => exact moves_fail _
  | succ n ih =>
    refine moves_bind moves_atEnd fun _ => moves_ite (moves_pure _) ?_
    refine moves_bind (moves_checkOperator _) fun _ => moves_ite (moves_pure _) ?_
    refine moves_bind moves_selectProduction fun production => ?_
    have hround {p : Parser (Option Item)} {f : Option Item → Parser (List Item)} (hp : p.Moves)
        (hsome : ∀ item, (f (some item)).Moves) (hnone : (f none).Moves) : (p >>= f).Moves := by
      refine moves_bind hp fun item => ?_
      cases item with
      | some item => exact hsome item
      | none => exact hnone
    have hraw : (do
        let tokens ← rawStatement
        let others ← scopeItems n nested
        return Item.consRaw tokens others : Parser (List Item)).Moves :=
      moves_bind moves_rawStatement fun _ => moves_bind (ih nested) fun _ => moves_pure _
    cases production with
    | none => exact hround (moves_pure _) (fun _ => moves_bind (ih nested) fun _ => moves_pure _) hraw
    | some production =>
      exact hround (moves_attempt (moves_produce (ih true) production))
        (fun _ => moves_bind (ih nested) fun _ => moves_pure _) hraw

end Parser

end Flattener
