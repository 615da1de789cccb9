import Flattener.Proofs.Grammar.Rounds
import Flattener.Proofs.Tree.Places

/-!
# Places play no part in a parse

A parser reads tokens for what they say. Without their places it reads the same,
without its places, and fails for the same cause (`Parser.Placeless`). This goes
parser by parser, along their definitions. A whole program is therefore parsed
alike wherever its tokens stand (`parse_bare`).
-/

namespace Flattener

variable {α β : Type}

/-! ## What a parser leaves -/

instance : Placed Access := ⟨id⟩

instance : Placed Production := ⟨id⟩

instance : Placed Declaration where
  bare
    | .variableDecl declared => .variableDecl (bare declared)
    | .functionDecl declared => .functionDecl (bare declared)

instance : Placed ClassMember where
  bare
    | .data member => .data (bare member)
    | .method declared => .method (bare declared)

/-- The line that is shown depends on the place. -/
instance : Placed SyntaxError :=
  ⟨fun e => { e with location := e.location.map fun _ => default, sourceLine := none }⟩

instance : Placed Failure where
  bare
    | .invalid error => .invalid (bare error)
    | .misuse fault => .misuse fault

instance [Placed α] : Placed (Except Failure α) where
  bare
    | .ok a => .ok (bare a)
    | .error failure => .error (bare failure)

instance : Placed State := ⟨fun s => { s with rest := bare s.rest }⟩

namespace Parser

/-- The context of tokens that stand nowhere. -/
def nowhere : Context :=
  ⟨default, []⟩

/-- The first parser does without places what the second one does. -/
def Placeless [Placed α] (p q : Parser α) : Prop :=
  ∀ (c : Context) (s : State), (p nowhere (bare s)).result = bare (q c s).result ∧
    (p nowhere (bare s)).state = bare (q c s).state

/-! ## Combinations -/

variable [Placed α] [Placed β]

theorem placeless_pure {a b : α} (h : a = bare b) : Placeless (pure a) (pure b) :=
  fun _ _ => ⟨congrArg Except.ok h, rfl⟩

theorem placeless_bind {p q : Parser α} {f g : α → Parser β} (hp : Placeless p q)
    (hf : ∀ a, Placeless (f (bare a)) (g a)) : Placeless (p >>= f) (q >>= g) := by
  intro c s
  obtain ⟨hresult, hstate⟩ := hp c s
  rcases hq : (q c s).result with failure | a
  · rw [hq] at hresult
    rw [bind_of_error hq, bind_of_error hresult]
    exact ⟨rfl, hstate⟩
  · rw [hq] at hresult
    rw [bind_of_ok hq, bind_of_ok hresult, hstate]
    exact hf a c _

theorem placeless_map {p q : Parser α} {f g : α → β} (hp : Placeless p q)
    (hf : ∀ a, f (bare a) = bare (g a)) : Placeless (f <$> p) (g <$> q) := by
  rw [← bind_pure_comp, ← bind_pure_comp]
  exact placeless_bind hp fun a => placeless_pure (hf a)

theorem placeless_ite {b : Prop} [Decidable b] {p q p' q' : Parser α} (hp : Placeless p q)
    (hq : Placeless p' q') : Placeless (if b then p else p') (if b then q else q') := by
  split
  · exact hp
  · exact hq

theorem placeless_fail (fault : Fault) : Placeless (fail (.misuse fault) : Parser α)
    (fail (.misuse fault)) := fun _ _ => ⟨rfl, rfl⟩

theorem placeless_failAt {t u : Token} (h : t = bare u) (cause : Cause) :
    Placeless (failAt t cause : Parser α) (failAt u cause) := by
  subst h
  exact fun _ _ => ⟨rfl, rfl⟩

theorem placeless_gets {f g : Context → State → α}
    (h : ∀ c s, f nowhere (bare s) = bare (g c s)) : Placeless (gets f) (gets g) :=
  fun c s => ⟨congrArg Except.ok (h c s), rfl⟩

theorem length_bare (list : List α) : (bare list).length = list.length :=
  List.length_map _

theorem placeless_budgeted {p q : Nat → Parser α} (h : ∀ n, Placeless (p n) (q n)) :
    Placeless (budgeted p) (budgeted q) := by
  intro c s
  have hlength : (bare s).rest.length = s.rest.length := length_bare s.rest
  rw [budgeted, budgeted, hlength]
  exact h _ c s

/-! ## Tokens -/

theorem tokenAt_bare (c : Context) (rest : List Token) (distance : Nat) :
    tokenAt nowhere (bare rest) distance = bare (tokenAt c rest distance) := by
  have hget : (bare rest)[distance]? = rest[distance]?.map bare := List.getElem?_map
  rw [tokenAt, tokenAt, hget]
  cases rest[distance]? <;> rfl

theorem placeless_peek : Placeless peek peek :=
  placeless_gets fun c s => tokenAt_bare c s.rest 0

theorem behindNext_bare (rest : List Token) : behindNext (bare rest) = bare (behindNext rest) := by
  cases rest with
  | nil => rfl
  | cons t rest => exact (apply_ite bare (t.isEnd = true) (t :: rest) rest).symm

theorem placeless_pop : Placeless pop pop := fun c s =>
  ⟨congrArg Except.ok (tokenAt_bare c s.rest 0),
    congrArg (State.mk · s.types) (behindNext_bare s.rest)⟩

theorem placeless_take (n : Nat) : Placeless (take n) (take n) := fun _ s =>
  ⟨congrArg Except.ok List.map_take.symm, congrArg (State.mk · s.types) List.map_drop.symm⟩

theorem placeless_unexpected (expected : String) :
    Placeless (unexpected expected : Parser α) (unexpected expected) :=
  placeless_bind placeless_peek fun _ => placeless_failAt rfl _

theorem placeless_atEnd : Placeless atEnd atEnd :=
  placeless_bind placeless_peek fun _ => placeless_pure rfl

theorem placeless_popKind (kind : Kind) (expected : String) :
    Placeless (popKind kind expected) (popKind kind expected) :=
  placeless_bind placeless_peek fun _ => placeless_ite placeless_pop (placeless_unexpected _)

theorem placeless_demand {view : Token → Option α} (h : ∀ t, view (bare t) = bare (view t))
    (expected : String) : Placeless (demand view expected) (demand view expected) := by
  refine placeless_bind placeless_peek fun t => ?_
  rw [h t]
  cases view t with
  | none => exact placeless_unexpected _
  | some a => exact placeless_bind placeless_pop fun _ => placeless_pure rfl

theorem placeless_accept {view : Token → Option α} (h : ∀ t, view (bare t) = bare (view t)) :
    Placeless (accept view) (accept view) := by
  refine placeless_bind placeless_peek fun t => ?_
  rw [h t]
  cases view t with
  | none => exact placeless_pure rfl
  | some a => exact placeless_bind placeless_pop fun _ => placeless_pure rfl

/-! ## Tokens of a kind -/

theorem name?_bare (t : Token) : (bare t).name? = bare t.name? := by
  obtain ⟨lexeme, location⟩ := t
  cases lexeme with
  | identifier name =>
    by_cases h : name ∈ keywords
    · simp only [Token.name?, bare, if_pos h, Option.map_none]
    · simp only [Token.name?, bare, if_neg h, Option.map_some]
  | _ => rfl

theorem operatorView_bare (spelling : String) (t : Token) :
    operatorView spelling (bare t) = bare (operatorView spelling t) := by
  have hsame : (bare t).isOperator [spelling] = t.isOperator [spelling] := rfl
  rw [operatorView, operatorView, hsame]
  cases t.isOperator [spelling] <;> rfl

theorem keywordView_bare (name : String) (t : Token) :
    keywordView name (bare t) = bare (keywordView name t) := by
  have hsame : (bare t).isKeyword [name] = t.isKeyword [name] := rfl
  rw [keywordView, keywordView, hsame]
  cases t.isKeyword [name] <;> rfl

theorem integerView_bare (t : Token) : integerView (bare t) = bare (integerView t) := by
  obtain ⟨lexeme, location⟩ := t
  cases lexeme <;> rfl

theorem labelAccess?_bare (t : Token) : labelAccess? (bare t) = bare (labelAccess? t) :=
  (congrFun Option.map_id _).symm

theorem placeless_popName (expected : String) : Placeless (popName expected) (popName expected) :=
  popName_eq expected ▸ placeless_demand name?_bare expected

theorem placeless_popInteger (expected : String) :
    Placeless (popInteger expected) (popInteger expected) :=
  popInteger_eq expected ▸ placeless_demand integerView_bare expected

theorem placeless_expectOperator (spelling : String) :
    Placeless (expectOperator spelling) (expectOperator spelling) :=
  expectOperator_eq spelling ▸ placeless_demand (operatorView_bare spelling) _

theorem placeless_expectKeyword (name : String) :
    Placeless (expectKeyword name) (expectKeyword name) :=
  expectKeyword_eq name ▸ placeless_demand (keywordView_bare name) _

theorem placeless_matchOperator (spelling : String) :
    Placeless (matchOperator spelling) (matchOperator spelling) :=
  matchOperator_eq spelling ▸ placeless_accept (operatorView_bare spelling)

theorem placeless_matchKeyword (name : String) :
    Placeless (matchKeyword name) (matchKeyword name) :=
  matchKeyword_eq name ▸ placeless_accept (keywordView_bare name)

theorem placeless_checkOperator (spelling : String) :
    Placeless (checkOperator spelling) (checkOperator spelling) :=
  placeless_bind placeless_peek fun _ => placeless_pure rfl

theorem placeless_isType (name : String) : Placeless (isType name) (isType name) :=
  placeless_gets fun _ _ => rfl

theorem placeless_register (expected : String) :
    Placeless (register expected) (register expected) :=
  placeless_bind (placeless_popName expected) fun _ _ _ => ⟨rfl, rfl⟩

/-- What is found or not goes on in two ways. -/
theorem placeless_ifFound {γ : Type} [Placed γ] {p p' : Parser (Option γ)} {q q' r r' : Parser α}
    (hp : Placeless p p') (hq : Placeless q q') (hr : Placeless r r') :
    Placeless (do if (← p).isSome then q else r) (do if (← p').isSome then q' else r') := by
  refine placeless_bind hp fun found => ?_
  cases found with
  | none => exact hr
  | some a => exact hq

theorem placeless_commaList {p q : Parser α} (h : Placeless p q) (n : Nat) :
    Placeless (commaList p n) (commaList q n) := by
  induction n with
  | zero => exact placeless_fail _
  | succ n ih =>
    exact placeless_bind h fun _ => placeless_ifFound (placeless_matchOperator ",")
      (placeless_bind ih fun _ => placeless_pure rfl) (placeless_pure rfl)

/-! ## Spans -/

theorem statementSpan_bare (depth : Nat) (tokens : List Token) :
    statementSpan depth (bare tokens) = bare (statementSpan depth tokens) := by
  induction tokens generalizing depth with
  | nil => rfl
  | cons t tokens ih =>
    have hend : (bare t).isEnd = t.isEnd := rfl
    have hoperator (spellings : List String) :
        (bare t).isOperator spellings = t.isOperator spellings := rfl
    have hnesting : nesting depth (bare t) = nesting depth t := rfl
    show statementSpan depth (bare t :: bare tokens) = _
    rw [statementSpan, statementSpan, hend, hoperator, hoperator, hnesting, ih]
    split
    · rfl
    · split <;> rfl

theorem initializerSpan_bare (stops : List String) (depth : Nat) (tokens : List Token) :
    initializerSpan stops depth (bare tokens) = bare (initializerSpan stops depth tokens) := by
  induction tokens generalizing depth with
  | nil => rfl
  | cons t tokens ih =>
    have hend : (bare t).isEnd = t.isEnd := rfl
    have hoperator (spellings : List String) :
        (bare t).isOperator spellings = t.isOperator spellings := rfl
    have hnesting : nesting depth (bare t) = nesting depth t := rfl
    show initializerSpan stops depth (bare t :: bare tokens) = _
    rw [initializerSpan, initializerSpan, hend, hoperator, hnesting, ih]
    split <;> rfl

theorem finalDepth_bare (tokens : List Token) : finalDepth (bare tokens) = finalDepth tokens :=
  List.foldl_map

theorem placeless_rawStatement : Placeless rawStatement rawStatement := by
  refine placeless_bind (placeless_gets fun _ s => statementSpan_bare 0 s.rest) fun span => ?_
  rw [length_bare]
  refine placeless_bind (placeless_take _) fun tokens => placeless_bind placeless_atEnd fun ends => ?_
  have hempty : (bare tokens).isEmpty = tokens.isEmpty := by cases tokens <;> rfl
  rw [finalDepth_bare, hempty]
  exact placeless_ite (placeless_ite (placeless_unexpected _) (placeless_pure rfl))
    (placeless_ite (placeless_unexpected _) (placeless_pure rfl))

theorem placeless_initializer (stops : List String) :
    Placeless (initializer stops) (initializer stops) := by
  refine placeless_bind (placeless_gets fun _ s => initializerSpan_bare stops 0 s.rest) fun span => ?_
  rw [length_bare]
  refine placeless_bind (placeless_take _) fun tokens => ?_
  cases tokens with
  | nil => exact placeless_unexpected _
  | cons first others =>
    exact placeless_bind placeless_peek fun _ =>
      placeless_ite (placeless_pure rfl) (placeless_unexpected _)

/-! ## Declarations -/

theorem placeless_stars : Placeless stars stars := by
  have hcount (s : State) : ((bare s).rest.takeWhile (·.isOperator ["*"])).length =
      (s.rest.takeWhile (·.isOperator ["*"])).length := by
    show ((s.rest.map bare).takeWhile _).length = _
    rw [List.takeWhile_map, List.length_map]
    rfl
  exact placeless_bind (placeless_gets fun _ s => hcount s) fun _ =>
    placeless_bind (placeless_take _) fun _ => placeless_pure rfl

theorem placeless_typeRef : Placeless typeRef typeRef :=
  placeless_bind (placeless_popName _) fun name => placeless_bind (placeless_isType _) fun _ =>
    placeless_ite (placeless_bind placeless_stars fun _ => placeless_pure rfl)
      (placeless_failAt (u := name.token) rfl _)

theorem placeless_declaredName : Placeless declaredName declaredName :=
  placeless_bind (placeless_popName _) fun name => placeless_bind (placeless_isType _) fun _ =>
    placeless_ite (placeless_failAt (u := name.token) rfl _) (placeless_pure rfl)

theorem placeless_unsigned : Placeless unsigned unsigned := by
  refine placeless_bind (placeless_matchOperator _) fun sign =>
    placeless_bind (placeless_popInteger _) fun ⟨token, value⟩ => ?_
  cases sign with
  | none => exact placeless_pure rfl
  | some sign => exact placeless_ite (placeless_failAt rfl _) (placeless_pure rfl)

theorem placeless_arraySize : Placeless arraySize arraySize :=
  placeless_ifFound (placeless_matchOperator _)
    (placeless_bind placeless_unsigned fun ⟨_, _⟩ => placeless_ite (placeless_failAt rfl _)
      (placeless_bind (placeless_expectOperator _) fun _ => placeless_pure rfl))
    (placeless_pure rfl)

theorem placeless_variableTail (type : TypeRef) (name : Name) (stops : List String) :
    Placeless (variableTail (bare type) (bare name) stops) (variableTail type name stops) := by
  refine placeless_bind placeless_arraySize fun size => ?_
  have hsize : bare size = size := congrFun Option.map_id size
  rw [hsize]
  exact placeless_ifFound (placeless_matchOperator _)
    (placeless_bind (placeless_initializer stops) fun _ => placeless_pure rfl) (placeless_pure rfl)

theorem placeless_parameter : Placeless parameter parameter :=
  placeless_bind placeless_typeRef fun _ => placeless_bind placeless_declaredName fun _ =>
    placeless_variableTail _ _ _

theorem placeless_loneVoid : Placeless loneVoid loneVoid := by
  refine placeless_gets fun c s => ?_
  have htoken (distance : Nat) : tokenAt nowhere (bare s).rest distance =
      bare (tokenAt c s.rest distance) := tokenAt_bare c s.rest distance
  rw [htoken, htoken]
  rfl

theorem placeless_parameters : Placeless parameters parameters :=
  placeless_bind (placeless_checkOperator _) fun _ => placeless_ite (placeless_pure rfl) <|
    placeless_bind placeless_loneVoid fun _ =>
      placeless_ite (placeless_bind placeless_pop fun _ => placeless_pure rfl)
        (placeless_budgeted fun n => placeless_commaList placeless_parameter n)

theorem placeless_parameterList : Placeless parameterList parameterList :=
  placeless_bind (placeless_expectOperator _) fun _ => placeless_bind placeless_parameters fun _ =>
    placeless_bind (placeless_expectOperator _) fun _ => placeless_pure rfl

theorem placeless_functionTail (returns : TypeRef) (name : Name) (isMethod : Bool) :
    Placeless (functionTail (bare returns) (bare name) isMethod)
      (functionTail returns name isMethod) := by
  rw [functionTail_eq, functionTail_eq]
  exact placeless_bind placeless_parameterList fun _ => placeless_bind placeless_peek fun t =>
    placeless_ite (placeless_failAt (u := t) rfl _)
      (placeless_bind (placeless_expectOperator _) fun _ => placeless_pure rfl)

theorem placeless_variableEnd (type : TypeRef) (name : Name) :
    Placeless (variableEnd (bare type) (bare name)) (variableEnd type name) :=
  placeless_bind (placeless_variableTail _ _ _) fun _ =>
    placeless_bind (placeless_expectOperator _) fun _ => placeless_pure rfl

theorem placeless_variableDecl : Placeless variableDecl variableDecl :=
  placeless_bind placeless_typeRef fun _ => placeless_bind placeless_declaredName fun _ =>
    placeless_variableEnd _ _

theorem placeless_declaration (isMember : Bool) :
    Placeless (declaration isMember) (declaration isMember) :=
  placeless_bind placeless_typeRef fun _ => placeless_bind placeless_declaredName fun _ =>
    placeless_bind (placeless_checkOperator _) fun _ =>
      placeless_ite (placeless_map (placeless_functionTail _ _ _) fun _ => rfl)
        (placeless_map (placeless_variableEnd _ _) fun _ => rfl)

theorem placeless_functionPointer : Placeless functionPointer functionPointer :=
  placeless_bind (placeless_expectKeyword _) fun _ => placeless_bind placeless_typeRef fun _ =>
    placeless_bind (placeless_expectOperator _) fun _ =>
      placeless_bind (placeless_expectOperator _) fun _ =>
        placeless_bind placeless_declaredName fun _ =>
          placeless_bind (placeless_expectOperator _) fun _ =>
            placeless_bind placeless_parameterList fun _ =>
              placeless_bind (placeless_expectOperator _) fun _ => placeless_pure rfl

/-! ## Structs and classes -/

theorem placeless_member {p q : Parser α} (h : Placeless p q) : Placeless (member p) (member q) :=
  placeless_bind placeless_peek fun t => placeless_ite (placeless_failAt (u := t) rfl _) <|
    placeless_ite (placeless_map placeless_functionPointer fun _ => rfl)
      (placeless_map h fun _ => rfl)

theorem placeless_structMember : Placeless structMember structMember := by
  refine placeless_bind (placeless_member placeless_variableDecl) fun found => ?_
  cases found with
  | inl declared => exact placeless_pure rfl
  | inr declared => exact placeless_pure rfl

theorem placeless_classMember (access : Access) :
    Placeless (classMember access) (classMember access) := by
  refine placeless_bind (placeless_member (placeless_declaration true)) fun found => ?_
  rcases found with declared | declared | declared
  · exact placeless_pure rfl
  · exact placeless_pure rfl
  · exact placeless_pure rfl

theorem placeless_structMembers (n : Nat) : Placeless (structMembers n) (structMembers n) := by
  induction n with
  | zero => exact placeless_fail _
  | succ n ih =>
    exact placeless_bind (placeless_checkOperator _) fun _ => placeless_ite (placeless_pure rfl) <|
      placeless_bind placeless_structMember fun _ => placeless_bind ih fun _ => placeless_pure rfl

theorem placeless_classMembers (n : Nat) (access : Access) :
    Placeless (classMembers n access) (classMembers n access) := by
  induction n generalizing access with
  | zero => exact placeless_fail _
  | succ n ih =>
    rw [classMembers_succ]
    refine placeless_bind (placeless_checkOperator _) fun _ => placeless_ite (placeless_pure rfl) ?_
    refine placeless_bind (placeless_accept labelAccess?_bare) fun label => ?_
    cases label with
    | some label => exact placeless_bind (placeless_expectOperator _) fun _ => ih label
    | none =>
      refine placeless_bind (placeless_matchKeyword _) fun overrides => ?_
      have hmember (own : Access) : Placeless
          (do
            let first ← classMember own
            let others ← classMembers n access
            return first :: others)
          (do
            let first ← classMember own
            let others ← classMembers n access
            return first :: others) :=
        placeless_bind (placeless_classMember own) fun _ => placeless_bind (ih access) fun _ =>
          placeless_pure rfl
      cases overrides with
      | none => exact hmember access
      | some t => exact hmember .overrideAccess

theorem placeless_trait : Placeless trait trait :=
  placeless_bind (placeless_popName _) fun _ => placeless_pure rfl

theorem placeless_traits : Placeless traits traits :=
  placeless_ifFound (placeless_matchOperator _)
    (placeless_budgeted fun n => placeless_commaList placeless_trait n) (placeless_pure rfl)

theorem placeless_structDecl : Placeless structDecl structDecl :=
  placeless_bind (placeless_expectKeyword _) fun _ => placeless_bind (placeless_register _) fun _ =>
    placeless_ifFound (placeless_matchOperator _) (placeless_pure rfl) <|
      placeless_bind (placeless_expectOperator _) fun _ =>
        placeless_bind (placeless_budgeted placeless_structMembers) fun _ =>
          placeless_bind (placeless_expectOperator _) fun _ =>
            placeless_bind (placeless_expectOperator _) fun _ => placeless_pure rfl

theorem filterMap_bare {f : α → Option β} (h : ∀ a, f (bare a) = bare (f a)) (list : List α) :
    (bare list).filterMap f = bare (list.filterMap f) := by
  show (list.map bare).filterMap f = (list.filterMap f).map bare
  rw [List.filterMap_map, List.map_filterMap]
  exact congrArg (List.filterMap · list) (funext h)

theorem placeless_classDecl : Placeless classDecl classDecl :=
  placeless_bind (placeless_expectKeyword _) fun _ => placeless_bind (placeless_register _) fun _ =>
    placeless_ifFound (placeless_matchOperator _) (placeless_pure rfl) <|
      placeless_bind placeless_traits fun _ => placeless_bind (placeless_expectOperator _) fun _ =>
        placeless_bind (placeless_budgeted fun n => placeless_classMembers n _) fun members =>
          placeless_bind (placeless_expectOperator _) fun _ =>
            placeless_bind (placeless_expectOperator _) fun _ => placeless_pure <| by
              rw [filterMap_bare fun m => by cases m <;> rfl,
                filterMap_bare fun m => by cases m <;> rfl]
              rfl

/-! ## Scopes -/

theorem isRecoverable_bare (failure : Failure) :
    isRecoverable (bare failure) = isRecoverable failure := by
  rcases failure with ⟨cause, location, atEnd, line⟩ | fault
  · cases cause <;> rfl
  · rfl

/-- The reason is for the record. -/
theorem restore_bare (c : Context) (s : State) (rest : List Token) (mark : Nat)
    (reason reason' : String) :
    (restore (bare rest) mark reason nowhere (bare s)).result =
        bare (restore rest mark reason' c s).result ∧
      (restore (bare rest) mark reason nowhere (bare s)).state =
        bare (restore rest mark reason' c s).state := by
  have htypes : (bare s).types = s.types := rfl
  rw [restore, restore, htypes]
  cases s.types.rollbackTo mark with
  | error fault => exact ⟨rfl, rfl⟩
  | ok back => exact ⟨rfl, rfl⟩

theorem attempt_of_mended {γ : Type} {p : Parser γ} {c : Context} {s : State} {failure : Failure}
    (h : (p c s).result = .error failure) (hmend : isRecoverable failure = true) :
    ∃ reason, (attempt p c s).result =
        (restore s.rest s.types.mark reason c (p c s).state).result.map (fun _ => none) ∧
      (attempt p c s).state = (restore s.rest s.types.mark reason c (p c s).state).state := by
  simp only [attempt, h, hmend, if_true]
  exact ⟨_, rfl, rfl⟩

theorem placeless_attempt {p q : Parser α} (h : Placeless p q) :
    Placeless (attempt p) (attempt q) := by
  intro c s
  obtain ⟨hresult, hstate⟩ := h c s
  rcases hq : (q c s).result with failure | a
  · rw [hq] at hresult
    have hmend := isRecoverable_bare failure
    cases hrecoverable : isRecoverable failure with
    | true =>
      obtain ⟨reason, hfirst, hfirst'⟩ := attempt_of_mended hresult (hmend.trans hrecoverable)
      obtain ⟨reason', hsecond, hsecond'⟩ := attempt_of_mended hq hrecoverable
      obtain ⟨hback, hback'⟩ :=
        restore_bare c (q c s).state s.rest s.types.mark reason reason'
      rw [hfirst, hfirst', hsecond, hsecond', hstate]
      refine ⟨(congrArg (Except.map fun _ => none) hback).trans ?_, hback'⟩
      cases (restore s.rest s.types.mark reason' c (q c s).state).result <;> rfl
    | false =>
      rw [attempt_of_fatal hq hrecoverable, attempt_of_fatal hresult (hmend.trans hrecoverable)]
      exact ⟨rfl, hstate⟩
  · rw [hq] at hresult
    rw [attempt_of_ok hq, attempt_of_ok hresult]
    exact ⟨rfl, hstate⟩

theorem placeless_produce {p q : Parser (List Item)} (h : Placeless p q) (production : Production) :
    Placeless (produce p production) (produce q production) := by
  cases production with
  | namespaceDecl =>
    exact placeless_bind (placeless_expectKeyword _) fun _ => placeless_bind (placeless_popName _)
      fun _ => placeless_bind (placeless_expectOperator _) fun _ => placeless_bind h fun _ =>
        placeless_bind (placeless_expectOperator _) fun _ => placeless_pure (bare_namespaceDecl _ _).symm
  | classDecl => exact placeless_map placeless_classDecl fun _ => rfl
  | structDecl => exact placeless_map placeless_structDecl fun _ => rfl
  | declaration =>
    refine placeless_bind (placeless_declaration false) fun declared => ?_
    cases declared with
    | variableDecl declared => exact placeless_pure rfl
    | functionDecl declared => exact placeless_pure rfl

theorem placeless_statementThen {p q : Parser (List Item)} (h : Placeless p q) :
    Placeless (statementThen p) (statementThen q) :=
  placeless_bind placeless_rawStatement fun _ => placeless_bind h fun _ =>
    placeless_pure (bare_consRaw _ _).symm

theorem placeless_round {n : Nat} (h : ∀ nested, Placeless (scopeItems n nested) (scopeItems n nested))
    (nested : Bool) (production : Option Production) :
    Placeless (round n nested production) (round n nested production) := by
  cases production with
  | none => exact placeless_statementThen (h nested)
  | some production =>
    refine placeless_bind (placeless_attempt (placeless_produce (h true) production)) fun item => ?_
    cases item with
    | none => exact placeless_statementThen (h nested)
    | some item => exact placeless_bind (h nested) fun _ => placeless_pure rfl

/-- A production is called for by what the tokens say. -/
theorem productionAt_bare (c : Context) (s : State) :
    productionAt nowhere (bare s) = productionAt c s := by
  have htoken (distance : Nat) : tokenAt nowhere (bare s).rest distance =
      bare (tokenAt c s.rest distance) := tokenAt_bare c s.rest distance
  have hdeclaration : declarationAt nowhere (bare s) = declarationAt c s := by
    rw [declarationAt, declarationAt, htoken, htoken, name?_bare, name?_bare]
    cases (tokenAt c s.rest 0).name? with
    | none => rfl
    | some name => cases (tokenAt c s.rest 1).name? <;> rfl
  rw [productionAt, productionAt, hdeclaration, htoken]
  rfl

theorem placeless_scopeItems (n : Nat) (nested : Bool) :
    Placeless (scopeItems n nested) (scopeItems n nested) := by
  induction n generalizing nested with
  | zero => exact placeless_fail _
  | succ n ih =>
    intro c s
    have hends : scopeEnds nowhere nested (bare s) = scopeEnds c nested s := by
      have htoken : tokenAt nowhere (bare s).rest 0 = bare (tokenAt c s.rest 0) :=
        tokenAt_bare c s.rest 0
      rw [scopeEnds, scopeEnds, htoken]
      rfl
    rw [scopeItems_succ, scopeItems_succ, hends, productionAt_bare c s]
    split
    · exact ⟨rfl, rfl⟩
    · exact placeless_round ih nested _ c s

theorem placeless_scope : Placeless scope scope :=
  placeless_bind placeless_peek fun _ =>
    placeless_bind (placeless_budgeted fun n => placeless_scopeItems n false) fun _ =>
      placeless_bind (placeless_popKind _ _) fun _ => placeless_pure rfl

end Parser

/-- Wherever its tokens stand, a program is parsed to the same tree, or refused for
    the same cause. -/
theorem parse_bare (builtins lines : List String) (tokens : List Token) (stop : Location) :
    (parse builtins [] (bare tokens) default).result =
      bare (parse builtins lines tokens stop).result :=
  (Parser.placeless_scope ⟨stop, lines⟩ ⟨tokens, .ofBuiltins builtins⟩).1

end Flattener
