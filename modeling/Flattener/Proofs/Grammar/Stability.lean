import Flattener.Proofs.Grammar.Extension

/-!
# Declarations with more tokens behind

Parser by parser: what is read in front of more tokens is what is read without
them, and an error that is not at the end of input stays (`Stable`). What may go
on behind its last token, such as a type with its stars or a row of parameters,
is stable up to a success at the end of input (`always`), and what has an end of
its own without any (`never`).

The spans that are passed through are the same with more tokens behind, unless
they take everything (`stable_spanThen`). Parameters are where a `void` may be
too much for a look ahead (`extended_of_voidAtEnd`).
-/

namespace Flattener.Parser

variable {α β : Type} {c c' : Context} {s s' : State} {more : List Token} {L : α → Prop}

/-! ## Spans -/

theorem initializerSpan_append {stops : List String} {depth : Nat} {tokens : List Token}
    (h : initializerSpan stops depth tokens ≠ tokens) (more : List Token) :
    initializerSpan stops depth (tokens ++ more) = initializerSpan stops depth tokens := by
  induction tokens generalizing depth with
  | nil => exact absurd rfl h
  | cons t rest ih =>
    rw [initializerSpan] at h
    rw [List.cons_append, initializerSpan, initializerSpan]
    split at h
    · next hstop => rw [if_pos hstop, if_pos hstop]
    · next hstop =>
      rw [if_neg hstop, if_neg hstop, ih fun hrest => h (congrArg (t :: ·) hrest)]

theorem statementSpan_append {depth : Nat} {tokens : List Token}
    (h : statementSpan depth tokens ≠ tokens) (more : List Token) :
    statementSpan depth (tokens ++ more) = statementSpan depth tokens := by
  induction tokens generalizing depth with
  | nil => exact absurd rfl h
  | cons t rest ih =>
    rw [statementSpan] at h
    rw [List.cons_append, statementSpan, statementSpan]
    split at h
    · next hclose => rw [if_pos hclose, if_pos hclose]
    next hclose =>
    rw [if_neg hclose, if_neg hclose]
    split at h
    · next hend => rw [if_pos hend, if_pos hend]
    · next hend =>
      rw [if_neg hend, if_neg hend, ih fun hrest => h (congrArg (t :: ·) hrest)]

theorem statementSpan_prefix (depth : Nat) (tokens : List Token) :
    statementSpan depth tokens <+: tokens := by
  induction tokens generalizing depth with
  | nil => exact List.nil_prefix
  | cons t rest ih =>
    rw [statementSpan]
    split
    · exact List.nil_prefix
    · split
      · exact List.cons_prefix_cons.2 ⟨rfl, List.nil_prefix⟩
      · exact List.cons_prefix_cons.2 ⟨rfl, ih _⟩

/-- A parser that takes a span of the tokens and goes on behind it. -/
def spanThen (span : List Token → List Token) (tail : List Token → List Token → Parser α) :
    Parser α := do
  let run ← gets fun _ s => span s.rest
  let tokens ← take run.length
  tail run tokens

theorem spanThen_apply {span : List Token → List Token}
    {tail : List Token → List Token → Parser α} : spanThen span tail c s =
      tail (span s.rest) (s.rest.take (span s.rest).length) c
        ⟨s.rest.drop (span s.rest).length, s.types⟩ := rfl

/-- A span that ends in front of some token ends there also with more tokens
    behind. What goes on behind a span that takes everything has to halt. -/
theorem stable_spanThen {span : List Token → List Token}
    {tail : List Token → List Token → Parser α} (hpart : ∀ tokens, span tokens <+: tokens)
    (hspan : ∀ {tokens}, span tokens ≠ tokens → ∀ more, span (tokens ++ more) = span tokens)
    (hstable : ∀ run tokens, Stable L (tail run tokens))
    (hhalts : ∀ run tokens, Halts L (tail run tokens)) : Stable L (spanThen span tail) := by
  refine ⟨moves_bind (moves_gets _) fun run => moves_bind (moves_take _) fun tokens =>
    (hstable run tokens).moves, fun c c' more s hs => ?_⟩
  rw [spanThen_apply, spanThen_apply]
  by_cases hall : span s.rest = s.rest
  -- a span of everything may go on into the further tokens
  · refine .halted (hhalts _ _ ?_)
    rw [hall]
    exact List.drop_length
  · have hlength : (span s.rest).length ≤ s.rest.length := (hpart s.rest).length_le
    have hreaches : s.Reaches ⟨s.rest.drop (span s.rest).length, s.types⟩ :=
      ⟨List.drop_suffix _ _, [], rfl⟩
    simp only [State.followed, hspan hall, List.take_append_of_le_length hlength,
      List.drop_append_of_le_length hlength]
    exact ((hstable _ _).extended_of_reaches c c' more hs hreaches).congr rfl rfl rfl rfl

theorem stable_initializer (stops : List String) : Stable never (initializer stops) := by
  refine stable_spanThen (fun tokens => initializerSpan_prefix 0 tokens) initializerSpan_append
    (fun _ tokens => ?_) fun _ tokens => ?_
  · cases tokens with
    | nil => exact stable_unexpected _
    | cons first others =>
      refine stable_peek_bind (fun t => moves_ite (moves_pure _) (moves_unexpected _)) (fun t _ =>
        stable_ite (fun _ => stable_pure _) fun _ => stable_unexpected _) fun stop => ?_
      exact halts_unexpected _
  · cases tokens with
    | nil => exact halts_unexpected _
    | cons first others => exact halts_peek_bind fun stop => halts_unexpected _

/-- To ask for the end of input is to look at the next token. -/
theorem atEnd_bind (g : Bool → Parser β) : (atEnd >>= g) = peek >>= fun t => g t.isEnd := rfl

theorem stable_rawStatement : Stable always rawStatement := by
  have hend (tokens : List Token) : Halts always
      (if 0 < finalDepth tokens then unexpected "closing bracket" else pure tokens) := by
    split
    · exact halts_unexpected _
    · exact halts_pure trivial
  refine stable_spanThen (fun tokens => statementSpan_prefix 0 tokens) statementSpan_append
    (fun _ tokens => ?_) fun _ tokens => ?_
  · rw [atEnd_bind]
    refine stable_peek_bind (fun t => ?_) (fun t ht => ?_) fun stop => hend tokens
    · exact moves_ite (moves_ite (moves_unexpected _) (moves_pure _))
        (moves_ite (moves_unexpected _) (moves_pure _))
    · exact stable_ite (fun _ => stable_ite (fun _ => stable_unexpected _) fun _ => stable_pure _)
        fun _ => stable_ite (fun _ => stable_unexpected _) fun _ => stable_pure _
  · rw [atEnd_bind]
    exact halts_peek_bind fun stop => hend tokens

theorem stable_stars : Stable always stars := by
  have hspan {tokens : List Token} (h : tokens.takeWhile (·.isOperator ["*"]) ≠ tokens)
      (more : List Token) : (tokens ++ more).takeWhile (·.isOperator ["*"]) =
        tokens.takeWhile (·.isOperator ["*"]) := by
    rw [List.takeWhile_append, if_neg fun hlength =>
      h ((List.takeWhile_prefix _).eq_of_length hlength)]
  exact stable_spanThen (fun tokens => List.takeWhile_prefix _) hspan
    (fun run _ => stable_pure run.length) fun _ _ => halts_pure trivial

/-! ## Declarations -/

theorem stable_typeRef : Stable always typeRef :=
  stable_then (stable_popName _) fun _ => stable_then (stable_isType _) fun _ =>
    stable_ite (fun _ => stable_bind stable_stars (fun _ => stable_pure _)
      fun _ _ => halts_pure trivial) fun _ => stable_failAt rfl _

theorem halts_typeRef : Halts never typeRef :=
  halts_then (halts_popName _)

theorem stable_declaredName : Stable never declaredName :=
  stable_then (stable_popName _) fun _ => stable_then (stable_isType _) fun _ =>
    stable_ite (fun _ => stable_failAt rfl _) fun _ => stable_pure _

theorem halts_declaredName : Halts never declaredName :=
  halts_then (halts_popName _)

/-- Both an integer and its sign are places inside of the text. -/
theorem stable_unsigned : Stable never unsigned := by
  refine stable_bind (stable_matchOperator _) (fun {c s sign s'} hsign => ?_) fun _ _ =>
    halts_then (popInteger_eq _ ▸ halts_demand blind_integer _)
  refine stable_then (stable_popInteger _) fun _ => ?_
  cases sign with
  | none => exact stable_pure _
  | some sign =>
    obtain ⟨minus, hminus, -, ⟨⟩⟩ | ⟨-, -, hnone⟩ := reads_matchOperator.1 hsign
    · exact stable_ite (fun _ => stable_failAt (Token.isEnd_of_isOperator hminus) _) fun _ => stable_pure _
    · cases hnone

theorem isEnd_of_reads_unsigned {t : Token} {value : Nat}
    (h : unsigned.Reads c s (t, value) s') : t.isEnd = false := by
  simp only [unsigned, reads_bind] at h
  obtain ⟨sign, s₁, -, ⟨token, n⟩, s₂, hn, h⟩ := h
  obtain ⟨⟨spelling, hlexeme⟩, -⟩ := reads_popInteger.1 hn
  have ht : t = token := by
    cases sign with
    | none => exact congrArg Prod.fst (reads_pure.1 h).1
    | some sign =>
      dsimp only at h
      split at h
      · exact absurd h not_reads_failAt
      · exact congrArg Prod.fst (reads_pure.1 h).1
  rw [ht, Token.isEnd, Token.kind, hlexeme]
  rfl

theorem stable_arraySize : Stable always arraySize := by
  refine stable_bind (stable_matchOperator _) (fun _ => stable_ite (fun _ => ?_) fun _ =>
    stable_pure _) ?_
  · refine stable_then stable_unsigned fun {_ _ read _} hread => ?_
    exact stable_ite (fun _ => stable_failAt (isEnd_of_reads_unsigned hread) _) fun _ =>
      stable_then (stable_expectOperator _) fun _ => stable_pure _
  · rintro _ rfl
    exact halts_pure trivial

theorem halts_arraySize : Halts always arraySize := by
  refine halts_bind (halts_matchOperator _) ?_
  rintro _ rfl
  exact halts_pure trivial

/-- What may follow a token need not follow if there is none. -/
theorem halts_optional (found : Option Token) (hfound : found = none) (p : Parser α) (a : α) :
    Halts always (if found.isSome = true then p else pure a) := by
  rw [hfound]
  exact halts_pure trivial

theorem stable_variableTail (type : TypeRef) (name : Name) (stops : List String) :
    Stable always (variableTail type name stops) :=
  stable_bind stable_arraySize (fun _ => stable_bind (stable_matchOperator _) (fun _ => stable_ite
    (fun _ => stable_then (stable_initializer _) fun _ => stable_pure _) fun _ => stable_pure _)
      fun found hfound => halts_optional found hfound _ _)
    fun _ _ => halts_bind (halts_matchOperator _) fun found hfound => halts_optional found hfound _ _

theorem halts_variableTail (type : TypeRef) (name : Name) (stops : List String) :
    Halts always (variableTail type name stops) :=
  halts_bind halts_arraySize fun _ _ =>
    halts_bind (halts_matchOperator _) fun found hfound => halts_optional found hfound _ _

theorem stable_parameter : Stable always parameter :=
  stable_bind stable_typeRef (fun _ => stable_then stable_declaredName fun _ =>
    stable_variableTail _ _ _) fun _ _ => halts_then halts_declaredName

theorem halts_parameter : Halts never parameter :=
  halts_then halts_typeRef

theorem stable_commaList {p : Parser α} (hp : Stable always p) (n : Nat) :
    Stable always (commaList p n) := by
  induction n with
  | zero => exact ⟨moves_fail _, fun _ _ _ _ _ => .halted (.spent rfl)⟩
  | succ n ih =>
    exact stable_bind hp (fun _ => stable_bind (stable_matchOperator _) (fun _ => stable_ite
      (fun _ => stable_bind ih (fun _ => stable_pure _) fun _ _ => halts_pure trivial)
      fun _ => stable_pure _) fun found hfound => halts_optional found hfound _ _)
      fun _ _ => halts_bind (halts_matchOperator _) fun found hfound =>
        halts_optional found hfound _ _

theorem halts_commaList {p : Parser α} (hp : Halts never p) (n : Nat) :
    Halts never (commaList p n) := by
  cases n with
  | zero => exact fun _ => .spent rfl
  | succ n => exact halts_then hp

/-! ### Parameters -/

/-- A sole `void` stands in front of a closing parenthesis. -/
def loneVoidAt (c : Context) (s : State) : Bool :=
  decide ((tokenAt c s.rest 0).lexeme = .identifier "void") && (tokenAt c s.rest 1).isOperator [")"]

theorem isEnd_of_loneVoidAt (h : loneVoidAt c s = true) : (tokenAt c s.rest 0).isEnd = false :=
  Token.isEnd_of_identifier (of_decide_eq_true (Bool.and_eq_true_iff.1 h).1)

theorem parameters_of_close (h : (tokenAt c s.rest 0).isOperator [")"] = true) :
    parameters c s = ⟨.ok [], s, []⟩ := by
  rw [parameters, bind_of_look checkOperator_apply, if_pos h]
  rfl

theorem parameters_of_open (h : (tokenAt c s.rest 0).isOperator [")"] = false) :
    parameters c s = if loneVoidAt c s then ⟨.ok [], ⟨s.rest.tail, s.types⟩, []⟩
      else budgeted (commaList parameter) c s := by
  have hlone : loneVoid c s = ⟨.ok (loneVoidAt c s), s, []⟩ := rfl
  rw [parameters, bind_of_look checkOperator_apply, if_neg (Bool.eq_false_iff.1 h),
    bind_of_look hlone]
  split
  · next hvoid => exact pop_bind_of_inside (isEnd_of_loneVoidAt hvoid) _
  · rfl

theorem stable_parameterRow : Stable always (budgeted (commaList parameter)) :=
  stable_budgeted (stable_commaList stable_parameter) (approximates_commaList _)

theorem halts_parameters : Halts never parameters := by
  intro c s hrest
  have hopen : (tokenAt c s.rest 0).isOperator [")"] = false := by
    rw [hrest]
    rfl
  have hlone : loneVoidAt c s = false := by
    rw [loneVoidAt, hrest]
    rfl
  rw [parameters_of_open hopen, hlone]
  exact halts_budgeted (halts_commaList halts_parameter) hrest

/-- Of a `void` at the end, a parameter is not read: either there is no name for
    it, or it is no type. -/
theorem extended_of_voidAtEnd {opening t : Token} {types : TypeNames}
    {step' : Step (List Variable)} (hopen : opening.isOperator ["("] = true)
    (ht : t.lexeme = .identifier "void") (hs : types.Consistent) :
    Extended always c c' more ⟨[opening, t], types⟩
      (budgeted (commaList parameter) c ⟨[t], types⟩) step' := by
  have hname : t.name? = some ⟨"void", t.location⟩ := by
    rw [Token.name?, ht]
    rfl
  have hpop : popName "type name" c ⟨[t], types⟩ = ⟨.ok ⟨"void", t.location⟩, ⟨[], types⟩, []⟩ := by
    rw [popName_eq]
    exact demand_of_some blind_name hname
  have hpopped : (popName "type name" c ⟨[t], types⟩).result = .ok ⟨"void", t.location⟩ := by
    rw [hpop]
  have hfail {failure : Failure} (h : (parameter c ⟨[t], types⟩).result = .error failure) :
      (budgeted (commaList parameter) c ⟨[t], types⟩).result = .error failure := by
    show ((parameter >>= _) c _).result = _
    rw [bind_of_error h]
  have htypeRef : typeRef c ⟨[t], types⟩ = if types.isType "void" then
      ⟨.ok ⟨⟨"void", t.location⟩, 0, none⟩, ⟨[], types⟩, []⟩
      else failAt (Name.token ⟨"void", t.location⟩) (.unknownType "void") c ⟨[], types⟩ := by
    rw [typeRef, bind_of_ok hpopped, hpop]
    show (ite (types.isType "void" = true) _ _ : Parser TypeRef) c ⟨[], types⟩ = _
    split
    · rfl
    · rfl
  -- as a type, it lacks a name
  cases htype : types.isType "void" with
  | true =>
    rw [htype, if_pos rfl] at htypeRef
    have hparameter : (parameter c ⟨[t], types⟩).result =
        .error (.invalid (endError c "identifier")) := by
      rw [parameter, bind_of_ok (by rw [htypeRef]), htypeRef]
      rfl
    exact .halted (.ended (hfail hparameter))
  | false =>
    rw [htype, if_neg Bool.false_ne_true] at htypeRef
    have hparameter : (parameter c ⟨[t], types⟩).result = .error (.invalid (errorAt c
        (Name.token ⟨"void", t.location⟩) (.unknownType "void"))) := by
      rw [parameter, bind_of_error (by rw [htypeRef]; rfl)]
    refine .spoiled (hfail hparameter) ⟨fun hmem => ?_, rfl, rfl, [], opening, t, rfl, hopen, ht, rfl⟩
    exact (TypeNames.isType_eq_false_iff hs _).1 htype (List.mem_append_left _ hmem)

theorem moves_parameters : parameters.Moves :=
  moves_bind (moves_checkOperator _) fun _ => moves_ite (moves_pure _) <|
    moves_bind (moves_gets _) fun _ => moves_ite (moves_bind moves_pop fun _ => moves_pure _)
      (moves_budgeted (moves_commaList stable_parameter.moves))

/-- Parameters, seen from the parenthesis in front of them. -/
theorem extended_parameters {opening : Token} (hopen : opening.isOperator ["("] = true)
    (hs : Proper ⟨opening :: s.rest, s.types⟩) :
    Extended always c c' more ⟨opening :: s.rest, s.types⟩ (parameters c s)
      (parameters c' (s.followed more)) := by
  have hreaches : State.Reaches ⟨opening :: s.rest, s.types⟩ s := ⟨⟨[opening], rfl⟩, [], rfl⟩
  have hrow := stable_parameterRow.extended_of_reaches c c' more hs hreaches
  obtain ⟨rest, types⟩ := s
  cases rest with
  | nil => exact .halted ((halts_parameters rfl).weaken fun _ => False.elim)
  | cons t rest =>
    cases hclose : t.isOperator [")"] with
    | true =>
      rw [parameters_of_close (s := ⟨t :: rest, types⟩) hclose,
        parameters_of_close (s := State.followed ⟨t :: rest, types⟩ more) hclose]
      exact .read rfl rfl rfl
    | false =>
      rw [parameters_of_open (s := ⟨t :: rest, types⟩) hclose,
        parameters_of_open (s := State.followed ⟨t :: rest, types⟩ more) hclose]
      -- the parenthesis behind a sole `void` is the second token
      cases rest with
      | nil =>
        have hlone : loneVoidAt c ⟨[t], types⟩ = false := Bool.and_false _
        rw [hlone, if_neg Bool.false_ne_true]
        by_cases hvoid : t.lexeme = .identifier "void"
        · exact extended_of_voidAtEnd hopen hvoid hs.consistent
        · have hlone' : loneVoidAt c' (State.followed ⟨[t], types⟩ more) = false :=
            Bool.and_eq_false_iff.2 (.inl (decide_eq_false hvoid))
          rw [hlone', if_neg Bool.false_ne_true]
          exact hrow
      | cons next rest =>
        have hlone : loneVoidAt c' (State.followed ⟨t :: next :: rest, types⟩ more) =
          loneVoidAt c ⟨t :: next :: rest, types⟩ := rfl
        rw [hlone]
        cases loneVoidAt c ⟨t :: next :: rest, types⟩ with
        | true => exact .read rfl rfl rfl
        | false => exact hrow

/-- The parenthesis is still in sight where a `void` is refused behind it. -/
theorem stable_parameterList : Stable never parameterList := by
  have htail (list : List Variable) : Stable never (do
      let _ ← expectOperator ")"
      return list) := stable_then (stable_expectOperator _) fun _ => stable_pure _
  refine ⟨moves_bind (stable_expectOperator _).moves fun _ =>
    moves_bind moves_parameters fun list => (htail list).moves, fun c c' more s hs => ?_⟩
  refine extended_bind ((stable_expectOperator "(").extended c c' more hs)
    (fun {opening s'} hread => ?_) fun _ => False.elim
  obtain ⟨hopen, rfl⟩ := reads_expectOperator.1 hread
  refine extended_bind (extended_parameters hopen hs) (fun {list behind} hlist => ?_)
    fun _ _ => halts_then (halts_expectOperator _)
  have hmoved : s'.Reaches behind := hlist.2 ▸ moves_parameters c s' hs.consistent
  have hreaches : State.Reaches ⟨opening :: s'.rest, s'.types⟩ s' := ⟨⟨[opening], rfl⟩, [], rfl⟩
  exact (htail list).extended_of_reaches c c' more hs (hreaches.trans hmoved)

/-! ### Whole declarations -/

theorem stable_functionTail (returns : TypeRef) (name : Name) (isMethod : Bool) :
    Stable never (functionTail returns name isMethod) := by
  rw [functionTail_eq]
  refine stable_then stable_parameterList fun {_ _ list _} _ => ?_
  have htail : Stable never (do
      let _ ← expectOperator ";"
      return (⟨name, returns, list⟩ : Signature)) :=
    stable_then (stable_expectOperator _) fun _ => stable_pure _
  refine stable_peek_bind (fun t => moves_ite (moves_failAt _ _) htail.moves)
    (fun t ht => stable_ite (fun _ => stable_failAt ht _) fun _ => htail) fun stop => ?_
  -- the end of input is no brace
  rw [show (Token.ending stop).isOperator [openBrace] = false from rfl, Bool.and_false]
  exact halts_then (halts_expectOperator _)

theorem stable_variableEnd (type : TypeRef) (name : Name) : Stable never (variableEnd type name) :=
  stable_bind (stable_variableTail _ _ _)
    (fun _ => stable_then (stable_expectOperator _) fun _ => stable_pure _)
    fun _ _ => halts_then (halts_expectOperator _)

theorem halts_variableEnd (type : TypeRef) (name : Name) : Halts never (variableEnd type name) :=
  halts_bind (halts_variableTail _ _ _) fun _ _ => halts_then (halts_expectOperator _)

theorem stable_variableDecl : Stable never variableDecl :=
  stable_bind stable_typeRef (fun _ => stable_then stable_declaredName fun _ =>
    stable_variableEnd _ _) fun _ _ => halts_then halts_declaredName

theorem halts_variableDecl : Halts never variableDecl :=
  halts_then halts_typeRef

theorem stable_declaration (isMember : Bool) : Stable never (declaration isMember) := by
  refine stable_bind stable_typeRef (fun {_ _ type _} _ => ?_) fun _ _ =>
    halts_then halts_declaredName
  refine stable_then stable_declaredName fun {_ _ name _} _ => ?_
  refine stable_bind (stable_checkOperator _) (fun _ => stable_ite
    (fun _ => stable_map (stable_functionTail _ _ _) fun _ => False.elim)
    fun _ => stable_map (stable_variableEnd _ _) fun _ => False.elim) ?_
  rintro _ rfl
  exact halts_map (halts_variableEnd type name) fun _ => False.elim

theorem halts_declaration (isMember : Bool) : Halts never (declaration isMember) :=
  halts_then halts_typeRef

theorem stable_functionPointer : Stable never functionPointer :=
  stable_then (stable_expectKeyword _) fun _ => stable_bind stable_typeRef
    (fun _ => stable_then (stable_expectOperator _) fun _ =>
      stable_then (stable_expectOperator _) fun _ => stable_then stable_declaredName fun _ =>
        stable_then (stable_expectOperator _) fun _ => stable_then stable_parameterList fun _ =>
          stable_then (stable_expectOperator _) fun _ => stable_pure _)
    fun _ _ => halts_then (halts_expectOperator _)

/-! ## Structs and classes -/

theorem stable_member {p : Parser α} (hp : Stable never p) (hhalts : Halts never p) :
    Stable never (member p) := by
  refine stable_peek_bind (fun t => ?_) (fun t ht => ?_) fun stop => ?_
  · exact moves_ite (moves_failAt _ _)
      (moves_ite (moves_map moves_functionPointer) (moves_map hp.moves))
  · exact stable_ite (fun _ => stable_failAt ht _) fun _ => stable_ite
      (fun _ => stable_map stable_functionPointer fun _ => False.elim)
      fun _ => stable_map hp fun _ => False.elim
  · exact halts_map hhalts fun _ => False.elim

theorem halts_member {p : Parser α} (hhalts : Halts never p) : Halts never (member p) :=
  halts_peek_bind fun _ => halts_map hhalts fun _ => False.elim

theorem stable_structMembers (n : Nat) : Stable never (structMembers n) := by
  have hmember : Stable never structMember := by
    refine stable_then (stable_member stable_variableDecl halts_variableDecl) fun {_ _ found _} _ => ?_
    cases found <;> exact stable_pure _
  induction n with
  | zero => exact ⟨moves_fail _, fun _ _ _ _ _ => .halted (.spent rfl)⟩
  | succ n ih =>
    refine stable_bind (stable_checkOperator _) (fun _ => stable_ite (fun _ => stable_pure _)
      fun _ => stable_then hmember fun _ => stable_then ih fun _ => stable_pure _) ?_
    rintro _ rfl
    exact halts_then (halts_then (halts_member halts_variableDecl))

theorem stable_classMembers (n : Nat) (access : Access) : Stable never (classMembers n access) := by
  have hmember (access : Access) : Stable never (classMember access) := by
    refine stable_then (stable_member (stable_declaration _) (halts_declaration _))
      fun {_ _ found _} _ => ?_
    obtain _ | _ | _ := found <;> exact stable_pure _
  have hhalts (access : Access) : Halts never (classMember access) :=
    halts_then (halts_member (halts_declaration _))
  induction n generalizing access with
  | zero => exact ⟨moves_fail _, fun _ _ _ _ _ => .halted (.spent rfl)⟩
  | succ n ih =>
    rw [classMembers_succ]
    refine stable_bind (stable_checkOperator _) (fun _ => stable_ite (fun _ => stable_pure _)
      fun _ => ?_) ?_
    · refine stable_bind (stable_accept blind_label) (fun {_ _ label _} _ => ?_) ?_
      · cases label with
        | some label => exact stable_then (stable_expectOperator _) fun _ => ih _
        | none =>
          exact stable_bind (stable_matchKeyword _) (fun _ => stable_then (hmember _) fun _ =>
            stable_then (ih _) fun _ => stable_pure _) fun _ _ => halts_then (hhalts _)
      · rintro _ rfl
        exact halts_bind (halts_matchKeyword _) fun _ _ => halts_then (hhalts _)
    · rintro _ rfl
      refine halts_bind (halts_accept blind_label) ?_
      rintro _ rfl
      exact halts_bind (halts_matchKeyword _) fun _ _ => halts_then (hhalts _)

theorem stable_structDecl : Stable never structDecl := by
  refine stable_then (stable_expectKeyword _) fun _ => stable_then (stable_register _)
    fun {_ _ name _} _ => ?_
  refine stable_bind (stable_matchOperator _) (fun _ => stable_ite (fun _ => stable_pure _)
    fun _ => ?_) ?_
  · exact stable_then (stable_expectOperator _) fun _ =>
      stable_then (stable_budgeted stable_structMembers approximates_structMembers) fun _ =>
        stable_then (stable_expectOperator _) fun _ => stable_then (stable_expectOperator _)
          fun _ => stable_pure _
  · rintro _ rfl
    exact halts_then (halts_expectOperator _)

theorem stable_classDecl : Stable never classDecl := by
  have htraits : Stable always traits := by
    have htrait : Stable always trait :=
      stable_then (stable_popName _) fun _ => stable_pure _
    refine stable_bind (stable_matchOperator _) (fun _ => stable_ite (fun _ =>
      stable_budgeted (stable_commaList htrait) (approximates_commaList _)) fun _ => stable_pure _) ?_
    rintro _ rfl
    exact halts_pure trivial
  have hhalts : Halts always traits := by
    refine halts_bind (halts_matchOperator _) ?_
    rintro _ rfl
    exact halts_pure trivial
  refine stable_then (stable_expectKeyword _) fun _ => stable_then (stable_register _)
    fun {_ _ name _} _ => ?_
  refine stable_bind (stable_matchOperator _) (fun _ => stable_ite (fun _ => stable_pure _)
    fun _ => ?_) ?_
  · refine stable_bind htraits (fun _ => ?_) fun _ _ => halts_then (halts_expectOperator _)
    exact stable_then (stable_expectOperator _) fun _ =>
      stable_then (stable_budgeted (fun n => stable_classMembers n _) fun n =>
        approximates_classMembers n _) fun _ => stable_then (stable_expectOperator _) fun _ =>
          stable_then (stable_expectOperator _) fun _ => stable_pure _
  · rintro _ rfl
    exact halts_bind hhalts fun _ _ => halts_then (halts_expectOperator _)

end Flattener.Parser
