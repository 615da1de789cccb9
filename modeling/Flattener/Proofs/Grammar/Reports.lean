import Flattener.Proofs.Grammar.Cursor
import Flattener.Proofs.Grammar.Faults

/-!
# Errors are reported at tokens

Whatever is wrong with tokens is found at one of them, or at the end of input behind
them: the error has the place of that token, and the line with the number of that
place is shown below it (`ShownAt`). This goes parser by parser, along their
definitions (`Parser.Reports`). For a whole program it is `shownAt_of_parse`.
-/

namespace Flattener

/-- The error is one at a token of the list, or at the end of input behind it. -/
def ShownAt (c : Context) (tokens : List Token) (e : SyntaxError) : Prop :=
  ∃ t ∈ tokens ++ [.ending c.stop], e = Parser.errorAt c t e.cause

namespace Parser

variable {α β : Type} {c : Context} {tokens : List Token} {s s' : State}

/-- On tokens at the end of the list, the parser finds errors at tokens of the list. -/
structure Reports (c : Context) (tokens : List Token) (p : Parser α) : Prop where
  moves : p.Moves
  shown : ∀ {s : State} {e : SyntaxError}, s.types.Consistent → s.rest <:+ tokens →
    (p c s).result = .error (.invalid e) → ShownAt c tokens e

/-- The next token is one of the list, or the end of input behind it. -/
theorem tokenAt_mem (hs : s.rest <:+ tokens) : tokenAt c s.rest 0 ∈ tokens ++ [.ending c.stop] := by
  obtain ⟨place, -, -, hplace⟩ := onToken_of_suffix (c := c) hs
  exact List.mem_of_getElem? hplace

/-! ## Combinations -/

theorem reports_pure (a : α) : Reports c tokens (pure a) :=
  ⟨moves_pure a, fun _ _ => nofun⟩

theorem reports_gets (f : Context → State → α) : Reports c tokens (gets f) :=
  ⟨moves_gets f, fun _ _ => nofun⟩

/-- The second parser may report what the first one has read. -/
theorem reports_bind {p : Parser α} {f : α → Parser β} (hmoves : (p >>= f).Moves)
    (hp : Reports c tokens p) (hf : ∀ {s a s'}, s.rest <:+ tokens → p.Reads c s a s' →
      Reports c tokens (f a)) : Reports c tokens (p >>= f) := by
  refine ⟨hmoves, fun {s e} hs htokens h => ?_⟩
  rcases hresult : (p c s).result with failure | a
  · rw [bind_of_error hresult] at h
    cases h
    exact hp.shown hs htokens hresult
  · have hreaches := hp.moves c s hs
    rw [bind_of_ok hresult] at h
    exact (hf htokens ⟨hresult, rfl⟩).shown (hreaches.consistent hs) (hreaches.1.trans htokens) h

/-- The second parser reports what it finds by itself. -/
theorem reports_then {p : Parser α} {f : α → Parser β} (hp : Reports c tokens p)
    (hf : ∀ a, Reports c tokens (f a)) : Reports c tokens (p >>= f) :=
  reports_bind (moves_bind hp.moves fun a => (hf a).moves) hp fun {_ a _} _ _ => hf a

theorem reports_map {p : Parser α} (f : α → β) (hp : Reports c tokens p) :
    Reports c tokens (f <$> p) := by
  rw [← bind_pure_comp]
  exact reports_then hp fun a => reports_pure _

theorem reports_ite {b : Prop} [Decidable b] {p q : Parser α} (hp : Reports c tokens p)
    (hq : Reports c tokens q) : Reports c tokens (if b then p else q) := by
  split
  · exact hp
  · exact hq

/-- To run out of rounds is no error of the source. -/
theorem reports_exhausted : Reports c tokens (fail (.misuse .exhausted) : Parser α) :=
  ⟨moves_fail _, fun _ _ => nofun⟩

theorem reports_budgeted {p : Nat → Parser α} (hp : ∀ n, Reports c tokens (p n)) :
    Reports c tokens (budgeted p) :=
  ⟨moves_budgeted fun n => (hp n).moves, fun hs htokens => (hp _).shown hs htokens⟩

/-! ## One token -/

theorem reports_failAt {t : Token} (ht : t ∈ tokens ++ [.ending c.stop]) (cause : Cause) :
    Reports c tokens (failAt t cause : Parser α) := by
  refine ⟨moves_failAt t cause, fun {s e} _ _ h => ?_⟩
  cases h
  exact ⟨t, ht, rfl⟩

/-- The token at hand is one that can be reported. -/
theorem reports_peek_bind {f : Token → Parser α} (hmoves : (peek >>= f).Moves)
    (hf : ∀ t ∈ tokens ++ [.ending c.stop], Reports c tokens (f t)) :
    Reports c tokens (peek >>= f) := by
  refine reports_bind hmoves (reports_gets _) fun {s t s'} htokens hpeek => hf t ?_
  rw [(reads_peek.1 hpeek).1]
  exact tokenAt_mem htokens

theorem reports_pop : Reports c tokens pop :=
  ⟨moves_pop, fun _ _ => nofun⟩

theorem reports_take (n : Nat) : Reports c tokens (take n) :=
  ⟨moves_take n, fun _ _ => nofun⟩

theorem reports_unexpected (expected : String) :
    Reports c tokens (unexpected expected : Parser α) :=
  reports_peek_bind (moves_unexpected _) fun _ ht => reports_failAt ht _

theorem reports_atEnd : Reports c tokens atEnd :=
  reports_then (reports_gets _) fun _ => reports_pure _

theorem reports_demand (view : Token → Option α) (expected : String) :
    Reports c tokens (demand view expected) := by
  refine reports_then (reports_gets _) fun t => ?_
  split
  · exact reports_then reports_pop fun _ => reports_pure _
  · exact reports_unexpected _

theorem reports_accept (view : Token → Option α) : Reports c tokens (accept view) := by
  refine reports_then (reports_gets _) fun t => ?_
  split
  · exact reports_then reports_pop fun _ => reports_pure _
  · exact reports_pure _

theorem reports_popName (expected : String) : Reports c tokens (popName expected) :=
  popName_eq expected ▸ reports_demand _ _

theorem reports_expectOperator (spelling : String) : Reports c tokens (expectOperator spelling) :=
  expectOperator_eq spelling ▸ reports_demand _ _

theorem reports_expectKeyword (name : String) : Reports c tokens (expectKeyword name) :=
  expectKeyword_eq name ▸ reports_demand _ _

theorem reports_matchOperator (spelling : String) : Reports c tokens (matchOperator spelling) :=
  matchOperator_eq spelling ▸ reports_accept _

theorem reports_checkOperator (spelling : String) : Reports c tokens (checkOperator spelling) :=
  reports_then (reports_gets _) fun _ => reports_pure _

theorem reports_register (expected : String) : Reports c tokens (register expected) :=
  reports_then (reports_popName _) fun name =>
    ⟨fun _ s _ => ⟨List.suffix_refl s.rest, [name.text], rfl⟩, fun _ _ => nofun⟩

/-- A name that was read can be reported. -/
theorem reports_popName_bind {expected : String} {f : Name → Parser α}
    (hmoves : (popName expected >>= f).Moves)
    (hf : ∀ name : Name, name.token ∈ tokens ++ [.ending c.stop] → Reports c tokens (f name)) :
    Reports c tokens (popName expected >>= f) := by
  refine reports_bind hmoves (reports_popName _) fun {s name s'} htokens hname => hf name ?_
  obtain ⟨-, rfl⟩ := reads_popName.1 hname
  exact List.mem_append_left _ (htokens.subset List.mem_cons_self)

theorem reports_commaList {p : Parser α} (hp : Reports c tokens p) (n : Nat) :
    Reports c tokens (commaList p n) := by
  induction n with
  | zero => exact reports_exhausted
  | succ n ih =>
    exact reports_then hp fun _ => reports_then (reports_matchOperator _) fun _ =>
      reports_ite (reports_then ih fun _ => reports_pure _) (reports_pure _)

/-! ## Declarations -/

theorem reports_typeRef : Reports c tokens typeRef := by
  have hstars : Reports c tokens stars :=
    reports_then (reports_gets _) fun _ => reports_then (reports_take _) fun _ => reports_pure _
  exact reports_popName_bind moves_typeRef fun name hname => reports_then (reports_gets _) fun _ =>
    reports_ite (reports_then hstars fun _ => reports_pure _) (reports_failAt hname _)

theorem reports_declaredName : Reports c tokens declaredName :=
  reports_popName_bind moves_declaredName fun _ hname => reports_then (reports_gets _) fun _ =>
    reports_ite (reports_failAt hname _) (reports_pure _)

/-- A sign in front of an integer can be reported. -/
theorem reports_unsigned : Reports c tokens unsigned := by
  refine reports_bind moves_unsigned (reports_matchOperator _) fun {s sign s'} htokens hsign =>
    reports_then (popInteger_eq _ ▸ reports_demand _ _) fun _ => ?_
  rcases reads_matchOperator.1 hsign with ⟨t, -, rfl, rfl⟩ | ⟨-, -, rfl⟩
  · have ht := List.mem_append_left [.ending c.stop] (htokens.subset List.mem_cons_self)
    exact reports_ite (reports_failAt ht _) (reports_pure _)
  · exact reports_pure _

/-- The integer that was read can be reported. -/
theorem reports_arraySize : Reports c tokens arraySize := by
  have hmoves (found : Token × Nat) : (if found.2 = 0 then failAt found.1 .emptyArray else do
      let _ ← expectOperator "]"
      return some found.2 : Parser (Option Nat)).Moves :=
    moves_ite (moves_failAt _ _) (moves_bind (moves_expectOperator _) fun _ => moves_pure _)
  refine reports_then (reports_matchOperator _) fun _ => reports_ite ?_ (reports_pure _)
  refine reports_bind (moves_bind moves_unsigned hmoves) reports_unsigned
    fun {s found s'} htokens hfound => ?_
  obtain ⟨place, -, hplace⟩ := getElem?_of_reads_unsigned hfound htokens
  exact reports_ite (reports_failAt (List.mem_append_left _ (List.mem_of_getElem? hplace)) _)
    (reports_then (reports_expectOperator _) fun _ => reports_pure _)

theorem reports_initializer (stops : List String) : Reports c tokens (initializer stops) := by
  refine reports_then (reports_gets _) fun _ => reports_then (reports_take _) fun run => ?_
  split
  · exact reports_then (reports_gets _) fun _ =>
      reports_ite (reports_pure _) (reports_unexpected _)
  · exact reports_unexpected _

theorem reports_variableTail (type : TypeRef) (name : Name) (stops : List String) :
    Reports c tokens (variableTail type name stops) :=
  reports_then reports_arraySize fun _ => reports_then (reports_matchOperator _) fun _ =>
    reports_ite (reports_then (reports_initializer _) fun _ => reports_pure _) (reports_pure _)

theorem reports_parameterList : Reports c tokens parameterList := by
  have hparameter : Reports c tokens parameter :=
    reports_then reports_typeRef fun _ => reports_then reports_declaredName fun _ =>
      reports_variableTail _ _ _
  have hparameters : Reports c tokens parameters :=
    reports_then (reports_checkOperator _) fun _ => reports_ite (reports_pure _) <|
      reports_then (reports_gets _) fun _ =>
        reports_ite (reports_then reports_pop fun _ => reports_pure _)
          (reports_budgeted (reports_commaList hparameter))
  exact reports_then (reports_expectOperator _) fun _ => reports_then hparameters fun _ =>
    reports_then (reports_expectOperator _) fun _ => reports_pure _

theorem reports_functionTail (returns : TypeRef) (name : Name) (isMethod : Bool) :
    Reports c tokens (functionTail returns name isMethod) :=
  reports_then reports_parameterList fun _ => reports_then (reports_checkOperator _) fun _ =>
    reports_ite
      (reports_peek_bind (moves_bind moves_peek fun _ => moves_failAt _ _) fun _ ht =>
        reports_failAt ht _)
      (reports_then (reports_expectOperator _) fun _ => reports_pure _)

theorem reports_variableEnd (type : TypeRef) (name : Name) :
    Reports c tokens (variableEnd type name) :=
  reports_then (reports_variableTail _ _ _) fun _ =>
    reports_then (reports_expectOperator _) fun _ => reports_pure _

theorem reports_variableDecl : Reports c tokens variableDecl :=
  reports_then reports_typeRef fun _ => reports_then reports_declaredName fun _ =>
    reports_variableEnd _ _

theorem reports_declaration (isMember : Bool) : Reports c tokens (declaration isMember) :=
  reports_then reports_typeRef fun _ => reports_then reports_declaredName fun _ =>
    reports_then (reports_checkOperator _) fun _ =>
      reports_ite (reports_map _ (reports_functionTail _ _ _))
        (reports_map _ (reports_variableEnd _ _))

theorem reports_functionPointer : Reports c tokens functionPointer :=
  reports_then (reports_expectKeyword _) fun _ => reports_then reports_typeRef fun _ =>
    reports_then (reports_expectOperator _) fun _ => reports_then (reports_expectOperator _)
      fun _ => reports_then reports_declaredName fun _ =>
        reports_then (reports_expectOperator _) fun _ => reports_then reports_parameterList
          fun _ => reports_then (reports_expectOperator _) fun _ => reports_pure _

/-! ## Structs and classes -/

theorem reports_member {p : Parser α} (hp : Reports c tokens p) : Reports c tokens (member p) :=
  reports_peek_bind (moves_member hp.moves) fun _ ht =>
    reports_ite (reports_failAt ht _)
      (reports_ite (reports_map _ reports_functionPointer) (reports_map _ hp))

theorem reports_structMembers (n : Nat) : Reports c tokens (structMembers n) := by
  have hmember : Reports c tokens structMember := by
    refine reports_then (reports_member reports_variableDecl) fun found => ?_
    split <;> exact reports_pure _
  induction n with
  | zero => exact reports_exhausted
  | succ n ih =>
    exact reports_then (reports_checkOperator _) fun _ => reports_ite (reports_pure _) <|
      reports_then hmember fun _ => reports_then ih fun _ => reports_pure _

theorem reports_classMembers (n : Nat) (access : Access) :
    Reports c tokens (classMembers n access) := by
  have hmember (access : Access) : Reports c tokens (classMember access) := by
    refine reports_then (reports_member (reports_declaration _)) fun found => ?_
    split <;> exact reports_pure _
  induction n generalizing access with
  | zero => exact reports_exhausted
  | succ n ih =>
    rw [classMembers_succ]
    refine reports_then (reports_checkOperator _) fun _ => reports_ite (reports_pure _) ?_
    refine reports_then (reports_accept _) fun label => ?_
    cases label with
    | some label => exact reports_then (reports_expectOperator _) fun _ => ih _
    | none =>
      exact reports_then (matchKeyword_eq _ ▸ reports_accept _) fun _ =>
        reports_then (hmember _) fun _ => reports_then (ih _) fun _ => reports_pure _

theorem reports_structDecl : Reports c tokens structDecl :=
  reports_then (reports_expectKeyword _) fun _ => reports_then (reports_register _) fun _ =>
    reports_then (reports_matchOperator _) fun _ => reports_ite (reports_pure _) <|
      reports_then (reports_expectOperator _) fun _ =>
        reports_then (reports_budgeted reports_structMembers) fun _ =>
          reports_then (reports_expectOperator _) fun _ =>
            reports_then (reports_expectOperator _) fun _ => reports_pure _

theorem reports_classDecl : Reports c tokens classDecl := by
  have htrait : Reports c tokens trait := reports_then (reports_popName _) fun _ => reports_pure _
  have htraits : Reports c tokens traits :=
    reports_then (reports_matchOperator _) fun _ =>
      reports_ite (reports_budgeted (reports_commaList htrait)) (reports_pure _)
  exact reports_then (reports_expectKeyword _) fun _ => reports_then (reports_register _) fun _ =>
    reports_then (reports_matchOperator _) fun _ => reports_ite (reports_pure _) <|
      reports_then htraits fun _ => reports_then (reports_expectOperator _) fun _ =>
        reports_then (reports_budgeted fun n => reports_classMembers n _) fun _ =>
          reports_then (reports_expectOperator _) fun _ =>
            reports_then (reports_expectOperator _) fun _ => reports_pure _

/-! ## Scopes -/

/-- An error of a trial is one of the production. -/
theorem reports_attempt {p : Parser α} (hp : Reports c tokens p) : Reports c tokens (attempt p) := by
  refine ⟨moves_attempt hp.moves, fun {s e} hs htokens h => ?_⟩
  rcases attempt_cases (c := c) hp.moves hs with ⟨a, -, hstep, -⟩ | ⟨failure, -, -, hstep, -⟩ |
    ⟨failure, htried, -, hstep, -⟩
  · cases h.symm.trans hstep
  · cases h.symm.trans hstep
  · cases h.symm.trans hstep
    exact hp.shown hs htokens htried

theorem reports_produce {body : Parser (List Item)} (hbody : Reports c tokens body)
    (production : Production) : Reports c tokens (produce body production) := by
  cases production with
  | namespaceDecl =>
    exact reports_then (reports_expectKeyword _) fun _ => reports_then (reports_popName _) fun _ =>
      reports_then (reports_expectOperator _) fun _ => reports_then hbody fun _ =>
        reports_then (reports_expectOperator _) fun _ => reports_pure _
  | classDecl => exact reports_map _ reports_classDecl
  | structDecl => exact reports_map _ reports_structDecl
  | declaration =>
    refine reports_then (reports_declaration _) fun declared => ?_
    split <;> exact reports_pure _

theorem reports_statementThen {others : Parser (List Item)} (hothers : Reports c tokens others) :
    Reports c tokens (statementThen others) := by
  have hstatement : Reports c tokens rawStatement :=
    reports_then (reports_gets _) fun _ => reports_then (reports_take _) fun _ =>
      reports_then reports_atEnd fun _ =>
        reports_ite (reports_ite (reports_unexpected _) (reports_pure _))
          (reports_ite (reports_unexpected _) (reports_pure _))
  exact reports_then hstatement fun _ => reports_then hothers fun _ => reports_pure _

theorem reports_round {n : Nat} (h : ∀ nested, Reports c tokens (scopeItems n nested))
    (nested : Bool) (production : Option Production) :
    Reports c tokens (round n nested production) := by
  cases production with
  | none => exact reports_statementThen (h nested)
  | some production =>
    refine reports_then (reports_attempt (reports_produce (h true) production)) fun item => ?_
    cases item with
    | none => exact reports_statementThen (h nested)
    | some item => exact reports_then (h nested) fun _ => reports_pure _

theorem reports_scopeItems (n : Nat) (nested : Bool) :
    Reports c tokens (scopeItems n nested) := by
  induction n generalizing nested with
  | zero => exact reports_exhausted
  | succ n ih =>
    refine ⟨moves_scopeItems _ _, fun {s e} hs htokens h => ?_⟩
    rw [scopeItems_succ] at h
    split at h
    · cases h
    · exact (reports_round ih nested _).shown hs htokens h

end Parser

/-- The error of a program is one at its tokens. -/
theorem shownAt_of_parse {builtins lines : List String} {tokens : List Token} {stop : Location}
    {e : SyntaxError} (h : (parse builtins lines tokens stop).result = .error (.invalid e)) :
    ShownAt ⟨stop, lines⟩ tokens e := by
  have hend (expected : String) :
      Parser.Reports ⟨stop, lines⟩ tokens (Parser.popKind .endOfInput expected) :=
    Parser.reports_then (Parser.reports_gets _) fun _ =>
      Parser.reports_ite Parser.reports_pop (Parser.reports_unexpected _)
  have hscope : Parser.Reports ⟨stop, lines⟩ tokens Parser.scope :=
    Parser.reports_then (Parser.reports_gets _) fun _ =>
      Parser.reports_then (Parser.reports_budgeted fun n => Parser.reports_scopeItems n false)
        fun _ => Parser.reports_then (hend _) fun _ => Parser.reports_pure _
  exact hscope.shown (TypeNames.consistent_ofBuiltins builtins) (List.suffix_refl tokens) h

end Flattener
