import Flattener.Proofs.Grammar.Breaking
import Flattener.Proofs.Grammar.Trials

/-!
# Declarations that break off

Parser by parser: how many brackets are open behind what is read, and that there
is a way out at the end of input (`Counts`). This is said inside of brackets,
where no semicolon ends a statement. Outside of them it does not hold of
everything: an initializer takes in the way out and is finished by it, and a
struct or class that lacks only its semicolon is a whole statement. What holds of
a production there is that it settles (`Settles`): with some way out behind the
tokens, it is given up and the tokens can be passed through, or it reads them.
-/

namespace Flattener.Parser

variable {α β : Type} {c : Context} {s s₁ : State} {before : Nat}

/-! ## Declarations -/

theorem counts_typeRef : Balances before typeRef :=
  counts_bind (counts_popName _) fun _ => counts_bind (counts_isType _) fun _ =>
    counts_ite (fun _ => counts_bind counts_stars fun _ => counts_pure rfl)
      fun _ => counts_failAt rfl _

theorem counts_declaredName : Balances before declaredName :=
  counts_bind (counts_popName _) fun _ => counts_bind (counts_isType _) fun _ =>
    counts_ite (fun _ => counts_failAt rfl _) fun _ => counts_pure rfl

theorem counts_unsigned : Balances before unsigned := by
  refine counts_bind (counts_matchOperator_of_plain (by decide)) fun {c s sign s'} hread => ?_
  refine counts_bind (counts_popInteger _) fun _ => ?_
  cases sign with
  | none => exact counts_pure rfl
  | some sign =>
    -- the sign is a token of the list
    obtain ⟨minus, hminus, -, ⟨⟩⟩ | ⟨-, -, hnone⟩ := reads_matchOperator.1 hread
    · exact counts_ite (fun _ => counts_failAt (Token.isEnd_of_isOperator hminus) _) fun _ =>
        counts_pure rfl
    · cases hnone

theorem counts_arraySize : Balances before arraySize :=
  counts_ifMatched (openDepth_of_opener · (by decide) _)
    (counts_bind counts_unsigned fun {_ _ read _} hread =>
      counts_ite (fun _ => counts_failAt (isEnd_of_reads_unsigned hread) _) fun _ =>
        counts_bind (counts_expectOperator (openDepth_of_closer · (by decide) _)) fun _ =>
          counts_pure rfl)
    (counts_pure rfl)

theorem counts_variableTail {stops : List String} (hstops : closingBracket.isOperator stops = false)
    (type : TypeRef) (name : Name) (depth : Nat) :
    Balances (depth + 1) (variableTail type name stops) :=
  counts_bind counts_arraySize fun _ => counts_ifMatched
    (openDepth_of_plain_operator · (by decide) _)
    (counts_bind (counts_initializer hstops depth) fun _ => counts_pure rfl) (counts_pure rfl)

theorem counts_commaList {p : Parser α} (hp : Balances before p) (n : Nat) :
    Balances before (commaList p n) := by
  induction n with
  | zero => exact counts_exhausted
  | succ n ih =>
    exact counts_bind hp fun _ => counts_ifMatched (openDepth_of_plain_operator · (by decide) _)
      (counts_bind ih fun _ => counts_pure rfl) (counts_pure rfl)

/-- A literal is no parenthesis that closes. -/
theorem loneVoidAt_followed (c c' : Context) (s : State) (more : List Token) :
    loneVoidAt c' (s.followed (filler :: more)) = loneVoidAt c s := by
  obtain ⟨rest, types⟩ := s
  match rest with
  | [] => rfl
  | [t] => exact (Bool.and_false _).trans (Bool.and_false _).symm
  | t :: next :: rest => rfl

/-- A sole `void`, which is consumed if it is there. -/
def skipLoneVoid : Parser Bool := do
  if ← loneVoid then
    let _ ← pop
    return true
  else return false

theorem skipLoneVoid_apply : skipLoneVoid c s =
    if loneVoidAt c s then ⟨.ok true, ⟨s.rest.tail, s.types⟩, []⟩ else ⟨.ok false, s, []⟩ := by
  have hlook : loneVoid c s = ⟨.ok (loneVoidAt c s), s, []⟩ := rfl
  rw [skipLoneVoid, bind_of_look hlook]
  split
  · next hvoid => exact pop_bind_of_inside (isEnd_of_loneVoidAt hvoid) _
  · rfl

theorem parameters_eq : parameters = (do
    if ← checkOperator ")" then return []
    else if ← skipLoneVoid then return []
    else budgeted (commaList parameter)) := by
  funext c s
  rw [bind_of_look checkOperator_apply]
  cases hclose : (tokenAt c s.rest 0).isOperator [")"] with
  | true => exact parameters_of_close hclose
  | false =>
    rw [parameters_of_open hclose]
    show _ = (skipLoneVoid >>= _) c s
    cases hlone : loneVoidAt c s with
    | true =>
      have hskip : (skipLoneVoid c s).result = .ok true := by
        rw [skipLoneVoid_apply, hlone]
        rfl
      rw [bind_of_ok hskip, skipLoneVoid_apply, hlone]
      rfl
    | false =>
      have hskip : skipLoneVoid c s = ⟨.ok false, s, []⟩ := by
        rw [skipLoneVoid_apply, hlone]
        rfl
      rw [bind_of_look hskip]
      rfl

theorem counts_skipLoneVoid : Balances before skipLoneVoid where
  keeps := by
    rintro c s lone s' - ⟨hresult, rfl⟩
    cases hlone : loneVoidAt c s with
    | true =>
      rw [skipLoneVoid_apply, hlone] at hresult ⊢
      cases hresult
      obtain ⟨rest, types⟩ := s
      cases rest with
      | nil => cases hlone
      | cons t rest =>
        have hvoid : t.lexeme = .identifier "void" :=
          of_decide_eq_true (Bool.and_eq_true_iff.1 hlone).1
        refine ⟨[t], rfl, openDepth_of_identifier hvoid before, fun c' more => ?_⟩
        rw [Reads, skipLoneVoid_apply, loneVoidAt_followed c, hlone]
        exact ⟨rfl, rfl⟩
    | false =>
      rw [skipLoneVoid_apply, hlone] at hresult ⊢
      cases hresult
      refine ⟨[], rfl, rfl, fun c' more => ?_⟩
      rw [Reads, skipLoneVoid_apply, loneVoidAt_followed c, hlone]
      exact ⟨rfl, rfl⟩
  escapes := by
    rintro c s - ⟨_, he, -⟩
    rw [skipLoneVoid_apply] at he
    split at he
    · cases he
    · cases he

theorem counts_parameters (depth : Nat) :
    Balances (depth + 1) parameters := by
  have hparameter : Balances (depth + 1) parameter :=
    counts_bind counts_typeRef fun _ => counts_bind counts_declaredName fun _ =>
      counts_variableTail rfl _ _ _
  have hrow : Balances (depth + 1) (budgeted (commaList parameter)) :=
    counts_budgeted (counts_commaList hparameter) (approximates_commaList _)
  rw [parameters_eq]
  exact counts_bind (counts_checkOperator _) fun _ => counts_ite (fun _ => counts_pure rfl) fun _ =>
    counts_bind counts_skipLoneVoid fun _ => counts_ite (fun _ => counts_pure rfl) fun _ => hrow

theorem counts_parameterList : Balances before parameterList :=
  counts_bind (counts_expectOperator (openDepth_of_opener · (by decide) _)) fun _ =>
    counts_bind (counts_parameters _) fun _ =>
      counts_bind (counts_expectOperator (openDepth_of_closer · (by decide) _)) fun _ =>
        counts_pure rfl

theorem counts_functionTail (returns : TypeRef) (name : Name) (isMethod : Bool) (depth : Nat) :
    Balances (depth + 1) (functionTail returns name isMethod) := by
  rw [functionTail_eq]
  refine counts_bind counts_parameterList fun _ => ?_
  refine counts_peek_bind (fun t ht => counts_ite (fun _ => counts_failAt ht _) fun _ => ?_)
    fun stop => ?_
  · exact counts_bind (counts_expectOperator (openDepth_of_semicolon · _)) fun _ => counts_pure rfl
  · cases isMethod <;> rfl

theorem escapes_functionTail (returns : TypeRef) (name : Name) (isMethod : Bool) :
    Escapes before (functionTail returns name isMethod) := by
  rw [functionTail_eq]
  refine escapes_bind counts_parameterList fun _ => ?_
  refine escapes_peek_bind (fun t ht => escapes_ite (escapes_failAt ht _) ?_) fun stop => ?_
  · exact escapes_bind_pure escapes_expectOperator fun _ => ⟨_, rfl⟩
  · cases isMethod <;> rfl

theorem counts_variableEnd (type : TypeRef) (name : Name) (depth : Nat) :
    Balances (depth + 1) (variableEnd type name) :=
  counts_bind (counts_variableTail rfl _ _ _) fun _ =>
    counts_bind (counts_expectOperator (openDepth_of_semicolon · _)) fun _ => counts_pure rfl

theorem counts_variableDecl (depth : Nat) :
    Balances (depth + 1) variableDecl :=
  counts_bind counts_typeRef fun _ => counts_bind counts_declaredName fun _ =>
    counts_variableEnd _ _ _

theorem counts_declaration (isMember : Bool) (depth : Nat) :
    Balances (depth + 1) (declaration isMember) :=
  counts_bind counts_typeRef fun _ => counts_bind counts_declaredName fun _ =>
    counts_bind (counts_checkOperator _) fun _ =>
      counts_ite (fun _ => counts_map (counts_functionTail _ _ _ _))
        fun _ => counts_map (counts_variableEnd _ _ _)

theorem counts_functionPointer (depth : Nat) :
    Balances (depth + 1) functionPointer :=
  counts_bind (counts_expectKeyword _) fun _ => counts_bind counts_typeRef fun _ =>
    counts_bind (counts_expectOperator (openDepth_of_opener · (by decide) _)) fun _ =>
      counts_bind (counts_expectOperator (openDepth_of_plain_operator · (by decide) _)) fun _ =>
        counts_bind counts_declaredName fun _ =>
          counts_bind (counts_expectOperator (openDepth_of_closer · (by decide) _)) fun _ =>
            counts_bind counts_parameterList fun _ =>
              counts_bind (counts_expectOperator (openDepth_of_semicolon · _)) fun _ =>
                counts_pure rfl

/-! ## Structs and classes -/

theorem counts_member {p : Parser α} {depth : Nat} (hp : Balances (depth + 1) p) :
    Balances (depth + 1) (member p) :=
  counts_peek_bind (fun _ ht => counts_ite (fun _ => counts_failAt ht _) fun _ =>
    counts_ite (fun _ => counts_map (counts_functionPointer depth)) fun _ => counts_map hp)
    fun _ => rfl

theorem counts_structMembers (depth n : Nat) :
    Balances (depth + 1) (structMembers n) := by
  have hmember : Balances (depth + 1) structMember :=
    counts_bind (counts_member (counts_variableDecl depth)) fun {_ _ found _} _ => by
      cases found <;> exact counts_pure rfl
  induction n with
  | zero => exact counts_exhausted
  | succ n ih =>
    exact counts_bind (counts_checkOperator _) fun _ => counts_ite (fun _ => counts_pure rfl) fun _ =>
      counts_bind hmember fun _ => counts_bind ih fun _ => counts_pure rfl

theorem counts_classMembers (depth n : Nat) (access : Access) :
    Balances (depth + 1) (classMembers n access) := by
  have hmember (access : Access) : Balances (depth + 1) (classMember access) :=
    counts_bind (counts_member (counts_declaration true depth)) fun {_ _ found _} _ => by
      obtain _ | _ | _ := found <;> exact counts_pure rfl
  induction n generalizing access with
  | zero => exact counts_exhausted
  | succ n ih =>
    have hlabel : Counts (depth + 1) (fun found => if found.isSome then depth + 1 else depth + 1)
        (accept labelAccess?) := counts_accept blind_label rfl fun h =>
      openDepth_of_identifier (Token.isKeyword_singleton.1 (isKeyword_of_label h)).1 _
    rw [classMembers_succ]
    refine counts_bind (counts_checkOperator _) fun _ => counts_ite (fun _ => counts_pure rfl) fun _ =>
      counts_bind hlabel fun {_ _ label _} _ => ?_
    cases label with
    | some label =>
      exact counts_bind (counts_expectOperator (openDepth_of_plain_operator · (by decide) _))
        fun _ => ih _
    | none =>
      exact counts_bind (counts_matchKeyword _) fun _ => counts_bind (hmember _) fun _ =>
        counts_bind (ih _) fun _ => counts_pure rfl

/-! ## Ways to settle -/

/-- With some way out behind the tokens, the parser is given up, and the tokens
    leave that depth, or it reads all of them. -/
def SettlesAt (p : Parser α) (s : State) : Prop :=
  ∃ depth, (Leaves s.rest depth ∧
      ∀ c more, GivesUp (p c (s.followed (wayOut depth ++ more))).result) ∨
    ∀ c more, ∃ a types, p.Reads c (s.followed (wayOut depth ++ more)) a ⟨more, types⟩

/-- If the parser fails at the end of input, there is a way out of it. -/
def Settles (p : Parser α) : Prop :=
  ∀ (c : Context) (s : State), Endless s.rest → FailsAtEnd (p c s).result → SettlesAt p s

theorem settles_of_escapes {p : Parser α} (hp : Escapes 0 p) : Settles p := by
  intro c s hs hfails
  obtain ⟨depth, hopen, hgives⟩ := hp c s hs hfails
  exact ⟨depth, .inl ⟨.opened hopen, hgives⟩⟩

/-- What is read before stays read. -/
theorem SettlesAt.behind {p : Parser α} {f : α → Parser β} {a : α} {read : List Token}
    (h : SettlesAt (f a) s₁) (hrest : s.rest = read ++ s₁.rest) (hopen : openDepth 0 read = some 0)
    (hkeeps : ∀ c more, p.Reads c (s.followed (filler :: more)) a (s₁.followed (filler :: more))) :
    SettlesAt (p >>= f) s := by
  obtain ⟨depth, ⟨hleaves, hgives⟩ | hreads⟩ := h
  · refine ⟨depth, .inl ⟨hrest ▸ hleaves.behind hopen, fun c more => ?_⟩⟩
    exact (hgives c more).behind (hkeeps c _)
  · refine ⟨depth, .inr fun c more => ?_⟩
    obtain ⟨b, types, hbehind⟩ := hreads c more
    exact ⟨b, types, reads_bind.2 ⟨a, _, hkeeps c _, hbehind⟩⟩

theorem settles_bind {p : Parser α} {f : α → Parser β} (hp : Balances 0 p)
    (hf : ∀ a, Settles (f a)) : Settles (p >>= f) := by
  intro c s hs hfails
  rcases failsAtEnd_bind hfails with hfirst | ⟨a, s₁, hread, hsecond⟩
  · obtain ⟨depth, hopen, hgives⟩ := hp.escapes c s hs hfirst
    exact ⟨depth, .inl ⟨.opened hopen, fun c' more => (hgives c' more).bind f⟩⟩
  · obtain ⟨read, hrest, hopen, hkeeps⟩ := hp.keeps hs hread
    exact (hf a c s₁ (hrest ▸ hs).of_append hsecond).behind hrest hopen hkeeps

theorem settles_bind_pure {p : Parser α} {f : α → Parser β} (hp : Settles p)
    (hf : ∀ a, ∃ b, f a = pure b) : Settles (p >>= f) := by
  intro c s hs hfails
  rcases failsAtEnd_bind hfails with hfirst | ⟨a, s₁, -, hsecond⟩
  · obtain ⟨depth, ⟨hleaves, hgives⟩ | hreads⟩ := hp c s hs hfirst
    · exact ⟨depth, .inl ⟨hleaves, fun c' more => (hgives c' more).bind f⟩⟩
    · refine ⟨depth, .inr fun c' more => ?_⟩
      obtain ⟨a, types, hread⟩ := hreads c' more
      obtain ⟨b, hpure⟩ := hf a
      exact ⟨b, types, reads_bind.2 ⟨a, _, hread, hpure ▸ reads_pure.2 ⟨rfl, rfl⟩⟩⟩
  · obtain ⟨b, hpure⟩ := hf a
    rw [hpure] at hsecond
    exact absurd hsecond not_failsAtEnd_pure

theorem settles_map {p : Parser α} (f : α → β) (hp : Settles p) : Settles (f <$> p) := by
  rw [← bind_pure_comp]
  exact settles_bind_pure hp fun _ => ⟨_, rfl⟩

theorem settles_ite {b : Prop} [Decidable b] {p q : Parser α} (hp : Settles p) (hq : Settles q) :
    Settles (if b then p else q) := by
  split
  · exact hp
  · exact hq

/-- What is over behind an operator does not break off there. -/
theorem settles_unlessMatched {spelling : String} {a : α} {q : Parser α} (hq : Settles q) :
    Settles (matchOperator spelling >>= fun found => if found.isSome then pure a else q) := by
  intro c s hs hfails
  rcases failsAtEnd_bind hfails with hfirst | ⟨found, s₁, hread, hsecond⟩
  · rw [matchOperator_eq] at hfirst
    exact absurd hfirst (not_failsAtEnd_accept (blind_operator _))
  obtain ⟨t, -, -, rfl⟩ | ⟨hother, rfl, rfl⟩ := reads_matchOperator.1 hread
  · exact absurd hsecond not_failsAtEnd_pure
  · have hafter : SettlesAt (if (none : Option Token).isSome then pure a else q) s₁ :=
      hq c s₁ hs hsecond
    exact hafter.behind (f := fun found => if found.isSome then pure a else q)
      (List.nil_append _).symm rfl fun c' more => reads_matchOperator.2
        (.inr ⟨(isOperator_tokenAt_followed _ c c' s₁ more).trans hother, rfl, rfl⟩)

theorem not_failsAtEnd_expectOperator {spelling : String}
    (h : (tokenAt c s.rest 0).isOperator [spelling] = true) :
    ¬FailsAtEnd (expectOperator spelling c s).result := by
  rintro ⟨e, he, -⟩
  rw [expectOperator_eq, demand_of_some (blind_operator _) (if_pos h)] at he
  cases he

/-- An initializer outside of brackets that breaks off can be finished. -/
theorem settles_lastInitializer (g : RawRun → β) :
    Settles (initializer [";"] >>= fun run => expectOperator ";" >>= fun _ => pure (g run)) := by
  intro c s hs hfails
  rcases failsAtEnd_bind hfails with hfirst | ⟨run, s₁, hread, hsecond⟩
  -- the initializer takes in the literal and all brackets, and the
  -- semicolon of the way out finishes the declaration
  · have hall := span_eq_of_failsAtEnd hs hfirst
    let inside := s.rest.foldl nesting 0
    obtain ⟨first, others, hrun⟩ := List.exists_cons_of_ne_nil (show s.rest ++
      filler :: List.replicate inside closingBracket ≠ [] by simp)
    refine ⟨inside, .inr fun c' more => ⟨g ⟨first, others⟩, s.types, ?_⟩⟩
    have hspan := initializerSpan_append_wayOut hall (semicolon :: more)
      (fun t ht => by cases ht; rfl)
    have henclosed := (initializerSpan_eq_iff rfl _ _ _).1 hspan
    rw [hrun] at henclosed
    have hstate : s.followed (wayOut inside ++ more) =
        State.behind (first :: others) ⟨semicolon :: more, s.types⟩ := by
      rw [State.behind, ← hrun, List.append_assoc, List.cons_append, ← wayOut_append]
      rfl
    exact reads_bind.2 ⟨⟨first, others⟩, _,
      reads_initializer.2 ⟨henclosed, hstate, rfl⟩, reads_bind.2
        ⟨semicolon, _, reads_expectOperator.2 ⟨rfl, rfl⟩, reads_pure.2 ⟨rfl, rfl⟩⟩⟩
  · -- an initializer is read in front of a semicolon
    have hstop := (reads_initializer.1 hread).2.2
    rcases failsAtEnd_bind hsecond with hfirst | ⟨_, _, -, hlast⟩
    · exact absurd hfirst (not_failsAtEnd_expectOperator hstop)
    · exact absurd hlast not_failsAtEnd_pure

/-- What a parser reads in braces. -/
def braced (p : Parser α) : Parser α := do
  let _ ← expectOperator openBrace
  let a ← p
  let _ ← expectOperator closeBrace
  return a

theorem braced_bind (p : Parser α) (f : α → Parser β) : braced p >>= f = (do
    let _ ← expectOperator openBrace
    let a ← p
    let _ ← expectOperator closeBrace
    f a) := by
  simp only [braced, bind_assoc, pure_bind]

theorem escapes_braced {p : Parser α} (hp : Balances 1 p) : Escapes 0 (braced p) :=
  escapes_bind (counts_expectOperator (openDepth_of_opener · (by decide) 0)) fun _ =>
    escapes_bind hp fun _ => escapes_bind_pure escapes_expectOperator fun _ => ⟨_, rfl⟩

/-- What stands in braces is a whole statement. -/
theorem whole_of_reads_braced {p : Parser α} (hp : Balances 1 p) (hs : Endless s.rest) {a : α}
    (h : (braced p).Reads c s a s₁) : ∃ read, s.rest = read ++ s₁.rest ∧ read ≠ [] ∧
      (∀ more, statementSpan 0 (read ++ more) = read) ∧ ∀ c' more,
        (braced p).Reads c' (s.followed (filler :: more)) a (s₁.followed (filler :: more)) := by
  have hinside : Counts 0 (fun _ => 1) (expectOperator openBrace >>= fun _ => p) :=
    counts_bind (counts_expectOperator (openDepth_of_opener · (by decide) 0)) fun _ => hp
  have hregroup : braced p = (expectOperator openBrace >>= fun _ => p) >>= fun a =>
      expectOperator closeBrace >>= fun _ => pure a := (bind_assoc _ _ _).symm
  rw [hregroup] at h ⊢
  obtain ⟨_, _, hfront, hback⟩ := reads_bind.1 h
  obtain ⟨closing, _, hclosing, hpure⟩ := reads_bind.1 hback
  obtain ⟨rfl, rfl⟩ := reads_pure.1 hpure
  obtain ⟨hclose, rfl⟩ := reads_expectOperator.1 hclosing
  obtain ⟨front, hrest, hopen, hkeeps⟩ := hinside.keeps hs hfront
  refine ⟨front ++ [closing], ?_, by simp, fun more => ?_, fun c' more => ?_⟩
  · rw [hrest, List.append_assoc]
    rfl
  · rw [List.append_assoc, statementSpan_append_of_open hopen]
    exact congrArg (front ++ ·) (statementSpan_of_closeBrace hclose more)
  · exact reads_bind.2 ⟨a, _, hkeeps c' more, reads_bind.2
      ⟨closing, _, reads_expectOperator.2 ⟨hclose, rfl⟩, reads_pure.2 ⟨rfl, rfl⟩⟩⟩

/-- Behind braces that lack only the semicolon, the literal begins another
    statement. -/
theorem settles_braced {p : Parser α} (hp : Balances 1 p) (g : α → β) :
    Settles (do
      let _ ← expectOperator openBrace
      let a ← p
      let _ ← expectOperator closeBrace
      let _ ← expectOperator ";"
      return g a) := by
  rw [← braced_bind p fun a => expectOperator ";" >>= fun _ => pure (g a)]
  intro c s hs hfails
  rcases failsAtEnd_bind hfails with hfirst | ⟨a, s₁, hread, hlast⟩
  · obtain ⟨depth, hopen, hgives⟩ := escapes_braced hp c s hs hfirst
    exact ⟨depth, .inl ⟨.opened hopen, fun c' more => (hgives c' more).bind _⟩⟩
  obtain ⟨read, hrest, hsome, hwhole, hkeeps⟩ := whole_of_reads_braced hp hs hread
  have hend : Escapes 0 (expectOperator ";" >>= fun _ => pure (g a)) :=
    escapes_bind_pure escapes_expectOperator fun _ => ⟨_, rfl⟩
  have hs₁ : Endless s₁.rest := (hrest ▸ hs).of_append
  -- only the semicolon can be what is missing behind the braces
  have hnil : s₁.rest = [] := by
    rcases failsAtEnd_bind hlast with hsemicolon | ⟨_, _, -, hpure⟩
    · exact rest_eq_nil_of_demand (blind_operator _) hs₁ (expectOperator_eq ";" ▸ hsemicolon)
    · exact absurd hpure not_failsAtEnd_pure
  obtain ⟨depth, hdepth, hgives⟩ := hend c s₁ hs₁ hlast
  -- nothing is open there, so the way out is one of no brackets
  rw [hnil] at hdepth
  cases hdepth
  refine ⟨0, .inl ⟨?_, fun c' more => ?_⟩⟩
  · rw [hrest, hnil, List.append_nil]
    exact .whole hsome hwhole
  · exact (hgives c' more).behind (hkeeps c' _)

/-! ## Productions of a scope -/

/-- A variable ends with its semicolon, whether or not it is initialized. -/
theorem variableEnd_eq (type : TypeRef) (name : Name) : variableEnd type name = (do
    let size ← arraySize
    let found ← matchOperator "="
    if found.isSome then
      let run ← initializer [";"]
      let _ ← expectOperator ";"
      return ⟨name, { type with arraySize := size }, some run⟩
    else
      let _ ← expectOperator ";"
      return ⟨name, { type with arraySize := size }, none⟩) := by
  simp only [variableEnd, variableTail, bind_assoc]
  refine congrArg (arraySize >>= ·) (funext fun size => ?_)
  refine congrArg (matchOperator "=" >>= ·) (funext fun found => ?_)
  split
  · simp only [bind_assoc, pure_bind]
  · simp only [pure_bind]

theorem settles_variableEnd (type : TypeRef) (name : Name) : Settles (variableEnd type name) := by
  have hequals : Balances 0 (matchOperator "=") := counts_matchOperator_of_plain (by decide)
  rw [variableEnd_eq]
  exact settles_bind counts_arraySize fun _ => settles_bind hequals fun _ => settles_ite
    (settles_lastInitializer _)
    (settles_of_escapes (escapes_bind_pure escapes_expectOperator fun _ => ⟨_, rfl⟩))

theorem settles_scopeDeclaration : Settles scopeDeclaration := by
  have hdeclaration : Settles (declaration false) :=
    settles_bind counts_typeRef fun _ => settles_bind counts_declaredName fun _ =>
      settles_bind (counts_checkOperator _) fun _ => settles_ite
        (settles_map _ (settles_of_escapes (escapes_functionTail _ _ _)))
        (settles_map _ (settles_variableEnd _ _))
  refine settles_bind_pure hdeclaration fun declared => ?_
  cases declared <;> exact ⟨_, rfl⟩

theorem counts_register (expected : String) : Balances before (register expected) :=
  counts_bind (counts_popName _) fun {_ _ name _} _ =>
    { keeps := by
        rintro c s _ _ - ⟨⟨⟩, rfl⟩
        exact ⟨[], rfl, rfl, fun _ _ => ⟨rfl, rfl⟩⟩
      escapes := fun _ _ _ ⟨_, he, _⟩ => nomatch he }

theorem settles_structDecl : Settles structDecl := by
  have hmembers : Balances 1 (budgeted structMembers) :=
    counts_budgeted (counts_structMembers 0) approximates_structMembers
  exact settles_bind (counts_expectKeyword _) fun _ => settles_bind (counts_register _) fun _ =>
    settles_unlessMatched (settles_braced hmembers _)

theorem settles_classDecl : Settles classDecl := by
  have htrait : Balances 0 trait := counts_bind (counts_popName _) fun _ => counts_pure rfl
  have hlist : Balances 0 (budgeted (commaList trait)) :=
    counts_budgeted (counts_commaList htrait) (approximates_commaList _)
  have htraits : Balances 0 traits :=
    counts_ifMatched (openDepth_of_plain_operator · (by decide) _) hlist (counts_pure rfl)
  have hmembers : Balances 1 (budgeted fun n => classMembers n .privateAccess) :=
    counts_budgeted (fun n => counts_classMembers 0 n _) fun n => approximates_classMembers n _
  exact settles_bind (counts_expectKeyword _) fun _ => settles_bind (counts_register _) fun _ =>
    settles_unlessMatched (settles_bind htraits fun _ => settles_braced hmembers _)

theorem moves_namespaceHead : namespaceHead.Moves :=
  moves_bind (moves_expectKeyword _) fun _ => moves_bind (moves_popName _) fun _ =>
    moves_bind (moves_expectOperator _) fun _ => moves_pure _

theorem counts_namespaceHead : Counts 0 (fun _ => 1) namespaceHead :=
  counts_bind (counts_expectKeyword _) fun _ => counts_bind (counts_popName _) fun _ =>
    counts_bind (counts_expectOperator (openDepth_of_opener · (by decide) 0)) fun _ =>
      counts_pure rfl

end Flattener.Parser
