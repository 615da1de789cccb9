import Flattener.Proofs.Grammar.Scoping
import Flattener.Proofs.Grammar.Spelling
import Flattener.Proofs.Text.Stretch

/-!
# Declarations are read as they are spelled

A declaration is read of tokens exactly if they spell it and it is well scoped
behind the types that are known (`reads_declaration`, `reads_functionPointer`).
A part of one that has no end of its own, such as a parameter, is read in front
of a token that may follow it.
-/

namespace Flattener.Parser

variable {α : Type} {c : Context} {s s' : State}

/-! ## Types and names -/

/-- Stars are read up to the first token that is none. -/
theorem reads_stars {n : Nat} :
    stars.Reads c s n s' ↔ ∃ tokens : List Token, (∀ t ∈ tokens, t.isOperator ["*"] = true) ∧
      n = tokens.length ∧ s = s'.behind tokens ∧
        (tokenAt c s'.rest 0).isOperator ["*"] = false := by
  simp only [stars, reads_bind, reads_gets, reads_take, reads_pure, isOperator_tokenAt_eq_false]
  obtain ⟨rest, types⟩ := s
  constructor
  · rintro ⟨_, _, ⟨rfl, rfl⟩, _, _, ⟨rfl, rfl⟩, rfl, rfl⟩
    obtain ⟨run, others, rfl, hrun⟩ := exists_takeWhile (·.isOperator ["*"]) rest
    obtain ⟨hstars, hhead⟩ := takeWhile_eq_iff.1 hrun
    simp only [hrun, List.drop_left']
    exact ⟨run, hstars, rfl, rfl, hhead⟩
  · rintro ⟨tokens, hstars, rfl, hs, hhead⟩
    cases hs
    have hrun := takeWhile_eq_iff.2 ⟨hstars, hhead⟩
    refine ⟨_, _, ⟨rfl, rfl⟩, _, _, ⟨rfl, rfl⟩, ?_⟩
    simp only [hrun, List.drop_left', and_self]

theorem reads_typeRef {t : TypeRef} :
    typeRef.Reads c s t s' ↔ ∃ tokens, t.Spelled tokens ∧ t.arraySize = none ∧
      s.types.isType t.name.text = true ∧ s = s'.behind tokens ∧
        (tokenAt c s'.rest 0).isOperator ["*"] = false := by
  simp only [typeRef, reads_bind, reads_popName, reads_isType]
  constructor
  · rintro ⟨name, s₁, ⟨hkey, rfl⟩, _, _, ⟨rfl, rfl⟩, h⟩
    split at h
    · next htype =>
      obtain ⟨n, s₂, hn, hpure⟩ := reads_bind.1 h
      obtain ⟨rfl, rfl⟩ := reads_pure.1 hpure
      obtain ⟨stars, hstars, rfl, rfl, hnext⟩ := reads_stars.1 hn
      exact ⟨_, .intro none hkey hstars, rfl, htype, rfl, hnext⟩
    · exact absurd h not_reads_failAt
  · rintro ⟨_, @⟨name, stars, size, hkey, hstars⟩, hsize, htype, rfl, hnext⟩
    cases hsize
    refine ⟨name, s'.behind stars, ⟨hkey, rfl⟩, _, _, ⟨rfl, rfl⟩, (reads_if_pos htype).2 ?_⟩
    exact reads_bind.2 ⟨_, _, reads_stars.2 ⟨stars, hstars, rfl, rfl, hnext⟩,
      reads_pure.2 ⟨rfl, rfl⟩⟩

/-- A new name is read of a name that is no type. -/
theorem reads_declaredName {n : Name} :
    declaredName.Reads c s n s' ↔
      n.text ∉ keywords ∧ s.types.isType n.text = false ∧ s = s'.behind [n.token] := by
  simp only [declaredName, reads_bind, reads_popName, reads_isType]
  constructor
  · rintro ⟨name, s₁, ⟨hkey, rfl⟩, _, _, ⟨rfl, rfl⟩, h⟩
    split at h
    · exact absurd h not_reads_failAt
    · next htype =>
      obtain ⟨rfl, rfl⟩ := reads_pure.1 h
      exact ⟨hkey, Bool.eq_false_iff.2 htype, rfl⟩
  · rintro ⟨hkey, htype, rfl⟩
    exact ⟨n, s', ⟨hkey, rfl⟩, _, _, ⟨rfl, rfl⟩,
      (reads_if_neg (Bool.eq_false_iff.1 htype)).2 (reads_pure.2 ⟨rfl, rfl⟩)⟩

/-! ## Sizes and initial values -/

/-- A positive integer is read of one token: behind a sign, only zero passes. -/
theorem reads_unsigned {t : Token} {value : Nat} (hpos : 0 < value) :
    unsigned.Reads c s (t, value) s' ↔
      (∃ spelling, t.lexeme = .integer spelling value) ∧ s = s'.behind [t] := by
  simp only [unsigned, reads_bind, reads_matchOperator]
  constructor
  · rintro ⟨sign, s₁, hsign, ⟨token, n⟩, s₂, hn, h⟩
    obtain ⟨hlexeme, rfl⟩ := reads_popInteger.1 hn
    rcases hsign with ⟨minus, -, rfl, rfl⟩ | ⟨-, rfl, rfl⟩
    · -- behind a minus nothing but zero is read, and the value is positive
      change (ite _ _ _ : Parser _).Reads c s₂ _ s' at h
      split at h
      · exact absurd h not_reads_failAt
      · next hzero =>
        obtain ⟨heq, rfl⟩ := reads_pure.1 h
        cases heq
        exact absurd hpos hzero
    · obtain ⟨heq, rfl⟩ := reads_pure.1 h
      cases heq
      exact ⟨hlexeme, rfl⟩
  · rintro ⟨⟨spelling, hlexeme⟩, rfl⟩
    refine ⟨none, s'.behind [t], .inr ⟨?_, rfl, rfl⟩, (t, value), s',
      reads_popInteger.2 ⟨⟨spelling, hlexeme⟩, rfl⟩, reads_pure.2 ⟨rfl, rfl⟩⟩
    rw [tokenAt_behind_cons, Token.isOperator, hlexeme]

/-- The size of an array is read of its brackets, if there are any. -/
theorem reads_arraySize {size : Option Nat} :
    arraySize.Reads c s size s' ↔ ∃ tokens, SizeSpelled size tokens ∧ s = s'.behind tokens ∧
      (size = none → (tokenAt c s'.rest 0).isOperator ["["] = false) := by
  simp only [arraySize, reads_bind, reads_matchOperator]
  constructor
  · rintro ⟨found, s₁, hfound, h⟩
    rcases hfound with ⟨opening, hopen, rfl, rfl⟩ | ⟨hnext, rfl, rfl⟩
    · obtain ⟨⟨token, n⟩, s₂, hn, hsize⟩ := reads_bind.1 h
      dsimp only at hsize
      split at hsize
      · exact absurd hsize not_reads_failAt
      · next hzero =>
        obtain ⟨⟨spelling, hlexeme⟩, rfl⟩ := (reads_unsigned (Nat.pos_of_ne_zero hzero)).1 hn
        obtain ⟨closing, s₃, hclosing, hpure⟩ := reads_bind.1 hsize
        obtain ⟨hclose, rfl⟩ := reads_expectOperator.1 hclosing
        obtain ⟨rfl, rfl⟩ := reads_pure.1 hpure
        exact ⟨_, .present hopen hlexeme (Nat.pos_of_ne_zero hzero) hclose, rfl, nofun⟩
    · obtain ⟨rfl, rfl⟩ := reads_pure.1 h
      exact ⟨[], .absent, rfl, fun _ => hnext⟩
  · rintro ⟨_, @⟨⟩ | @⟨opening, token, closing, spelling, n, hopen, hlexeme, hpos, hclose⟩, rfl,
      hnext⟩
    · exact ⟨none, s', .inr ⟨hnext rfl, rfl, rfl⟩, reads_pure.2 ⟨rfl, rfl⟩⟩
    · refine ⟨some opening, s'.behind [token, closing], .inl ⟨opening, hopen, rfl, rfl⟩,
        reads_bind.2 ⟨(token, n), s'.behind [closing],
          (reads_unsigned hpos).2 ⟨⟨spelling, hlexeme⟩, rfl⟩, ?_⟩⟩
      refine (reads_if_neg (Nat.ne_of_gt hpos)).2 ?_
      exact reads_bind.2 ⟨closing, s', reads_expectOperator.2 ⟨hclose, rfl⟩,
        reads_pure.2 ⟨rfl, rfl⟩⟩

/-! ## Variables -/

/-- What is read behind the name of a variable is its size and what it is set to. -/
theorem spelled_of_reads_variableTail {type : TypeRef} {name : Name} {stops : List String}
    {v : Variable} (h : (variableTail type name stops).Reads c s v s') :
    ∃ n run size initial, v = ⟨name, { type with arraySize := n }, run⟩ ∧ SizeSpelled n size ∧
      InitialSpelled stops run initial ∧ s = s'.behind (size ++ initial) := by
  simp only [variableTail, reads_bind, reads_arraySize, reads_matchOperator] at h
  obtain ⟨n, _, ⟨size, hsize, rfl, -⟩, found, s₁, hfound, h⟩ := h
  rcases hfound with ⟨sign, hsign, rfl, rfl⟩ | ⟨-, rfl, rfl⟩
  · obtain ⟨run, s₂, hrun, hpure⟩ := reads_bind.1 h
    obtain ⟨henclosed, rfl, -⟩ := reads_initializer.1 hrun
    obtain ⟨rfl, rfl⟩ := reads_pure.1 hpure
    refine ⟨n, some run, size, _, rfl, hsize, .present hsign henclosed, ?_⟩
    rw [State.behind_append]
    rfl
  · obtain ⟨rfl, rfl⟩ := reads_pure.1 h
    exact ⟨n, none, size, [], rfl, hsize, .absent, by rw [List.append_nil]⟩

/-- In front of a stop, the size and what a variable is set to are read. -/
theorem reads_variableTail {type : TypeRef} {name : Name} {stops : List String} {n : Option Nat}
    {run : Option RawRun} {size initial : List Token} (hsize : SizeSpelled n size)
    (hinitial : InitialSpelled stops run initial)
    (hstop : (tokenAt c s'.rest 0).isOperator stops = true)
    (hbracket : "[" ∉ stops) (hsign : "=" ∉ stops) :
    (variableTail type name stops).Reads c (s'.behind (size ++ initial))
      ⟨name, { type with arraySize := n }, run⟩ s' := by
  simp only [variableTail, reads_bind, reads_arraySize, reads_matchOperator]
  refine ⟨n, s'.behind initial, ⟨size, hsize, State.behind_append .., fun _ => ?_⟩, ?_⟩
  · cases hinitial with
    | absent => exact Token.isOperator_eq_false_of_stop hstop hbracket
    | @present sign _ heq _ =>
      have hnext : sign.isOperator ["["] = false :=
        Token.isOperator_eq_false_of_stop heq (by decide)
      exact hnext
  · cases hinitial with
    | absent =>
      exact ⟨none, s', .inr ⟨Token.isOperator_eq_false_of_stop hstop hsign, rfl, rfl⟩,
        reads_pure.2 ⟨rfl, rfl⟩⟩
    | @present sign run heq henclosed =>
      exact ⟨some sign, s'.behind run.tokens, .inl ⟨sign, heq, rfl, rfl⟩,
        reads_bind.2 ⟨run, s', reads_initializer.2 ⟨henclosed, rfl, hstop⟩,
          reads_pure.2 ⟨rfl, rfl⟩⟩⟩

/-- A known type and a new name in front of what is read behind them. -/
theorem reads_typeAndName {f : TypeRef → Name → Parser α} {a : α} (hs : s.types.Consistent) :
    (do let type ← typeRef; let name ← declaredName; f type name : Parser α).Reads c s a s' ↔
      ∃ type name lead s₁, type.Spelled lead ∧ type.arraySize = none ∧ name.text ∉ keywords ∧
        type.name.text ∈ s.types.visible ∧ name.text ∉ s.types.visible ∧
        s = s₁.behind (lead ++ [name.token]) ∧ (f type name).Reads c s₁ a s' := by
  simp only [reads_bind, reads_typeRef, reads_declaredName]
  constructor
  · rintro ⟨type, _, ⟨lead, hlead, hnone, htype, rfl, -⟩, name, s₁, ⟨hkey, hnew, rfl⟩, h⟩
    exact ⟨type, name, lead, s₁, hlead, hnone, hkey, (TypeNames.isType_iff hs _).1 htype,
      (TypeNames.isType_eq_false_iff hs _).1 hnew, (State.behind_append ..).symm, h⟩
  · rintro ⟨type, name, lead, s₁, hlead, hnone, hkey, htype, hnew, rfl, h⟩
    exact ⟨type, s₁.behind [name.token], ⟨lead, hlead, hnone,
      (TypeNames.isType_iff hs _).2 htype, State.behind_append .., rfl⟩, name, s₁,
      ⟨hkey, (TypeNames.isType_eq_false_iff hs _).2 hnew, rfl⟩, h⟩

/-- The spelling of a type says nothing about the size behind the name. -/
theorem spelled_withSize {t : TypeRef} {tokens : List Token} (h : t.Spelled tokens)
    (n : Option Nat) : TypeRef.Spelled { t with arraySize := n } tokens := by
  cases h with
  | intro size hkey hstars => exact .intro n hkey hstars

/-- What is read as a parameter is a well-scoped variable. -/
theorem spelled_of_reads_parameter {v : Variable} (hs : s.types.Consistent)
    (h : parameter.Reads c s v s') :
    ∃ tokens, v.Spelled [",", ")"] tokens ∧ v.WellScoped s.types.visible ∧
      s = s'.behind tokens := by
  rw [parameter, reads_typeAndName hs] at h
  obtain ⟨type, name, lead, s₁, hlead, -, hkey, htype, hnew, rfl, htail⟩ := h
  obtain ⟨n, run, size, initial, rfl, hsize, hinitial, rfl⟩ := spelled_of_reads_variableTail htail
  refine ⟨_, .intro (spelled_withSize hlead n) hkey hsize hinitial, ⟨htype, hnew⟩, ?_⟩
  rw [← State.behind_append, List.append_assoc, List.singleton_append]

/-- In front of a comma or a closing parenthesis, a parameter is read. -/
theorem reads_parameter {v : Variable} {tokens : List Token} (hs : s'.types.Consistent)
    (h : v.Spelled [",", ")"] tokens) (hscope : v.WellScoped s'.types.visible)
    (hstop : (tokenAt c s'.rest 0).isOperator [",", ")"] = true) :
    parameter.Reads c (s'.behind tokens) v s' := by
  obtain ⟨name, type, run⟩ := v
  cases h with
  | @intro lead size initial hlead hkey hsize hinitial =>
    rw [parameter, reads_typeAndName (s := s'.behind _) hs]
    refine ⟨{ type with arraySize := none }, name, lead, s'.behind (size ++ initial),
      spelled_withSize hlead none, rfl, hkey, hscope.1, hscope.2, ?_,
      reads_variableTail hsize hinitial hstop (by decide) (by decide)⟩
    rw [← State.behind_append, List.append_assoc, List.singleton_append]

/-! ## Lists with commas -/

/-- What is said of each element of a list can be said apart from its spelling. -/
theorem commaSpelled_and_iff {spelled : α → List Token → Prop} {P : α → Prop} {list : List α}
    {tokens : List Token} :
    CommaSpelled (fun a tokens => spelled a tokens ∧ P a) list tokens ↔
      CommaSpelled spelled list tokens ∧ ∀ a ∈ list, P a := by
  constructor
  · intro h
    induction h with
    | one h => exact ⟨.one h.1, List.forall_mem_singleton.2 h.2⟩
    | more h hcomma _ ih => exact ⟨.more h.1 hcomma ih.1, List.forall_mem_cons.2 ⟨h.2, ih.2⟩⟩
  · rintro ⟨h, hall⟩
    induction h with
    | one h => exact .one ⟨h, List.forall_mem_singleton.1 hall⟩
    | more h hcomma _ ih =>
      obtain ⟨hfirst, hothers⟩ := List.forall_mem_cons.1 hall
      exact .more ⟨h, hfirst⟩ hcomma (ih hothers)

/-- A list is spelled as its elements are. -/
theorem spelled_of_reads_commaList {p : Parser α} {spelled : α → List Token → Prop}
    {types : TypeNames}
    (hp : ∀ {s a s'}, s.types = types → p.Reads c s a s' →
      ∃ tokens, spelled a tokens ∧ s = s'.behind tokens) {n : Nat} :
    ∀ {s list s'}, s.types = types → (commaList p n).Reads c s list s' →
      ∃ tokens, CommaSpelled spelled list tokens ∧ s = s'.behind tokens := by
  induction n with
  | zero => exact fun _ h => absurd h not_reads_fail
  | succ n ih =>
    intro s list s' hs h
    simp only [commaList, reads_bind, reads_matchOperator] at h
    obtain ⟨first, s₁, hfirst, found, s₂, hfound, h⟩ := h
    obtain ⟨tokens, hspelled, rfl⟩ := hp hs hfirst
    rcases hfound with ⟨comma, hcomma, rfl, rfl⟩ | ⟨-, rfl, rfl⟩
    · obtain ⟨others, s₃, hothers, hpure⟩ := reads_bind.1 h
      obtain ⟨rfl, rfl⟩ := reads_pure.1 hpure
      -- no element registers a name, so the others are read with the same types
      obtain ⟨rest, hrest, rfl⟩ := ih (s := s₂) hs hothers
      refine ⟨_, .more hspelled hcomma hrest, ?_⟩
      rw [State.behind_append]
      rfl
    · obtain ⟨rfl, rfl⟩ := reads_pure.1 h
      exact ⟨tokens, .one hspelled, rfl⟩

/-- In front of a stop, a list is read if its elements are read in front of
    stops, of which the comma is one. The rounds are more than enough. -/
theorem reads_commaList {p : Parser α} {spelled : α → List Token → Prop} {types : TypeNames}
    {stops : List String}
    (hp : ∀ {a tokens s'}, s'.types = types → spelled a tokens →
      (tokenAt c s'.rest 0).isOperator stops = true → p.Reads c (s'.behind tokens) a s')
    (hcomma : "," ∈ stops) {list : List α} {tokens : List Token}
    (h : CommaSpelled spelled list tokens) (hs : s'.types = types)
    (hstop : (tokenAt c s'.rest 0).isOperator stops = true)
    (hlast : (tokenAt c s'.rest 0).isOperator [","] = false) :
    ∀ {n}, tokens.length < n → (commaList p n).Reads c (s'.behind tokens) list s' := by
  induction h with
  | one h =>
    rintro (_ | n) hn
    · exact absurd hn (Nat.not_lt_zero _)
    · exact reads_bind.2 ⟨_, s', hp hs h hstop, reads_bind.2 ⟨none, s',
        reads_matchOperator.2 (.inr ⟨hlast, rfl, rfl⟩), reads_pure.2 ⟨rfl, rfl⟩⟩⟩
  | @more a others tokens rest comma h hop _ ih =>
    rintro (_ | n) hn
    · exact absurd hn (Nat.not_lt_zero _)
    · have hrest : rest.length < n := by
        rw [List.length_append, List.length_cons] at hn
        omega
      have hnext : comma.isOperator stops = true := by
        rw [Token.isOperator, Token.isOperator_singleton.1 hop]
        exact decide_eq_true hcomma
      rw [State.behind_append]
      exact reads_bind.2 ⟨a, _, hp hs h hnext, reads_bind.2 ⟨some comma, s'.behind rest,
        reads_matchOperator.2 (.inl ⟨comma, hop, rfl, rfl⟩), reads_bind.2 ⟨others, s', ih hrest,
          reads_pure.2 ⟨rfl, rfl⟩⟩⟩⟩

/-! ## Parameters -/

/-- The parameters that are read are spelled and well scoped. -/
theorem spelled_of_reads_parameters {list : List Variable} (hs : s.types.Consistent)
    (h : parameters.Reads c s list s') :
    ∃ tokens, ParametersSpelled list tokens ∧ (∀ v ∈ list, v.WellScoped s.types.visible) ∧
      s = s'.behind tokens := by
  rw [parameters, reads_checkOperator_bind] at h
  split at h
  · obtain ⟨rfl, rfl⟩ := reads_pure.1 h
    exact ⟨[], .none, List.forall_mem_nil _, rfl⟩
  · rw [loneVoid, reads_gets_bind] at h
    split at h
    · next htest =>
      obtain ⟨t, s₁, ht, hpure⟩ := reads_bind.1 h
      obtain ⟨rfl, rfl⟩ := reads_pure.1 hpure
      have hlexeme := (Bool.and_eq_true_iff.1 htest).1
      obtain ⟨htoken, hs'⟩ := (reads_pop_of_test c s s' t (·.lexeme = .identifier "void")
        fun _ => rfl).1
        ⟨hlexeme, ht⟩
      exact ⟨[t], .void (of_decide_eq_true htoken), List.forall_mem_nil _, hs'⟩
    · have hparameter {s₁ : State} {v : Variable} {s₂ : State} (htypes : s₁.types = s.types)
          (hread : parameter.Reads c s₁ v s₂) :
          ∃ tokens, (v.Spelled [",", ")"] tokens ∧ v.WellScoped s.types.visible) ∧
            s₁ = s₂.behind tokens := by
        rw [← htypes] at hs ⊢
        simpa only [and_assoc] using spelled_of_reads_parameter hs hread
      obtain ⟨tokens, hspelled, hs'⟩ :=
        spelled_of_reads_commaList hparameter rfl (reads_budgeted.1 h)
      obtain ⟨hlist, hscope⟩ := commaSpelled_and_iff.1 hspelled
      exact ⟨tokens, .some hlist, hscope, hs'⟩

/-- In front of the closing parenthesis, well-scoped parameters are read. -/
theorem reads_parameters {list : List Variable} {tokens : List Token} (hs : s'.types.Consistent)
    (h : ParametersSpelled list tokens) (hscope : ∀ v ∈ list, v.WellScoped s'.types.visible)
    (hstop : (tokenAt c s'.rest 0).isOperator [")"] = true) :
    parameters.Reads c (s'.behind tokens) list s' := by
  cases h with
  | none =>
    exact reads_checkOperator_bind.2 ((reads_if_pos hstop).2 (reads_pure.2 ⟨rfl, rfl⟩))
  | @void t ht =>
    have hopen : ¬t.isOperator [")"] = true := by simp [Token.isOperator, ht]
    have hvoid : (decide (t.lexeme = .identifier "void") &&
        (tokenAt c s'.rest 0).isOperator [")"]) = true := by rw [ht, hstop]; rfl
    refine reads_checkOperator_bind.2 ((reads_if_neg hopen).2 ?_)
    refine reads_gets_bind.2 ((reads_if_pos hvoid).2 ?_)
    have hpop := ((reads_pop_of_test c (s'.behind [t]) s' t (·.lexeme = .identifier "void")
      fun _ => rfl).2 ⟨decide_eq_true ht, rfl⟩).2
    exact reads_bind.2 ⟨t, s', hpop, reads_pure.2 ⟨rfl, rfl⟩⟩
  | some h =>
    -- a parameter has a second token, so it is not taken for a sole `void`
    have hleads : ∃ first second rest, tokens = first :: second :: rest ∧
        first.isOperator [")"] = false ∧ second.isOperator [")"] = false := by
      cases h with
      | one h => exact h.leads
      | more h =>
        obtain ⟨first, second, rest, rfl, hfirst, hsecond⟩ := h.leads
        exact ⟨first, second, _, rfl, hfirst, hsecond⟩
    have hparameter {v : Variable} {tokens : List Token} {s : State} (hs' : s.types = s'.types)
        (hv : v.Spelled [",", ")"] tokens ∧ v.WellScoped s'.types.visible)
        (hnext : (tokenAt c s.rest 0).isOperator [",", ")"] = true) :
        parameter.Reads c (s.behind tokens) v s := by
      rw [← hs'] at hs hv
      exact reads_parameter hs hv.1 hv.2 hnext
    have hlist : (budgeted (commaList parameter)).Reads c (s'.behind tokens) list s' := by
      refine reads_budgeted.2 (reads_commaList hparameter List.mem_cons_self
        (commaSpelled_and_iff.2 ⟨h, hscope⟩) rfl ?_ (Token.isOperator_eq_false_of_stop hstop (by decide))
        (State.length_lt_budget ..))
      rw [Token.isOperator, Token.isOperator_singleton.1 hstop]
      rfl
    obtain ⟨first, second, rest, rfl, hfirst, hsecond⟩ := hleads
    refine reads_checkOperator_bind.2 ((reads_if_neg (Bool.eq_false_iff.1 hfirst)).2 ?_)
    have hvoid : ¬(decide (first.lexeme = .identifier "void") &&
        second.isOperator [")"]) = true := by simp [hsecond]
    exact reads_gets_bind.2 ((reads_if_neg hvoid).2 hlist)

theorem reads_parameterList {list : List Variable} (hs : s.types.Consistent) :
    parameterList.Reads c s list s' ↔ ∃ tokens, ParameterListSpelled list tokens ∧
      (∀ v ∈ list, v.WellScoped s.types.visible) ∧ s = s'.behind tokens := by
  simp only [parameterList, reads_bind, reads_expectOperator, reads_pure]
  constructor
  · rintro ⟨opening, s₁, ⟨hopen, rfl⟩, _, s₂, hlist, closing, _, ⟨hclose, rfl⟩, rfl, rfl⟩
    obtain ⟨tokens, hspelled, hscope, rfl⟩ := spelled_of_reads_parameters (s := s₁) hs hlist
    refine ⟨_, .intro hopen hspelled hclose, hscope, ?_⟩
    rw [← State.behind_append, ← State.behind_append]
    rfl
  · rintro ⟨_, @⟨opening, closing, tokens, hopen, hspelled, hclose⟩, hscope, rfl⟩
    refine ⟨opening, _, ⟨hopen, State.behind_cons ..⟩, list, s'.behind [closing], ?_, closing, s',
      ⟨hclose, rfl⟩, rfl, rfl⟩
    rw [State.behind_append]
    exact reads_parameters hs hspelled hscope hclose

/-! ## Whole declarations -/

/-- What makes a declaration one of a function, behind its type and name. -/
theorem reads_functionTail {returns : TypeRef} {name : Name} {isMethod : Bool} {f : Signature}
    (hs : s.types.Consistent) :
    (functionTail returns name isMethod).Reads c s f s' ↔
      ∃ list tokens stop, f = ⟨name, returns, list⟩ ∧ ParameterListSpelled list tokens ∧
        (∀ v ∈ list, v.WellScoped s.types.visible) ∧ stop.isOperator [";"] = true ∧
        s = s'.behind (tokens ++ [stop]) := by
  simp only [functionTail, reads_bind, reads_parameterList hs, reads_checkOperator]
  constructor
  · rintro ⟨list, _, ⟨tokens, hlist, hscope, rfl⟩, _, s₁, ⟨rfl, rfl⟩, h⟩
    split at h
    · -- the body of a method is refused
      obtain ⟨t, s₂, -, hfail⟩ := reads_bind.1 h
      exact absurd hfail not_reads_failAt
    · obtain ⟨stop, s₂, hexpect, hpure⟩ := reads_bind.1 h
      obtain ⟨hstop, rfl⟩ := reads_expectOperator.1 hexpect
      obtain ⟨rfl, rfl⟩ := reads_pure.1 hpure
      exact ⟨list, tokens, stop, rfl, hlist, hscope, hstop, (State.behind_append ..).symm⟩
  · rintro ⟨list, tokens, stop, rfl, hlist, hscope, hstop, rfl⟩
    refine ⟨list, s'.behind [stop], ⟨tokens, hlist, hscope, State.behind_append ..⟩, _, _,
      ⟨rfl, rfl⟩, ?_⟩
    have hbrace : stop.isOperator [openBrace] = false :=
      Token.isOperator_eq_false_of_stop hstop (by decide)
    refine (reads_if_neg ?_).2 (reads_bind.2 ⟨stop, s', reads_expectOperator.2 ⟨hstop, rfl⟩,
      reads_pure.2 ⟨rfl, rfl⟩⟩)
    rw [tokenAt_behind_cons, hbrace, Bool.and_false]
    exact Bool.false_ne_true

/-- What makes a declaration one of a variable, behind its type and name. -/
theorem reads_variableEnd {type : TypeRef} {name : Name} {v : Variable} :
    (variableEnd type name).Reads c s v s' ↔
      ∃ n run size initial stop, v = ⟨name, { type with arraySize := n }, run⟩ ∧
        SizeSpelled n size ∧ InitialSpelled [";"] run initial ∧ stop.isOperator [";"] = true ∧
        s = s'.behind (size ++ initial ++ [stop]) := by
  simp only [variableEnd, reads_bind, reads_expectOperator, reads_pure]
  constructor
  · rintro ⟨_, _, htail, stop, s₁, ⟨hstop, rfl⟩, rfl, rfl⟩
    obtain ⟨n, run, size, initial, rfl, hsize, hinitial, rfl⟩ := spelled_of_reads_variableTail htail
    exact ⟨n, run, size, initial, stop, rfl, hsize, hinitial, hstop,
      (State.behind_append ..).symm⟩
  · rintro ⟨n, run, size, initial, stop, rfl, hsize, hinitial, hstop, rfl⟩
    refine ⟨_, s'.behind [stop], ?_, stop, s', ⟨hstop, rfl⟩, rfl, rfl⟩
    rw [State.behind_append]
    exact reads_variableTail hsize hinitial hstop (by decide) (by decide)

/-- No parenthesis opens where a variable goes on behind its name. -/
theorem not_opening_of_reads_variableEnd {type : TypeRef} {name : Name} {v : Variable}
    (h : (variableEnd type name).Reads c s v s') :
    (tokenAt c s.rest 0).isOperator ["("] = false := by
  obtain ⟨n, run, size, initial, stop, -, hsize, hinitial, hstop, rfl⟩ := reads_variableEnd.1 h
  cases hsize with
  | present hopen _ _ _ => exact Token.isOperator_eq_false_of_stop hopen (by decide)
  | absent =>
    cases hinitial with
    | present hsign _ => exact Token.isOperator_eq_false_of_stop hsign (by decide)
    | absent => exact Token.isOperator_eq_false_of_stop hstop (by decide)

theorem reads_variableDecl {v : Variable} (hs : s.types.Consistent) :
    variableDecl.Reads c s v s' ↔ ∃ tokens, v.Declared tokens ∧
      v.WellScoped s.types.visible ∧ s = s'.behind tokens := by
  rw [variableDecl, reads_typeAndName hs]
  constructor
  · rintro ⟨type, name, lead, s₁, hlead, -, hkey, htype, hnew, rfl, h⟩
    obtain ⟨n, run, size, initial, stop, rfl, hsize, hinitial, hstop, rfl⟩ := reads_variableEnd.1 h
    refine ⟨_, .intro (.intro (spelled_withSize hlead n) hkey hsize hinitial) hstop,
      ⟨htype, hnew⟩, ?_⟩
    simp only [← State.behind_append, List.append_assoc, List.cons_append, List.nil_append]
  · rintro ⟨_, @⟨_, stop, @⟨lead, size, initial, hlead, hkey, hsize, hinitial⟩, hstop⟩, hscope, rfl⟩
    refine ⟨{ v.type with arraySize := none }, v.name, lead,
      s'.behind (size ++ initial ++ [stop]), spelled_withSize hlead none, rfl, hkey, hscope.1,
      hscope.2, ?_, reads_variableEnd.2 ⟨_, _, size, initial, stop, rfl, hsize, hinitial, hstop,
        rfl⟩⟩
    simp only [← State.behind_append, List.append_assoc, List.cons_append, List.nil_append]

theorem reads_declaration {isMember : Bool} {d : Declaration} (hs : s.types.Consistent) :
    (declaration isMember).Reads c s d s' ↔ ∃ tokens, d.Declared tokens ∧
      d.WellScoped s.types.visible ∧ s = s'.behind tokens := by
  rw [declaration, reads_typeAndName hs]
  constructor
  · rintro ⟨type, name, lead, s₁, hlead, hnone, hkey, htype, hnew, rfl, h⟩
    rw [reads_checkOperator_bind] at h
    split at h
    · obtain ⟨f, htail, rfl⟩ := reads_map.1 h
      obtain ⟨list, tokens, stop, rfl, hlist, hscope, hstop, rfl⟩ :=
        (reads_functionTail (s := s₁) hs).1 htail
      refine ⟨_, .functionDecl (.intro hlead hnone hkey hlist hstop), ⟨htype, hnew, hscope⟩, ?_⟩
      simp only [← State.behind_append, List.append_assoc, List.cons_append, List.nil_append]
    · obtain ⟨v, hend, rfl⟩ := reads_map.1 h
      obtain ⟨tokens, hspelled, hscope, htokens⟩ := (reads_variableDecl hs).1
        ((reads_typeAndName hs).2 ⟨type, name, lead, s₁, hlead, hnone, hkey, htype, hnew, rfl, hend⟩)
      exact ⟨tokens, .variableDecl hspelled, hscope, htokens⟩
  · rintro ⟨tokens, hspelled | hspelled, hscope, rfl⟩
    · rename_i v
      have hread : variableDecl.Reads c (s'.behind tokens) v s' :=
        (reads_variableDecl hs).2 ⟨tokens, hspelled, hscope, rfl⟩
      rw [variableDecl, reads_typeAndName hs] at hread
      obtain ⟨type, name, lead, s₁, hlead, hnone, hkey, htype, hnew, hs₁, hend⟩ := hread
      refine ⟨type, name, lead, s₁, hlead, hnone, hkey, htype, hnew, hs₁, ?_⟩
      refine reads_checkOperator_bind.2 ((reads_if_neg ?_).2 (reads_map.2 ⟨v, hend, rfl⟩))
      -- functions are told from variables by a parenthesis behind the name
      rw [not_opening_of_reads_variableEnd hend]
      exact Bool.false_ne_true
    · rename_i f
      obtain ⟨hlead, hnone, hkey, hlist, hstop⟩ := hspelled
      rename_i lead list stop
      have hscope' : f.WellScoped s'.types.visible := hscope
      have htail : (functionTail f.returns f.name isMember).Reads c (s'.behind (list ++ [stop])) f s' :=
        (reads_functionTail (s := s'.behind (list ++ [stop])) hs).2
          ⟨f.parameters, list, stop, rfl, hlist, hscope'.2.2, hstop, rfl⟩
      have hopen : (tokenAt c (s'.behind (list ++ [stop])).rest 0).isOperator ["("] = true := by
        obtain ⟨hopen, -, -⟩ := hlist
        exact hopen
      refine ⟨f.returns, f.name, lead, s'.behind (list ++ [stop]), hlead, hnone, hkey, hscope'.1,
        hscope'.2.1, ?_,
        reads_checkOperator_bind.2 ((reads_if_pos hopen).2 (reads_map.2 ⟨f, htail, rfl⟩))⟩
      simp only [← State.behind_append, List.append_assoc, List.cons_append, List.nil_append]

theorem reads_functionPointer {f : Signature} (hs : s.types.Consistent) :
    functionPointer.Reads c s f s' ↔ ∃ tokens, f.PointerDeclared tokens ∧
      f.WellScoped s.types.visible ∧ s = s'.behind tokens := by
  simp only [functionPointer, reads_bind, reads_expectKeyword, reads_expectOperator, reads_typeRef,
    reads_declaredName, reads_pure]
  constructor
  · rintro ⟨keyword, _, ⟨hkeyword, rfl⟩, returns, _, ⟨lead, hlead, hnone, htype, rfl, -⟩, opening, _,
      ⟨hopen, rfl⟩, star, _, ⟨hstar, rfl⟩, name, _, ⟨hkey, hnew, rfl⟩, closing, s₁, ⟨hclose, rfl⟩,
      list, s₂, hlist, stop, _, ⟨hstop, rfl⟩, rfl, rfl⟩
    obtain ⟨tokens, hspelled, hscope, rfl⟩ := (reads_parameterList (s := s₁) hs).1 hlist
    refine ⟨_, .intro hkeyword hlead hnone hopen hstar hkey hclose hspelled hstop,
      ⟨(TypeNames.isType_iff hs _).1 htype, (TypeNames.isType_eq_false_iff hs _).1 hnew, hscope⟩, ?_⟩
    simp only [← State.behind_append, List.cons_append, List.nil_append]
  · rintro ⟨_, ⟨hkeyword, hlead, hnone, hopen, hstar, hkey, hclose, hlist, hstop⟩, hscope, rfl⟩
    rename_i keyword opening star closing stop lead list
    have hread : parameterList.Reads c (s'.behind (list ++ [stop])) f.parameters (s'.behind [stop]) :=
      (reads_parameterList (s := s'.behind (list ++ [stop])) hs).2
        ⟨list, hlist, hscope.2.2, State.behind_append ..⟩
    refine ⟨keyword, s'.behind (lead ++ opening :: star :: f.name.token :: closing :: (list ++ [stop])),
      ⟨hkeyword, State.behind_cons ..⟩, f.returns, _, ⟨lead, hlead, hnone,
        (TypeNames.isType_iff hs _).2 hscope.1, State.behind_append .., ?_⟩, opening, _,
      ⟨hopen, State.behind_cons ..⟩, star, _, ⟨hstar, State.behind_cons ..⟩, f.name, _,
      ⟨hkey, (TypeNames.isType_eq_false_iff hs _).2 hscope.2.1, State.behind_cons ..⟩, closing, _,
      ⟨hclose, State.behind_cons ..⟩, f.parameters, s'.behind [stop], hread, stop, s', ⟨hstop, rfl⟩, rfl, rfl⟩
    exact Token.isOperator_eq_false_of_stop hopen (by decide)

end Flattener.Parser
