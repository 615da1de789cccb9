import Flattener.Proofs.Grammar.Declarations

/-!
# Structs and classes are read as they are spelled

A struct or class is read of tokens exactly if they spell it and it is well
scoped behind the types that are known, and then its name is one type more
(`reads_structDecl`, `reads_classDecl`). Its members are read behind its own
name, so they may refer to it.
-/

namespace Flattener.Parser

variable {α : Type} {c : Context} {s s' : State}

/-! ## Members -/

/-- The keywords that begin a declaration which has no place among members. -/
theorem reads_member {p : Parser α} {found : Signature ⊕ α} :
    (member p).Reads c s found s' ↔
      (tokenAt c s.rest 0).isKeyword ["namespace", "class", "struct", "trait"] = false ∧
        (((tokenAt c s.rest 0).isKeyword ["virtual"] = true ∧
            ∃ f, functionPointer.Reads c s f s' ∧ found = .inl f) ∨
          ((tokenAt c s.rest 0).isKeyword ["virtual"] = false ∧
            ∃ a, p.Reads c s a s' ∧ found = .inr a)) := by
  rw [member, reads_peek_bind]
  constructor
  · intro h
    split at h
    · exact absurd h not_reads_failAt
    · next hother =>
      refine ⟨Bool.eq_false_iff.2 hother, ?_⟩
      split at h
      · next hvirtual =>
        obtain ⟨f, hf, rfl⟩ := reads_map.1 h
        exact .inl ⟨hvirtual, f, hf, rfl⟩
      · next hvirtual =>
        obtain ⟨a, ha, rfl⟩ := reads_map.1 h
        exact .inr ⟨Bool.eq_false_iff.2 hvirtual, a, ha, rfl⟩
  · rintro ⟨hother, ⟨hvirtual, f, hf, rfl⟩ | ⟨hvirtual, a, ha, rfl⟩⟩
    · exact (reads_if_neg (Bool.eq_false_iff.1 hother)).2
        ((reads_if_pos hvirtual).2 (reads_map.2 ⟨f, hf, rfl⟩))
    · exact (reads_if_neg (Bool.eq_false_iff.1 hother)).2
        ((reads_if_neg (Bool.eq_false_iff.1 hvirtual)).2 (reads_map.2 ⟨a, ha, rfl⟩))

/-- A member is a pointer to a function, or what the given parser reads, if that
    begins with a name. -/
theorem reads_member_iff {p : Parser α} {spelled : α → List Token → Prop} {wellScoped : α → Prop}
    (hs : s.types.Consistent)
    (hp : ∀ {a}, p.Reads c s a s' ↔
      ∃ tokens, spelled a tokens ∧ wellScoped a ∧ s = s'.behind tokens)
    (hname : ∀ {a tokens}, spelled a tokens → ∃ n, BeginsWith n tokens) {found : Signature ⊕ α} :
    (member p).Reads c s found s' ↔
      (∃ f tokens, found = .inl f ∧ f.PointerDeclared tokens ∧ f.WellScoped s.types.visible ∧
        s = s'.behind tokens) ∨
      (∃ a tokens, found = .inr a ∧ spelled a tokens ∧ wellScoped a ∧ s = s'.behind tokens) := by
  rw [reads_member]
  constructor
  · rintro ⟨-, ⟨-, f, hf, rfl⟩ | ⟨-, a, ha, rfl⟩⟩
    · obtain ⟨tokens, hspelled, hscope, htokens⟩ := (reads_functionPointer hs).1 hf
      exact .inl ⟨f, tokens, rfl, hspelled, hscope, htokens⟩
    · obtain ⟨tokens, hspelled, hscope, htokens⟩ := hp.1 ha
      exact .inr ⟨a, tokens, rfl, hspelled, hscope, htokens⟩
  · rintro (⟨f, tokens, rfl, hspelled, hscope, htokens⟩ | ⟨a, tokens, rfl, hspelled, hscope, htokens⟩)
    · have hread : functionPointer.Reads c s f s' :=
        (reads_functionPointer hs).2 ⟨tokens, hspelled, hscope, htokens⟩
      -- the first token tells a pointer from what begins with a name
      obtain ⟨keyword, rest, hkeyword, rfl⟩ := hspelled.begins
      have hnext : tokenAt c s.rest 0 = keyword := by rw [htokens]; rfl
      rw [hnext]
      exact ⟨Token.isKeyword_eq_false_of_ne hkeyword (by decide), .inl ⟨hkeyword, f, hread, rfl⟩⟩
    · have hread := hp.2 ⟨tokens, hspelled, hscope, htokens⟩
      obtain ⟨n, hkey, rest, rfl⟩ := hname hspelled
      have hnext : tokenAt c s.rest 0 = n.token := by rw [htokens]; rfl
      rw [hnext]
      exact ⟨Token.isKeyword_name hkey _, .inr ⟨Token.isKeyword_name hkey _, a, hread, rfl⟩⟩

theorem reads_structMember {m : Member} (hs : s.types.Consistent) :
    structMember.Reads c s m s' ↔ ∃ tokens, StructMemberSpelled m tokens ∧
      m.WellScoped s.types.visible ∧ s = s'.behind tokens := by
  simp only [structMember, reads_bind, reads_member_iff hs (reads_variableDecl hs)
    fun h => ⟨_, Variable.Declared.beginsWith h⟩]
  constructor
  · rintro ⟨_, _, ⟨f, tokens, rfl, hspelled, hscope, rfl⟩ | ⟨v, tokens, rfl, hspelled, hscope, rfl⟩, h⟩
    · obtain ⟨rfl, rfl⟩ := reads_pure.1 h
      exact ⟨tokens, .pointer hspelled, hscope, rfl⟩
    · obtain ⟨rfl, rfl⟩ := reads_pure.1 h
      exact ⟨tokens, .field hspelled, hscope, rfl⟩
  · rintro ⟨tokens, hspelled | hspelled, hscope, rfl⟩
    · exact ⟨_, s', .inr ⟨_, tokens, rfl, hspelled, hscope, rfl⟩, reads_pure.2 ⟨rfl, rfl⟩⟩
    · exact ⟨_, s', .inl ⟨_, tokens, rfl, hspelled, hscope, rfl⟩, reads_pure.2 ⟨rfl, rfl⟩⟩

theorem reads_classMember {access : Access} {m : ClassMember} (hs : s.types.Consistent) :
    (classMember access).Reads c s m s' ↔ ∃ tokens, ClassMemberSpelled access m tokens ∧
      m.WellScoped s.types.visible ∧ s = s'.behind tokens := by
  simp only [classMember, reads_bind, reads_member_iff hs (reads_declaration hs)
    Declaration.Declared.exists_beginsWith]
  constructor
  · rintro ⟨_, _, ⟨f, tokens, rfl, hspelled, hscope, rfl⟩ | ⟨d, tokens, rfl, hspelled, hscope, rfl⟩, h⟩
    · obtain ⟨rfl, rfl⟩ := reads_pure.1 h
      exact ⟨tokens, .pointer hspelled, hscope, rfl⟩
    · cases hspelled with
      | variableDecl hspelled =>
        obtain ⟨rfl, rfl⟩ := reads_pure.1 h
        exact ⟨tokens, .field hspelled, hscope, rfl⟩
      | functionDecl hspelled =>
        obtain ⟨rfl, rfl⟩ := reads_pure.1 h
        exact ⟨tokens, .method hspelled, hscope, rfl⟩
  · rintro ⟨tokens, hspelled | hspelled | hspelled, hscope, rfl⟩
    · exact ⟨_, s', .inr ⟨.variableDecl _, tokens, rfl, .variableDecl hspelled, hscope, rfl⟩,
        reads_pure.2 ⟨rfl, rfl⟩⟩
    · exact ⟨_, s', .inl ⟨_, tokens, rfl, hspelled, hscope, rfl⟩, reads_pure.2 ⟨rfl, rfl⟩⟩
    · exact ⟨_, s', .inr ⟨.functionDecl _, tokens, rfl, .functionDecl hspelled, hscope, rfl⟩,
        reads_pure.2 ⟨rfl, rfl⟩⟩

/-! ## Lists of members -/

/-- Members of a struct are read up to the closing brace. -/
theorem spelled_of_reads_structMembers {n : Nat} {members : List Member} (hs : s.types.Consistent)
    (h : (structMembers n).Reads c s members s') :
    ∃ tokens, StructMembersSpelled members tokens ∧ (∀ m ∈ members, m.WellScoped s.types.visible) ∧
      s = s'.behind tokens ∧ (tokenAt c s'.rest 0).isOperator [closeBrace] = true := by
  induction n generalizing s members with
  | zero => exact absurd h not_reads_fail
  | succ n ih =>
    rw [structMembers, reads_checkOperator_bind] at h
    split at h
    · next hclose =>
      obtain ⟨rfl, rfl⟩ := reads_pure.1 h
      exact ⟨[], .nil, List.forall_mem_nil _, rfl, hclose⟩
    · obtain ⟨first, s₁, hfirst, hround⟩ := reads_bind.1 h
      obtain ⟨tokens, hspelled, hscope, rfl⟩ := (reads_structMember hs).1 hfirst
      obtain ⟨others, s₂, hothers, hpure⟩ := reads_bind.1 hround
      obtain ⟨rfl, rfl⟩ := reads_pure.1 hpure
      obtain ⟨rest, hrest, hscopes, rfl, hclose⟩ := ih (s := s₁) hs hothers
      exact ⟨tokens ++ rest, .cons hspelled hrest, List.forall_mem_cons.2 ⟨hscope, hscopes⟩,
        (State.behind_append ..).symm, hclose⟩

/-- A member of a struct does not begin with a brace. -/
theorem not_closing_of_structMember {m : Member} {tokens : List Token}
    (h : StructMemberSpelled m tokens) :
    (tokenAt c (s.behind tokens).rest 0).isOperator [closeBrace] = false := by
  cases h with
  | field h =>
    obtain ⟨-, rest, rfl⟩ := h.beginsWith
    rfl
  | pointer h =>
    obtain ⟨keyword, rest, hkeyword, rfl⟩ := h.begins
    exact Token.isOperator_of_isKeyword hkeyword _

/-- In front of the closing brace, members of a struct are read. The rounds are
    enough, because each member has a token. -/
theorem reads_structMembers {members : List Member} {tokens : List Token}
    (h : StructMembersSpelled members tokens) (hs : s'.types.Consistent)
    (hscope : ∀ m ∈ members, m.WellScoped s'.types.visible)
    (hclose : (tokenAt c s'.rest 0).isOperator [closeBrace] = true) {n : Nat}
    (hn : tokens.length < n) : (structMembers n).Reads c (s'.behind tokens) members s' := by
  induction h generalizing n with
  | nil =>
    obtain ⟨n, rfl⟩ := Nat.exists_eq_succ_of_ne_zero (Nat.ne_of_gt hn)
    exact reads_checkOperator_bind.2 ((reads_if_pos hclose).2 (reads_pure.2 ⟨rfl, rfl⟩))
  | @cons m others tokens rest hfirst hrest ih =>
    obtain ⟨n, rfl⟩ := Nat.exists_eq_succ_of_ne_zero (Nat.ne_of_gt (Nat.zero_lt_of_lt hn))
    obtain ⟨hscope, hscopes⟩ := List.forall_mem_cons.1 hscope
    have hlength : rest.length < n := by
      have := hfirst.length_pos
      rw [List.length_append] at hn
      omega
    rw [State.behind_append]
    refine reads_checkOperator_bind.2
      ((reads_if_neg (Bool.eq_false_iff.1 (not_closing_of_structMember hfirst))).2 ?_)
    exact reads_bind.2 ⟨m, s'.behind rest,
      (reads_structMember (s := (s'.behind rest).behind tokens) hs).2 ⟨tokens, hfirst, hscope, rfl⟩,
      reads_bind.2 ⟨others, s', ih hscopes hlength, reads_pure.2 ⟨rfl, rfl⟩⟩⟩

/-- A label is one of three keywords. -/
theorem isKeyword_of_label {t : Token} {access : Access} (h : labelAccess? t = some access) :
    t.isKeyword [access.keyword] = true := by
  simpa using List.find?_some h

/-- A token that is not one of the labels sets no access level. -/
theorem labelAccess?_eq_none {t : Token}
    (h : t.isKeyword ["public", "private", "protected"] = false) : labelAccess? t = none := by
  refine List.find?_eq_none.2 fun access haccess hkeyword => ?_
  obtain ⟨hlexeme, hreserved⟩ := Token.isKeyword_singleton.1 hkeyword
  rw [Token.isKeyword_of_identifier hlexeme, decide_eq_false_iff_not] at h
  refine h ⟨?_, hreserved⟩
  have hlevels : ∀ access ∈ [Access.publicAccess, .privateAccess, .protectedAccess],
      access.keyword ∈ ["public", "private", "protected"] := by decide
  exact hlevels access haccess

/-- The token that a label is read of. -/
theorem reads_pop_label {t : Token} {access : Access} :
    labelAccess? (tokenAt c s.rest 0) = some access ∧ pop.Reads c s t s' ↔
      labelAccess? t = some access ∧ s = s'.behind [t] := by
  have hpop := reads_pop_of_test c s s' t (labelAccess? · = some access)
    fun _ => decide_eq_false nofun
  simpa only [decide_eq_true_eq] using hpop

/-- Members of a class are read up to the closing brace. -/
theorem spelled_of_reads_classMembers {n : Nat} {access : Access} {members : List ClassMember}
    (hs : s.types.Consistent) (h : (classMembers n access).Reads c s members s') :
    ∃ tokens, ClassMembersSpelled access members tokens ∧
      (∀ m ∈ members, m.WellScoped s.types.visible) ∧ s = s'.behind tokens ∧
        (tokenAt c s'.rest 0).isOperator [closeBrace] = true := by
  induction n generalizing s members access with
  | zero => exact absurd h not_reads_fail
  | succ n ih =>
    rw [classMembers, reads_checkOperator_bind] at h
    split at h
    · next hclose =>
      obtain ⟨rfl, rfl⟩ := reads_pure.1 h
      exact ⟨[], .nil, List.forall_mem_nil _, rfl, hclose⟩
    · rw [reads_peek_bind] at h
      split at h
      · next access' hnext =>
        obtain ⟨t, s₁, ht, hbehind⟩ := reads_bind.1 h
        obtain ⟨hlabel, rfl⟩ := reads_pop_label.1 ⟨hnext, ht⟩
        obtain ⟨colon, s₂, hexpect, hothers⟩ := reads_bind.1 hbehind
        obtain ⟨hcolon, rfl⟩ := reads_expectOperator.1 hexpect
        obtain ⟨rest, hrest, hscopes, rfl, hclose⟩ := ih (s := s₂) hs hothers
        exact ⟨_, .label hlabel hcolon hrest, hscopes, rfl, hclose⟩
      · obtain ⟨found, s₁, hfound, hmember⟩ := reads_bind.1 h
        obtain ⟨m, s₂, hm, hbehind⟩ := reads_bind.1 hmember
        obtain ⟨others, s₃, hothers, hpure⟩ := reads_bind.1 hbehind
        obtain ⟨rfl, rfl⟩ := reads_pure.1 hpure
        rcases reads_matchKeyword.1 hfound with ⟨keyword, hkeyword, rfl, rfl⟩ | ⟨-, rfl, rfl⟩
        · obtain ⟨tokens, hspelled, hscope, rfl⟩ := (reads_classMember (s := s₁) hs).1 hm
          obtain ⟨rest, hrest, hscopes, rfl, hclose⟩ := ih (s := s₂) hs hothers
          refine ⟨_, .overriding hkeyword hspelled hrest, List.forall_mem_cons.2 ⟨hscope, hscopes⟩,
            ?_, hclose⟩
          simp only [← State.behind_append, List.cons_append, List.nil_append]
        · obtain ⟨tokens, hspelled, hscope, rfl⟩ := (reads_classMember hs).1 hm
          obtain ⟨rest, hrest, hscopes, rfl, hclose⟩ := ih (s := s₂) hs hothers
          exact ⟨_, .plain hspelled hrest, List.forall_mem_cons.2 ⟨hscope, hscopes⟩,
            (State.behind_append ..).symm, hclose⟩

/-- How a member of a class begins: not with a brace, a label or `override`. -/
theorem begins_of_classMember {access : Access} {m : ClassMember} {tokens : List Token}
    (h : ClassMemberSpelled access m tokens) :
    ∃ first rest, tokens = first :: rest ∧ first.isOperator [closeBrace] = false ∧
      labelAccess? first = none ∧ first.isKeyword ["override"] = false := by
  have hname {n : Name} {tokens : List Token} (h : BeginsWith n tokens) :
      ∃ first rest, tokens = first :: rest ∧ first.isOperator [closeBrace] = false ∧
        labelAccess? first = none ∧ first.isKeyword ["override"] = false := by
    obtain ⟨hkey, rest, rfl⟩ := h
    exact ⟨_, rest, rfl, rfl, labelAccess?_eq_none (Token.isKeyword_name hkey _),
      Token.isKeyword_name hkey _⟩
  cases h with
  | field h => exact hname h.beginsWith
  | method h => exact hname h.beginsWith
  | pointer h =>
    obtain ⟨keyword, rest, hkeyword, rfl⟩ := h.begins
    exact ⟨keyword, rest, rfl, Token.isOperator_of_isKeyword hkeyword _,
      labelAccess?_eq_none (Token.isKeyword_eq_false_of_ne hkeyword (by decide)),
      Token.isKeyword_eq_false_of_ne hkeyword (by decide)⟩

/-- In front of the closing brace, members of a class are read. -/
theorem reads_classMembers {access : Access} {members : List ClassMember} {tokens : List Token}
    (h : ClassMembersSpelled access members tokens) (hs : s'.types.Consistent)
    (hscope : ∀ m ∈ members, m.WellScoped s'.types.visible)
    (hclose : (tokenAt c s'.rest 0).isOperator [closeBrace] = true) {n : Nat}
    (hn : tokens.length < n) :
    (classMembers n access).Reads c (s'.behind tokens) members s' := by
  induction h generalizing n with
  | nil =>
    obtain ⟨n, rfl⟩ := Nat.exists_eq_succ_of_ne_zero (Nat.ne_of_gt hn)
    exact reads_checkOperator_bind.2 ((reads_if_pos hclose).2 (reads_pure.2 ⟨rfl, rfl⟩))
  | @label _ access' t colon members rest hlabel hcolon hrest ih =>
    obtain ⟨n, rfl⟩ := Nat.exists_eq_succ_of_ne_zero (Nat.ne_of_gt (Nat.zero_lt_of_lt hn))
    have hlength : rest.length < n := by
      rw [List.length_cons, List.length_cons] at hn
      omega
    refine reads_checkOperator_bind.2 ((reads_if_neg ?_).2 (reads_peek_bind.2 ?_))
    · exact Bool.eq_false_iff.1 (Token.isOperator_of_isKeyword (isKeyword_of_label hlabel) _)
    · have hpop : pop.Reads c (s'.behind (t :: colon :: rest)) t (s'.behind (colon :: rest)) :=
        (reads_pop_label.2 ⟨hlabel, State.behind_cons t (colon :: rest) s'⟩).2
      rw [tokenAt_behind_cons, hlabel]
      exact reads_bind.2 ⟨t, s'.behind (colon :: rest), hpop, reads_bind.2
        ⟨colon, s'.behind rest, reads_expectOperator.2 ⟨hcolon, rfl⟩, ih hscope hlength⟩⟩
  | @plain access m others tokens rest hm hrest ih =>
    obtain ⟨n, rfl⟩ := Nat.exists_eq_succ_of_ne_zero (Nat.ne_of_gt (Nat.zero_lt_of_lt hn))
    obtain ⟨hscope, hscopes⟩ := List.forall_mem_cons.1 hscope
    have hlength : rest.length < n := by
      have := hm.length_pos
      rw [List.length_append] at hn
      omega
    have hread : (classMember access).Reads c ((s'.behind rest).behind tokens) m (s'.behind rest) :=
      (reads_classMember (s := (s'.behind rest).behind tokens) hs).2 ⟨tokens, hm, hscope, rfl⟩
    obtain ⟨first, others', rfl, hbrace, hlabel, hkeyword⟩ := begins_of_classMember hm
    rw [State.behind_append]
    refine reads_checkOperator_bind.2
      ((reads_if_neg (Bool.eq_false_iff.1 hbrace)).2 (reads_peek_bind.2 ?_))
    rw [tokenAt_behind_cons, hlabel]
    exact reads_bind.2 ⟨none, _, reads_matchKeyword.2 (.inr ⟨hkeyword, rfl, rfl⟩), reads_bind.2
      ⟨m, s'.behind rest, hread, reads_bind.2 ⟨others, s', ih hscopes hlength,
        reads_pure.2 ⟨rfl, rfl⟩⟩⟩⟩
  | @overriding access keyword m others tokens rest hkeyword hm hrest ih =>
    obtain ⟨n, rfl⟩ := Nat.exists_eq_succ_of_ne_zero (Nat.ne_of_gt (Nat.zero_lt_of_lt hn))
    obtain ⟨hscope, hscopes⟩ := List.forall_mem_cons.1 hscope
    have hlength : rest.length < n := by
      rw [List.length_cons, List.length_append] at hn
      omega
    have hread : (classMember .overrideAccess).Reads c ((s'.behind rest).behind tokens) m
        (s'.behind rest) :=
      (reads_classMember (s := (s'.behind rest).behind tokens) hs).2 ⟨tokens, hm, hscope, rfl⟩
    refine reads_checkOperator_bind.2 ((reads_if_neg ?_).2 (reads_peek_bind.2 ?_))
    · exact Bool.eq_false_iff.1 (Token.isOperator_of_isKeyword hkeyword _)
    · rw [tokenAt_behind_cons, labelAccess?_eq_none (Token.isKeyword_eq_false_of_ne hkeyword (by decide))]
      refine reads_bind.2 ⟨some keyword, (s'.behind rest).behind tokens,
        reads_matchKeyword.2 (.inl ⟨keyword, hkeyword, ?_, rfl⟩), reads_bind.2
          ⟨m, s'.behind rest, hread, reads_bind.2 ⟨others, s', ih hscopes hlength,
            reads_pure.2 ⟨rfl, rfl⟩⟩⟩⟩
      simp only [← State.behind_append, List.cons_append, List.nil_append]

/-! ## Structs and classes -/

/-- The name of a struct or class is known inside of it. -/
theorem visible_register (t : TypeNames) (name : String) :
    (t.register name).visible = t.visible ++ [name] :=
  t.visible_registerAll [name]

/-- A body is read of braces around what is read inside, and a `;`. -/
theorem reads_body {β : Type} {p : Parser α} {f : α → β} {b : β} :
    (do
      let _ ← expectOperator openBrace
      let a ← p
      let _ ← expectOperator closeBrace
      let _ ← expectOperator ";"
      return f a : Parser β).Reads c s b s' ↔
    ∃ opening closing stop a s₁, opening.isOperator [openBrace] = true ∧
      closing.isOperator [closeBrace] = true ∧ stop.isOperator [";"] = true ∧
      s = s₁.behind [opening] ∧ p.Reads c s₁ a (s'.behind [closing, stop]) ∧ b = f a := by
  simp only [reads_bind, reads_expectOperator, reads_pure]
  constructor
  · rintro ⟨opening, s₁, ⟨hopen, rfl⟩, a, _, hread, closing, _, ⟨hclose, rfl⟩, stop, _,
      ⟨hstop, rfl⟩, rfl, rfl⟩
    exact ⟨opening, closing, stop, a, s₁, hopen, hclose, hstop, rfl, hread, rfl⟩
  · rintro ⟨opening, closing, stop, a, s₁, hopen, hclose, hstop, rfl, hread, rfl⟩
    exact ⟨opening, s₁, ⟨hopen, rfl⟩, a, _, hread, closing, s'.behind [stop], ⟨hclose, rfl⟩, stop,
      s', ⟨hstop, rfl⟩, rfl, rfl⟩

theorem reads_structDecl {d : Struct} (hs : s.types.Consistent) :
    structDecl.Reads c s d s' ↔ ∃ tokens, d.Spelled tokens ∧ d.WellScoped s.types.visible ∧
      s.rest = tokens ++ s'.rest ∧ s'.types = s.types.register d.name.text := by
  have hinside := TypeNames.consistent_register hs
  simp only [structDecl, reads_bind, reads_expectKeyword, reads_register, reads_matchOperator]
  constructor
  · rintro ⟨keyword, s₁, ⟨hkeyword, rfl⟩, name, s₂, ⟨hkey, hrest, htypes⟩, found, s₃, hfound, h⟩
    rcases hfound with ⟨stop, hstop, rfl, rfl⟩ | ⟨-, rfl, rfl⟩
    · obtain ⟨rfl, rfl⟩ := reads_pure.1 h
      refine ⟨_, .forward hkeyword hkey hstop, nofun, ?_, htypes⟩
      exact congrArg (keyword :: ·) hrest
    · obtain ⟨opening, closing, stop, members, s₄, hopen, hclose, hstop, rfl, hmembers, rfl⟩ :=
        reads_body.1 h
      -- the members are read when the name is registered already
      have hs₄ : s₄.types = s₁.types.register name.text := htypes
      obtain ⟨inside, hspelled, hscope, rfl, -⟩ :=
        spelled_of_reads_structMembers (by rw [hs₄]; exact hinside _) (reads_budgeted.1 hmembers)
      refine ⟨_, .whole hkeyword hkey hopen hspelled hclose hstop, ?_, ?_, htypes⟩
      · rintro _ ⟨⟩ m hm
        have := hscope m hm
        rwa [hs₄, visible_register] at this
      · show keyword :: s₁.rest = _
        rw [hrest]
        simp [State.behind]
  · obtain ⟨rest, types⟩ := s
    rintro ⟨tokens, hspelled, hscope, rfl, htypes⟩
    cases hspelled with
    | @forward name keyword stop hkeyword hkey hstop =>
      exact ⟨keyword, ⟨name.token :: stop :: s'.rest, types⟩, ⟨hkeyword, rfl⟩, name,
        s'.behind [stop], ⟨hkey, rfl, htypes⟩, some stop, s', .inl ⟨stop, hstop, rfl, rfl⟩,
        reads_pure.2 ⟨rfl, rfl⟩⟩
    | @whole name members keyword opening closing stop inside hkeyword hkey hopen hmembers hclose
        hstop =>
      have hs' : (s'.behind [closing, stop]).types.Consistent := by
        rw [State.types_behind, htypes]
        exact hinside _
      have hscope' : ∀ m ∈ members, m.WellScoped s'.types.visible := by
        rw [htypes, visible_register]
        exact hscope members rfl
      have hread : (budgeted structMembers).Reads c (s'.behind (inside ++ [closing, stop])) members
          (s'.behind [closing, stop]) := by
        rw [State.behind_append]
        exact reads_budgeted.2 (reads_structMembers hmembers hs'
          hscope' hclose (State.length_lt_budget ..))
      refine ⟨keyword, ⟨name.token :: opening :: (inside ++ [closing, stop]) ++ s'.rest, types⟩,
        ⟨hkeyword, rfl⟩, name, s'.behind (opening :: (inside ++ [closing, stop])),
        ⟨hkey, rfl, htypes⟩, none, _,
        .inr ⟨Token.isOperator_eq_false_of_stop hopen (by decide), rfl, rfl⟩, ?_⟩
      exact reads_body.2 ⟨opening, closing, stop, members, _, hopen, hclose, hstop,
        State.behind_cons .., hread, rfl⟩

/-- The traits of a class are names with commas between them, in front of a
    token that is no comma. -/
theorem reads_trait {t : TypeRef} :
    trait.Reads c s t s' ↔ ∃ tokens, TraitSpelled t tokens ∧ s = s'.behind tokens := by
  simp only [trait, reads_bind, reads_popName, reads_pure]
  constructor
  · rintro ⟨name, _, ⟨hkey, rfl⟩, rfl, rfl⟩
    exact ⟨_, .intro hkey, rfl⟩
  · rintro ⟨_, @⟨name, hkey⟩, rfl⟩
    exact ⟨name, s', ⟨hkey, rfl⟩, rfl, rfl⟩

theorem spelled_of_reads_traits {list : List TypeRef} (h : traits.Reads c s list s') :
    ∃ tokens, TraitsSpelled list tokens ∧ s = s'.behind tokens := by
  simp only [traits, reads_bind, reads_matchOperator] at h
  obtain ⟨_, s₁, ⟨colon, hcolon, rfl, rfl⟩ | ⟨-, rfl, rfl⟩, h⟩ := h
  · obtain ⟨tokens, hspelled, rfl⟩ :=
      spelled_of_reads_commaList (fun _ h => reads_trait.1 h) rfl (reads_budgeted.1 h)
    exact ⟨_, .some hcolon hspelled, rfl⟩
  · obtain ⟨rfl, rfl⟩ := reads_pure.1 h
    exact ⟨[], .none, rfl⟩

/-- In front of the opening brace, traits are read. -/
theorem reads_traits {list : List TypeRef} {tokens : List Token} (h : TraitsSpelled list tokens)
    (hopen : (tokenAt c s'.rest 0).isOperator [openBrace] = true) :
    traits.Reads c (s'.behind tokens) list s' := by
  simp only [traits, reads_bind, reads_matchOperator]
  cases h with
  | none =>
    exact ⟨none, s', .inr ⟨Token.isOperator_eq_false_of_stop hopen (by decide), rfl, rfl⟩,
      reads_pure.2 ⟨rfl, rfl⟩⟩
  | @some _ colon tokens hcolon hlist =>
    have hnext : (tokenAt c s'.rest 0).isOperator [",", openBrace] = true := by
      rw [Token.isOperator, Token.isOperator_singleton.1 hopen]
      rfl
    have hread : (budgeted (commaList trait)).Reads c (s'.behind tokens) list s' :=
      reads_budgeted.2 (reads_commaList (fun _ h _ => reads_trait.2 ⟨_, h, rfl⟩) List.mem_cons_self
        hlist rfl hnext (Token.isOperator_eq_false_of_stop hopen (by decide))
        (State.length_lt_budget ..))
    exact ⟨some colon, s'.behind tokens, .inl ⟨colon, hcolon, rfl, rfl⟩, hread⟩

theorem reads_classDecl {d : Class} (hs : s.types.Consistent) :
    classDecl.Reads c s d s' ↔ ∃ tokens, d.Spelled tokens ∧ d.WellScoped s.types.visible ∧
      s.rest = tokens ++ s'.rest ∧ s'.types = s.types.register d.name.text := by
  have hinside := TypeNames.consistent_register hs
  simp only [classDecl, reads_bind, reads_expectKeyword, reads_register, reads_matchOperator]
  constructor
  · rintro ⟨keyword, s₁, ⟨hkeyword, rfl⟩, name, s₂, ⟨hkey, hrest, htypes⟩, found, s₃, hfound, h⟩
    rcases hfound with ⟨stop, hstop, rfl, rfl⟩ | ⟨-, rfl, rfl⟩
    · obtain ⟨rfl, rfl⟩ := reads_pure.1 h
      refine ⟨_, .forward hkeyword hkey hstop, nofun, ?_, htypes⟩
      exact congrArg (keyword :: ·) hrest
    · obtain ⟨list, s₄, htraits, h₄⟩ := reads_bind.1 h
      obtain ⟨listed, hlist, rfl⟩ := spelled_of_reads_traits htraits
      obtain ⟨opening, closing, stop, members, s₅, hopen, hclose, hstop, rfl, hmembers, rfl⟩ :=
        reads_body.1 h₄
      -- the members are read when the name is registered already
      have hs₅ : s₅.types = s₁.types.register name.text := htypes
      obtain ⟨inside, hspelled, hscope, rfl, -⟩ :=
        spelled_of_reads_classMembers (by rw [hs₅]; exact hinside _) (reads_budgeted.1 hmembers)
      refine ⟨_, .whole hkeyword hkey hlist hopen hspelled hclose hstop, ?_, ?_, htypes⟩
      · rintro _ ⟨⟩
        refine wellScoped_members_iff.1 fun m hm => ?_
        have := hscope m hm
        rwa [hs₅, visible_register] at this
      · show keyword :: s₁.rest = _
        rw [hrest]
        simp [State.behind]
  · obtain ⟨rest, types⟩ := s
    rintro ⟨tokens, hspelled, hscope, rfl, htypes⟩
    cases hspelled with
    | @forward name keyword stop hkeyword hkey hstop =>
      exact ⟨keyword, ⟨name.token :: stop :: s'.rest, types⟩, ⟨hkeyword, rfl⟩, name,
        s'.behind [stop], ⟨hkey, rfl, htypes⟩, some stop, s', .inl ⟨stop, hstop, rfl, rfl⟩,
        reads_pure.2 ⟨rfl, rfl⟩⟩
    | @whole name list members keyword opening closing stop listed inside hkeyword hkey hlist hopen
        hmembers hclose hstop =>
      have hs' : (s'.behind [closing, stop]).types.Consistent := by
        rw [State.types_behind, htypes]
        exact hinside _
      have hscope' : ∀ m ∈ members, m.WellScoped s'.types.visible := by
        rw [htypes, visible_register]
        exact wellScoped_members_iff.2 (hscope _ rfl)
      have htraits : traits.Reads c (s'.behind (listed ++ opening :: (inside ++ [closing, stop])))
          list (s'.behind (opening :: (inside ++ [closing, stop]))) := by
        rw [State.behind_append]
        exact reads_traits hlist hopen
      have hread : (budgeted fun n => classMembers n .privateAccess).Reads c
          (s'.behind (inside ++ [closing, stop])) members (s'.behind [closing, stop]) := by
        rw [State.behind_append]
        exact reads_budgeted.2 (reads_classMembers hmembers hs'
          hscope' hclose (State.length_lt_budget ..))
      have hnext : (tokenAt c (s'.behind (listed ++ opening :: (inside ++ [closing, stop]))).rest
          0).isOperator [";"] = false := by
        cases hlist with
        | none => exact Token.isOperator_eq_false_of_stop hopen (by decide)
        | some hcolon _ => exact Token.isOperator_eq_false_of_stop hcolon (by decide)
      refine ⟨keyword, ⟨name.token :: (listed ++ opening :: (inside ++ [closing, stop])) ++ s'.rest,
        types⟩, ⟨hkeyword, rfl⟩, name, s'.behind (listed ++ opening :: (inside ++ [closing, stop])),
        ⟨hkey, rfl, htypes⟩, none, _, .inr ⟨hnext, rfl, rfl⟩, ?_⟩
      exact reads_bind.2 ⟨list, _, htraits, reads_body.2 ⟨opening, closing, stop, members, _, hopen,
        hclose, hstop, State.behind_cons .., hread, rfl⟩⟩

end Flattener.Parser
