import Flattener.Proofs.Grammar.Declarations
import Flattener.Proofs.Grammar.WayOut

/-!
# What is spelled can be told from the tokens

No two variables, signatures or pointers to functions are spelled by the same tokens, and
the tokens of one of them say where it ends, if what follows is what may follow it
(`Unambiguous`). Which names are types plays no part in that, so that it holds of
declarations which cannot be read, too.
-/

namespace Flattener

/-- Tokens spell no two things, and where the spelling of one ends can be told from them,
    if it is followed by what may follow. -/
def Unambiguous {α : Type} (follows : List Token → Prop) (spelled : α → List Token → Prop) : Prop :=
  ∀ ⦃a b : α⦄ ⦃tokens tokens' rest rest' : List Token⦄, spelled a tokens → spelled b tokens' →
    follows rest → follows rest' → tokens ++ rest = tokens' ++ rest' → a = b ∧ rest = rest'

/-- Anything may come next. -/
def Anywhere (_ : List Token) : Prop :=
  True

/-- An operator of one of the spellings comes next. -/
def Before (spellings : List String) (rest : List Token) : Prop :=
  ∃ t others, rest = t :: others ∧ t.isOperator spellings = true

theorem Before.isOperator_head {spellings : List String} {t : Token} {others : List Token}
    (h : Before spellings (t :: others)) : t.isOperator spellings = true := by
  obtain ⟨_, _, ⟨⟩, ht⟩ := h
  exact ht

variable {α : Type} {rest rest' : List Token}

/-- A parser reads one thing at a state. -/
theorem Parser.Reads.unique {p : Parser α} {c : Context} {s s₁ s₂ : State} {a b : α}
    (h : p.Reads c s a s₁) (h' : p.Reads c s b s₂) : a = b ∧ s₁ = s₂ := by
  obtain ⟨hread, rfl⟩ := h
  obtain ⟨hread', rfl⟩ := h'
  exact ⟨Except.ok.inj (hread.symm.trans hread'), rfl⟩

theorem Name.token_inj {n n' : Name} (h : n.token = n'.token) : n = n' := by
  obtain ⟨text, location⟩ := n
  obtain ⟨text', location'⟩ := n'
  simp_all [token]

/-! ## Types -/

/-- Behind a type comes a token that is no star. Its size stands elsewhere. -/
theorem TypeRef.Spelled.unique {type type' : TypeRef} {lead lead' : List Token} {t t' : Token}
    (h : type.Spelled lead) (h' : type'.Spelled lead') (ht : t.isOperator ["*"] = false)
    (ht' : t'.isOperator ["*"] = false) (heq : lead ++ t :: rest = lead' ++ t' :: rest') :
    type.name = type'.name ∧ type.pointers = type'.pointers ∧ t = t' ∧ rest = rest' := by
  obtain ⟨size, -, hstars⟩ := h
  obtain ⟨size', -, hstars'⟩ := h'
  obtain ⟨hname, heq⟩ := List.cons.inj heq
  obtain ⟨rfl, rfl, rfl⟩ := append_cons_inj hstars hstars' ht ht' heq
  exact ⟨Name.token_inj hname, rfl, rfl, rfl⟩

/-! ## Variables -/

theorem Before.isOperator_tokenAt {spellings : List String} (c : Context)
    (h : Before spellings rest) : (Parser.tokenAt c rest 0).isOperator spellings = true := by
  obtain ⟨t, others, rfl, ht⟩ := h
  exact ht

theorem before_cons {spellings : List String} {t : Token} (h : t.isOperator spellings = true)
    (others : List Token) : Before spellings (t :: others) :=
  ⟨t, others, rfl, h⟩

/-- What stands behind a name is read without regard to the names that are types, and so
    its tokens tell it. -/
theorem tail_unique {stops : List String} (hbracket : "[" ∉ stops) (hsign : "=" ∉ stops)
    {n n' : Option Nat} {run run' : Option RawRun} {size size' initial initial' : List Token}
    (hsize : SizeSpelled n size) (hinitial : InitialSpelled stops run initial)
    (hsize' : SizeSpelled n' size') (hinitial' : InitialSpelled stops run' initial')
    (hstop : Before stops rest) (hstop' : Before stops rest')
    (heq : size ++ initial ++ rest = size' ++ initial' ++ rest') :
    n = n' ∧ run = run' ∧ rest = rest' := by
  let c : Context := ⟨default, []⟩
  let types := TypeNames.ofBuiltins []
  let name : Name := ⟨"", default⟩
  let type : TypeRef := ⟨name, 0, none⟩
  have hread {n : Option Nat} {run : Option RawRun} {size initial rest : List Token}
      (hsize : SizeSpelled n size) (hinitial : InitialSpelled stops run initial)
      (hstop : Before stops rest) :
      (Parser.variableTail type name stops).Reads c (State.behind (size ++ initial) ⟨rest, types⟩)
        ⟨name, { type with arraySize := n }, run⟩ ⟨rest, types⟩ :=
    Parser.reads_variableTail hsize hinitial (hstop.isOperator_tokenAt c) hbracket hsign
  have hstate : State.behind (size ++ initial) ⟨rest, types⟩ =
      State.behind (size' ++ initial') ⟨rest', types⟩ := congrArg (State.mk · types) heq
  have hfirst := hread hsize hinitial hstop
  rw [hstate] at hfirst
  obtain ⟨hsame, hrest⟩ := hfirst.unique (hread hsize' hinitial' hstop')
  simp only [Variable.mk.injEq, TypeRef.mk.injEq, true_and] at hsame
  exact ⟨hsame.1, hsame.2, congrArg State.rest hrest⟩

theorem Variable.Spelled.unambiguous {stops : List String} (hbracket : "[" ∉ stops)
    (hsign : "=" ∉ stops) : Unambiguous (Before stops) (Variable.Spelled stops) := by
  rintro ⟨name, type, run⟩ ⟨name', type', run'⟩ _ _ rest rest' ⟨hlead, -, hsize, hinitial⟩
    ⟨hlead', -, hsize', hinitial'⟩ hstop hstop' heq
  rw [List.append_assoc, List.append_assoc] at heq
  obtain ⟨htype, hstars, hname, hbehind⟩ := hlead.unique hlead' rfl rfl heq
  obtain ⟨hn, rfl, hrest⟩ := tail_unique hbracket hsign hsize hinitial hsize' hinitial' hstop hstop'
    hbehind
  exact ⟨by rw [Variable.mk.injEq, TypeRef.mk.injEq]; exact ⟨Name.token_inj hname,
    ⟨htype, hstars, hn⟩, rfl⟩, hrest⟩

theorem Variable.Declared.unambiguous : Unambiguous Anywhere Variable.Declared := by
  rintro v v' _ _ rest rest' ⟨hspelled, hstop⟩ ⟨hspelled', hstop'⟩ - - heq
  rw [List.append_assoc, List.append_assoc] at heq
  obtain ⟨rfl, heq⟩ := Variable.Spelled.unambiguous (by decide) (by decide) hspelled hspelled'
    (before_cons hstop _) (before_cons hstop' _) heq
  exact ⟨rfl, (List.cons.inj heq).2⟩

/-! ## Signatures -/

/-- A list ends in front of what is no comma. -/
theorem Unambiguous.commaSpelled {spelled : α → List Token → Prop}
    (h : Unambiguous (Before [",", ")"]) spelled) :
    Unambiguous (Before [")"]) (CommaSpelled spelled) := by
  intro list list' tokens tokens' rest rest' hlist hlist' hclose hclose' heq
  have hnext {rest : List Token} (h : Before [")"] rest) : Before [",", ")"] rest := by
    obtain ⟨t, others, rfl, ht⟩ := h
    exact before_cons (Token.isOperator_mono (by decide) ht) others
  have hcomma {comma : Token} (hcomma : comma.isOperator [","] = true) (others : List Token) :
      Before [",", ")"] (comma :: others) :=
    before_cons (Token.isOperator_mono (by decide) hcomma) others
  have hno {comma : Token} {others : List Token} (hcomma : comma.isOperator [","] = true) :
      ¬Before [")"] (comma :: others) := fun hbefore => by
    have hclosing : comma.isOperator [")"] = false :=
      Token.isOperator_eq_false_of_stop hcomma (by decide)
    rw [hbefore.isOperator_head] at hclosing
    cases hclosing
  induction hlist generalizing list' tokens' with
  | one ha =>
    cases hlist' with
    | one hb =>
      obtain ⟨rfl, hrest⟩ := h ha hb (hnext hclose) (hnext hclose') heq
      exact ⟨rfl, hrest⟩
    | more hb hsep _ =>
      rw [List.append_assoc] at heq
      obtain ⟨-, rfl⟩ := h ha hb (hnext hclose) (hcomma hsep _) heq
      exact absurd hclose (hno hsep)
  | @more a others tokens between comma ha hsep hothers ih =>
    rw [List.append_assoc] at heq
    cases hlist' with
    | one hb =>
      obtain ⟨-, rfl⟩ := h ha hb (hcomma hsep _) (hnext hclose') heq
      exact absurd hclose' (hno hsep)
    | more hb hsep' hothers' =>
      rw [List.append_assoc] at heq
      obtain ⟨rfl, heq⟩ := h ha hb (hcomma hsep _) (hcomma hsep' _) heq
      obtain ⟨rfl, hrest⟩ := ih hothers' (List.cons.inj heq).2
      exact ⟨rfl, hrest⟩

/-- Parameters are more than one token in front of what closes the list. -/
theorem CommaSpelled.ne_closing {list : List Variable} {tokens : List Token}
    (h : CommaSpelled (Variable.Spelled [",", ")"]) list tokens) (hclose : Before [")"] rest) :
    tokens ++ rest' ≠ rest ∧ ∀ t, tokens ++ rest' ≠ t :: rest := by
  obtain ⟨first, second, others, hleads, hfirst, hsecond⟩ : ∃ first second others,
      tokens ++ rest' = first :: second :: others ∧ first.isOperator [")"] = false ∧
        second.isOperator [")"] = false := by
    cases h with
    | one h =>
      obtain ⟨first, second, others, rfl, hfirst, hsecond⟩ := h.leads
      exact ⟨first, second, _, rfl, hfirst, hsecond⟩
    | more h _ _ =>
      obtain ⟨first, second, others, rfl, hfirst, hsecond⟩ := h.leads
      exact ⟨first, second, _, rfl, hfirst, hsecond⟩
  obtain ⟨closing, others', rfl, hclosing⟩ := hclose
  rw [hleads]
  refine ⟨fun heq => ?_, fun t heq => ?_⟩
  · rw [(List.cons.inj heq).1, hclosing] at hfirst
    cases hfirst
  · rw [(List.cons.inj (List.cons.inj heq).2).1, hclosing] at hsecond
    cases hsecond

theorem ParametersSpelled.unambiguous : Unambiguous (Before [")"]) ParametersSpelled := by
  intro list list' tokens tokens' rest rest' hlist hlist' hclose hclose' heq
  have hvoid {t : Token} {rest rest' : List Token} (ht : t.lexeme = .identifier "void")
      (hclose : Before [")"] rest) : rest ≠ t :: rest' := fun h => by
    subst h
    exact absurd hclose.isOperator_head (by rw [Token.isOperator_of_identifier ht]; decide)
  have hparameter : Unambiguous (Before [",", ")"]) (Variable.Spelled [",", ")"]) :=
    Variable.Spelled.unambiguous (by decide) (by decide)
  cases hlist with
  | none =>
    cases hlist' with
    | none => exact ⟨rfl, heq⟩
    | void ht => exact absurd heq (hvoid ht hclose)
    | some h => exact absurd heq.symm (h.ne_closing hclose).1
  | void ht =>
    cases hlist' with
    | none => exact absurd heq.symm (hvoid ht hclose')
    | void ht' => exact ⟨rfl, (List.cons.inj heq).2⟩
    | some h => exact absurd heq.symm ((h.ne_closing hclose).2 _)
  | some h =>
    cases hlist' with
    | none => exact absurd heq (h.ne_closing hclose').1
    | void ht => exact absurd heq ((h.ne_closing hclose').2 _)
    | some h' => exact hparameter.commaSpelled h h' hclose hclose' heq

theorem ParameterListSpelled.unambiguous : Unambiguous Anywhere ParameterListSpelled := by
  rintro list list' _ _ rest rest' ⟨-, hlist, hclose⟩ ⟨-, hlist', hclose'⟩ - - heq
  simp only [List.cons_append, List.append_assoc, List.nil_append] at heq
  obtain ⟨rfl, hrest⟩ := ParametersSpelled.unambiguous hlist hlist' (before_cons hclose _)
    (before_cons hclose' _) (List.cons.inj heq).2
  exact ⟨rfl, (List.cons.inj hrest).2⟩

/-- What stands in front of the parameters is told as it is of variables. -/
theorem Signature.Declared.unambiguous : Unambiguous Anywhere Signature.Declared := by
  rintro ⟨name, returns, list⟩ ⟨name', returns', list'⟩ _ _ rest rest'
    ⟨hlead, hsize, -, hlist, -⟩ ⟨hlead', hsize', -, hlist', -⟩ - - heq
  simp only [List.cons_append, List.append_assoc, List.nil_append] at heq
  obtain ⟨htype, hstars, hname, hbehind⟩ := hlead.unique hlead' rfl rfl heq
  obtain ⟨hlists, hrest⟩ := ParameterListSpelled.unambiguous hlist hlist' trivial trivial hbehind
  refine ⟨?_, (List.cons.inj hrest).2⟩
  rw [Signature.mk.injEq, TypeRef.mk.injEq]
  exact ⟨Name.token_inj hname, ⟨htype, hstars, hsize.trans hsize'.symm⟩, hlists⟩

theorem Signature.PointerDeclared.unambiguous :
    Unambiguous Anywhere Signature.PointerDeclared := by
  rintro ⟨name, returns, list⟩ ⟨name', returns', list'⟩ _ _ rest rest'
    ⟨-, hlead, hsize, hopen, -, -, -, hlist, -⟩ ⟨-, hlead', hsize', hopen', -, -, -, hlist', -⟩ - -
    heq
  simp only [List.cons_append, List.append_assoc, List.nil_append] at heq
  have hparenthesis {t : Token} (h : t.isOperator ["("] = true) : t.isOperator ["*"] = false :=
    Token.isOperator_eq_false_of_stop h (by decide)
  obtain ⟨htype, hstars, -, hbehind⟩ := hlead.unique hlead' (hparenthesis hopen)
    (hparenthesis hopen') (List.cons.inj heq).2
  obtain ⟨-, hbehind⟩ := List.cons.inj hbehind
  obtain ⟨hname, hbehind⟩ := List.cons.inj hbehind
  obtain ⟨hlists, hrest⟩ := ParameterListSpelled.unambiguous hlist hlist' trivial trivial
    (List.cons.inj hbehind).2
  refine ⟨?_, (List.cons.inj hrest).2⟩
  rw [Signature.mk.injEq, TypeRef.mk.injEq]
  exact ⟨Name.token_inj hname, ⟨htype, hstars, hsize.trans hsize'.symm⟩, hlists⟩

/-- A prototype goes on with parentheses behind the name, and a variable does not. -/
theorem Signature.Declared.ne_variable {f : Signature} {v : Variable} {tokens tokens' : List Token}
    (hf : f.Declared tokens) (hv : v.Declared tokens') : tokens ++ rest ≠ tokens' ++ rest' := by
  obtain ⟨hlead, -, -, @⟨opening, _, _, hopen, -, -⟩, -⟩ := hf
  obtain ⟨⟨hlead', -, hsize, hinitial⟩, hstop⟩ := hv
  intro heq
  simp only [List.cons_append, List.append_assoc, List.nil_append] at heq
  obtain ⟨-, -, -, hbehind⟩ := hlead.unique hlead' rfl rfl heq
  have hdiffers {t : Token} {spelling : String} (ht : t.isOperator [spelling] = true)
      (hspelling : "(" ∉ [spelling]) {behind behind' : List Token} :
      opening :: behind ≠ t :: behind' := fun heq => by
    rw [(List.cons.inj heq).1, Token.isOperator_eq_false_of_stop ht hspelling] at hopen
    cases hopen
  generalize v.type.arraySize = n at hsize
  generalize v.initial = run at hinitial
  cases hsize with
  | present hbracket _ _ _ => exact hdiffers hbracket (by decide) hbehind
  | absent =>
    cases hinitial with
    | present hsign _ => exact hdiffers hsign (by decide) hbehind
    | absent => exact hdiffers hstop (by decide) hbehind

theorem Declaration.Declared.unambiguous : Unambiguous Anywhere Declaration.Declared := by
  rintro d d' tokens tokens' rest rest' (hv | hf) (hv' | hf') - - heq
  · obtain ⟨rfl, hrest⟩ := Variable.Declared.unambiguous hv hv' trivial trivial heq
    exact ⟨rfl, hrest⟩
  · exact absurd heq.symm (hf'.ne_variable hv)
  · exact absurd heq (hf.ne_variable hv')
  · obtain ⟨rfl, hrest⟩ := Signature.Declared.unambiguous hf hf' trivial trivial heq
    exact ⟨rfl, hrest⟩

end Flattener
