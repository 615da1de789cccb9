import Flattener.Proofs.Grammar.Soundness

/-!
# What a parse has to read

Tokens that spell a well-scoped tree of declarations are parsed to that tree
(`parse_of_spelled`). No round of a scope goes astray: the first token of an item
calls for its own production, which then succeeds, so nothing is given up and
nothing is passed through as a statement.

A tree with raw runs may be spelled by tokens that mean something else, so there
may not be any (`ItemsRawFree`).
-/

namespace Flattener

mutual

/-- The item is not a raw run and holds none in its scopes. -/
def Item.RawFree : Item → Prop
  | .raw _ => False
  | .variableDecl _ => True
  | .functionDecl _ => True
  | .structDecl _ => True
  | .classDecl _ => True
  | .namespaceDecl _ children => ItemsRawFree children

/-- There are no raw runs in the scopes of items. -/
def ItemsRawFree : List Item → Prop
  | [] => True
  | item :: items => item.RawFree ∧ ItemsRawFree items

end

namespace Parser

variable {c : Context} {s s' : State} {nested : Bool} {n : Nat}

/-! ## The first token of an item -/

theorem productionAt_of_namespace {t : Token} (h : t.isKeyword ["namespace"] = true)
    (hs : tokenAt c s.rest 0 = t) : productionAt c s = some .namespaceDecl := by
  rw [productionAt, hs, if_pos h]

theorem productionAt_of_class {t : Token} (h : t.isKeyword ["class"] = true)
    (hs : tokenAt c s.rest 0 = t) : productionAt c s = some .classDecl := by
  rw [productionAt, hs, Token.isKeyword_eq_false_of_ne h (by decide), h]
  rfl

theorem productionAt_of_struct {t : Token} (h : t.isKeyword ["struct"] = true)
    (hs : tokenAt c s.rest 0 = t) : productionAt c s = some .structDecl := by
  rw [productionAt, hs, Token.isKeyword_eq_false_of_ne h (by decide),
    Token.isKeyword_eq_false_of_ne h (by decide), h]
  rfl

theorem productionAt_of_type {name : Name} (hkey : name.text ∉ keywords)
    (htype : s.types.isType name.text = true) (hs : tokenAt c s.rest 0 = name.token) :
    productionAt c s = some .declaration := by
  have hname : name.token.name? = some name := Token.name?_eq_some.2 ⟨rfl, hkey⟩
  have hdeclaration : declarationAt c s = true := by
    rw [declarationAt, hs, hname]
    simp [htype]
  rw [productionAt, hs, Token.isKeyword_name hkey, Token.isKeyword_name hkey,
    Token.isKeyword_name hkey, hdeclaration]
  rfl

/-- No scope ends in front of an identifier. -/
theorem scopeEnds_of_identifier {name : String}
    (h : (tokenAt c s.rest 0).lexeme = .identifier name) : scopeEnds c nested s = false := by
  rw [scopeEnds, Token.isEnd, Token.kind, Token.isOperator_of_identifier h, h]
  cases nested <;> rfl

/-- A declaration is called for by the name of a known type. -/
theorem begins_of_type {name : Name} {tokens : List Token} (h : BeginsWith name tokens)
    (hrest : s.rest = tokens ++ s'.rest) (htype : s.types.isType name.text = true) :
    scopeEnds c nested s = false ∧ productionAt c s = some .declaration := by
  obtain ⟨hkey, rest, rfl⟩ := h
  have hnext : tokenAt c s.rest 0 = name.token := by rw [hrest]; rfl
  have hlexeme : (tokenAt c s.rest 0).lexeme = .identifier name.text := by rw [hnext]; rfl
  exact ⟨scopeEnds_of_identifier hlexeme, productionAt_of_type hkey htype hnext⟩

/-! ## Scopes -/

/-- An item is read by the production that its first token calls for, if the
    items of a namespace are read inside of it. -/
theorem reads_produce_of_itemRead {body : Parser (List Item)} {item : Item}
    (hs : s.types.Consistent) (h : ItemRead s item s') (hfree : item.RawFree)
    (hbody : ∀ {children s₁ s₂}, s₁.types.Consistent → s₁.rest.length < s.rest.length →
      ItemsRead s₁ children s₂ → ItemsRawFree children → scopeEnds c true s₂ = true →
      body.Reads c s₁ children s₂) :
    scopeEnds c nested s = false ∧ ∃ production, productionAt c s = some production ∧
      (produce body production).Reads c s item s' := by
  obtain ⟨⟨tokens, hspelled, hrest⟩, hscope, htypes⟩ := h
  cases hspelled with
  | raw run => exact absurd hfree id
  | @variableDecl v _ hspelled =>
    rw [Item.typeNames_variableDecl] at htypes
    obtain ⟨hend, hproduction⟩ := begins_of_type (c := c) hspelled.beginsWith hrest
      ((TypeNames.isType_iff hs _).2 hscope.1)
    have hread : (declaration false).Reads c s (.variableDecl v) s' := (reads_declaration hs).2
      ⟨tokens, .variableDecl hspelled, hscope, State.eq_behind hrest htypes⟩
    exact ⟨hend, _, hproduction, reads_bind.2 ⟨_, s', hread, reads_pure.2 ⟨rfl, rfl⟩⟩⟩
  | @functionDecl f _ hspelled =>
    rw [Item.typeNames_functionDecl] at htypes
    obtain ⟨hend, hproduction⟩ := begins_of_type (c := c) hspelled.beginsWith hrest
      ((TypeNames.isType_iff hs _).2 hscope.1)
    have hread : (declaration false).Reads c s (.functionDecl f) s' := (reads_declaration hs).2
      ⟨tokens, .functionDecl hspelled, hscope, State.eq_behind hrest htypes⟩
    exact ⟨hend, _, hproduction, reads_bind.2 ⟨_, s', hread, reads_pure.2 ⟨rfl, rfl⟩⟩⟩
  | @structDecl d _ hspelled =>
    rw [Item.typeNames_structDecl] at htypes
    have hread : structDecl.Reads c s d s' :=
      (reads_structDecl hs).2 ⟨tokens, hspelled, hscope, hrest, htypes⟩
    obtain ⟨keyword, rest, hkeyword, rfl⟩ := hspelled.begins
    have hnext : tokenAt c s.rest 0 = keyword := by rw [hrest]; rfl
    refine ⟨scopeEnds_of_identifier (hnext ▸ (Token.isKeyword_singleton.1 hkeyword).1), _,
      productionAt_of_struct hkeyword hnext, reads_map.2 ⟨d, hread, rfl⟩⟩
  | @classDecl d _ hspelled =>
    rw [Item.typeNames_classDecl] at htypes
    have hread : classDecl.Reads c s d s' :=
      (reads_classDecl hs).2 ⟨tokens, hspelled, hscope, hrest, htypes⟩
    obtain ⟨keyword, rest, hkeyword, rfl⟩ := hspelled.begins
    have hnext : tokenAt c s.rest 0 = keyword := by rw [hrest]; rfl
    refine ⟨scopeEnds_of_identifier (hnext ▸ (Token.isKeyword_singleton.1 hkeyword).1), _,
      productionAt_of_class hkeyword hnext, reads_map.2 ⟨d, hread, rfl⟩⟩
  | @namespaceDecl name children keyword opening closing inside hkeyword hkey hopen hspelled
      hclose =>
    rw [Item.typeNames_namespaceDecl] at htypes
    have hnext : tokenAt c s.rest 0 = keyword := by rw [hrest]; rfl
    refine ⟨scopeEnds_of_identifier (hnext ▸ (Token.isKeyword_singleton.1 hkeyword).1), _,
      productionAt_of_namespace hkeyword hnext, ?_⟩
    have hs₁ : s = State.behind [keyword, name.token, opening]
        ⟨inside ++ closing :: s'.rest, s.types⟩ := by
      refine State.eq_behind ?_ rfl
      rw [hrest]
      simp
    have hread : ItemsRead ⟨inside ++ closing :: s'.rest, s.types⟩ children (s'.behind [closing]) :=
      ⟨⟨inside, hspelled, rfl⟩, hscope, htypes⟩
    have hends : scopeEnds c true (s'.behind [closing]) = true := by
      rw [scopeEnds, tokenAt_behind_cons, hclose, Bool.true_and, Bool.or_true]
    have hlength : (inside ++ closing :: s'.rest).length < s.rest.length := by
      rw [hrest]
      simp only [List.length_append, List.length_cons, List.length_nil]
      omega
    exact reads_namespaceDecl.2 ⟨keyword, name, opening, closing, children, _, hkeyword, hkey, hopen,
      hclose, hs₁, hbody hs hlength hread hfree hends, rfl⟩

/-- The items of a scope are read in front of where it ends, in at least as many
    rounds as there are tokens. -/
theorem reads_scopeItems_of_itemsRead {items : List Item} (hs : s.types.Consistent)
    (h : ItemsRead s items s') (hfree : ItemsRawFree items) (hend : scopeEnds c nested s' = true)
    (hn : s.rest.length < n) : (scopeItems n nested).Reads c s items s' := by
  induction n generalizing nested s s' items with
  | zero => exact absurd hn (Nat.not_lt_zero _)
  | succ n ih =>
    rw [reads_scopeItems_succ hs]
    obtain ⟨⟨tokens, hspelled, hrest⟩, hscope, htypes⟩ := h
    cases hspelled with
    | nil =>
      rw [itemTypeNames_nil] at htypes
      cases State.eq_behind hrest htypes
      exact .inl ⟨hend, rfl, rfl⟩
    | @cons item others tokens rest hitem hothers hraw =>
      rw [itemTypeNames_cons, TypeNames.registerAll_append] at htypes
      rw [List.append_assoc] at hrest
      have hfirst : ItemRead s item ⟨rest ++ s'.rest, s.types.registerAll item.typeNames⟩ :=
        ⟨⟨tokens, hitem, hrest⟩, hscope.1, rfl⟩
      have hbehind : ItemsRead ⟨rest ++ s'.rest, s.types.registerAll item.typeNames⟩ others s' := by
        refine ⟨⟨rest, hothers, rfl⟩, ?_, htypes⟩
        rw [TypeNames.visible_registerAll]
        exact hscope.2
      obtain ⟨hgoes, production, hproduction, hread⟩ := reads_produce_of_itemRead hs hfirst hfree.1
        fun hs hlength hread hfree hend => ih hs hread hfree hend (by omega)
      refine .inr (.inl ⟨hgoes, production, item, others, _, hproduction, hread, ?_, rfl⟩)
      -- the item has a token, so one round less is enough for the others
      refine ih (TypeNames.consistent_registerAll hs _) hbehind hfree.2 hend ?_
      have hlength := congrArg List.length hrest
      have hpos := List.length_pos_iff.2 hitem.ne_nil
      rw [List.length_append] at hlength
      show (rest ++ s'.rest).length < n
      omega

end Parser

/-! ## Whole programs -/

/-- Tokens that spell a well-scoped tree without raw runs are parsed to it, and its
    structs and classes are the types that are registered in the end. -/
theorem parse_of_spelled {builtins lines : List String} {tokens : List Token} {stop : Location}
    {items : List Item} (h : ItemsSpelled items tokens) (hscope : ItemsWellScoped builtins items)
    (hfree : ItemsRawFree items) :
    (parse builtins lines tokens stop).result =
        .ok ⟨(Parser.tokenAt ⟨stop, lines⟩ tokens 0).location, items⟩ ∧
      (parse builtins lines tokens stop).state =
        ⟨[], (TypeNames.ofBuiltins builtins).registerAll (itemTypeNames items)⟩ := by
  have hread : Parser.ItemsRead ⟨tokens, .ofBuiltins builtins⟩ items
      ⟨[], (TypeNames.ofBuiltins builtins).registerAll (itemTypeNames items)⟩ := by
    refine ⟨⟨tokens, h, (List.append_nil _).symm⟩, ?_, rfl⟩
    rwa [TypeNames.visible_ofBuiltins]
  exact Parser.reads_scope.2 ⟨rfl, Parser.reads_budgeted.2
    (Parser.reads_scopeItems_of_itemsRead (TypeNames.consistent_ofBuiltins builtins) hread hfree rfl
      (Nat.lt_succ_self _)), rfl⟩

end Flattener
