import Flattener.Proofs.Grammar.Scopes

/-!
# What a parse has read

The tree of a successful parse is spelled by the tokens, in order and with none
left out, and is well scoped behind the built-in types
(`segments_of_parse`). The types that are registered in the end are the structs
and classes of that tree, in preorder (`types_of_parse`).

Both are the same induction over the rounds of a scope. What carries it is that
a production which was given up leaves the state as it was, so that a round
begins where the tree so far ends: behind the tokens that spell it, with the
types that it makes.
-/

namespace Flattener

/-! ## Raw runs that are joined -/

theorem consRaw_of_beginsRaw_eq_false {items : List Item} (h : beginsRaw items = false)
    (first : Token) (others : List Token) :
    Item.consRaw (first :: others) items = .raw ⟨first, others⟩ :: items := by
  rcases items with _ | ⟨_ | _, items⟩
  case cons.raw run => exact absurd h (Bool.noConfusion)
  all_goals rfl

theorem exists_raw_of_beginsRaw {items : List Item} (h : beginsRaw items = true) :
    ∃ run behind, items = .raw run :: behind := by
  rcases items with _ | ⟨_ | _, items⟩
  case cons.raw run => exact ⟨run, items, rfl⟩
  all_goals exact absurd h Bool.noConfusion

/-- Tokens in front of items are spelled as themselves, also where they join the
    raw run behind them. -/
theorem ItemsSpelled.consRaw {items : List Item} {rest : List Token} (h : ItemsSpelled items rest)
    (tokens : List Token) : ItemsSpelled (Item.consRaw tokens items) (tokens ++ rest) := by
  rcases tokens with _ | ⟨first, others⟩
  · exact h
  cases hraw : beginsRaw items with
  | false =>
    rw [consRaw_of_beginsRaw_eq_false hraw]
    exact .cons (.raw ⟨first, others⟩) h fun _ => hraw
  | true =>
    obtain ⟨run, behind, rfl⟩ := exists_raw_of_beginsRaw hraw
    cases h with
    | @cons _ _ _ rest hrun hbehind hapart =>
      cases hrun
      have htokens : first :: others ++ (run.tokens ++ rest) =
          (⟨first, others ++ run.tokens⟩ : RawRun).tokens ++ rest :=
        congrArg (first :: ·) (List.append_assoc ..).symm
      rw [htokens]
      exact .cons (.raw _) hbehind hapart

/-- A raw run makes no type. -/
theorem itemTypeNames_consRaw (tokens : List Token) (items : List Item) :
    itemTypeNames (Item.consRaw tokens items) = itemTypeNames items := by
  rcases tokens with _ | ⟨first, others⟩
  · rfl
  cases hraw : beginsRaw items with
  | false => rw [consRaw_of_beginsRaw_eq_false hraw, itemTypeNames_cons, Item.typeNames_raw,
      List.nil_append]
  | true =>
    obtain ⟨run, behind, rfl⟩ := exists_raw_of_beginsRaw hraw
    rw [Item.consRaw, itemTypeNames_cons, itemTypeNames_cons, Item.typeNames_raw,
      Item.typeNames_raw]

/-- A raw run refers to nothing. -/
theorem itemsWellScoped_consRaw {known : List String} {items : List Item}
    (h : ItemsWellScoped known items) (tokens : List Token) :
    ItemsWellScoped known (Item.consRaw tokens items) := by
  rcases tokens with _ | ⟨first, others⟩
  · exact h
  cases hraw : beginsRaw items with
  | false =>
    rw [consRaw_of_beginsRaw_eq_false hraw, ItemsWellScoped, Item.typeNames_raw, List.append_nil]
    exact ⟨trivial, h⟩
  | true =>
    obtain ⟨run, behind, rfl⟩ := exists_raw_of_beginsRaw hraw
    rw [ItemsWellScoped, Item.typeNames_raw] at h
    rw [Item.consRaw, ItemsWellScoped, Item.typeNames_raw]
    exact ⟨trivial, h.2⟩

/-- Items are spelled in segments, one for each of them. -/
theorem ItemsSpelled.segments {items : List Item} {tokens : List Token}
    (h : ItemsSpelled items tokens) :
    ∃ segments : List (List Token), segments.flatten = tokens ∧ [] ∉ segments ∧
      List.Forall₂ Item.Spelled items segments ∧
      items.IsChain (fun item next => ¬(item.isRaw = true ∧ next.isRaw = true)) := by
  induction items generalizing tokens with
  | nil =>
    cases h
    exact ⟨[], rfl, List.not_mem_nil, .nil, .nil⟩
  | cons item items ih =>
    cases h with
    | cons hitem hitems hraw =>
      obtain ⟨segments, rfl, hnil, hspelled, hapart⟩ := ih hitems
      refine ⟨_ :: segments, rfl,
        List.not_mem_cons_of_ne_of_not_mem hitem.ne_nil.symm hnil, .cons hitem hspelled, ?_⟩
      cases items with
      | nil => exact .singleton item
      | cons next items =>
        refine .cons_cons (fun hboth => ?_) hapart
        exact absurd ((hraw hboth.1).symm.trans hboth.2) nofun

namespace Parser

variable {c : Context} {s s' : State} {nested : Bool} {n : Nat}

/-- An item was read: it is spelled by the tokens between the states, well scoped
    in the first of them, and has made its types by the second. -/
structure ItemRead (s : State) (item : Item) (s' : State) : Prop where
  spelled : ∃ tokens, item.Spelled tokens ∧ s.rest = tokens ++ s'.rest
  wellScoped : item.WellScoped s.types.visible
  types : s'.types = s.types.registerAll item.typeNames

/-- The same of the items of a scope. -/
structure ItemsRead (s : State) (items : List Item) (s' : State) : Prop where
  spelled : ∃ tokens, ItemsSpelled items tokens ∧ s.rest = tokens ++ s'.rest
  wellScoped : ItemsWellScoped s.types.visible items
  types : s'.types = s.types.registerAll (itemTypeNames items)

theorem ItemsRead.nil (s : State) : ItemsRead s [] s := by
  refine ⟨⟨[], .nil, rfl⟩, trivial, ?_⟩
  rw [itemTypeNames_nil]
  rfl

theorem ItemsRead.cons {s₁ : State} {item : Item} {items : List Item} (h : ItemRead s item s₁)
    (hitems : ItemsRead s₁ items s') (hraw : item.isRaw = false) :
    ItemsRead s (item :: items) s' := by
  obtain ⟨⟨tokens, hspelled, hrest⟩, hscope, htypes⟩ := h
  obtain ⟨⟨rest, hrest', hrest''⟩, hscopes, htypes'⟩ := hitems
  refine ⟨⟨tokens ++ rest, .cons hspelled hrest' fun h => absurd (hraw.symm.trans h) nofun, ?_⟩,
    ⟨hscope, ?_⟩, ?_⟩
  · rw [hrest, hrest'', List.append_assoc]
  · rwa [htypes, TypeNames.visible_registerAll] at hscopes
  · rw [htypes', htypes, itemTypeNames_cons, TypeNames.registerAll_append]

theorem ItemsRead.consRaw {s₁ : State} {items : List Item} (h : ItemsRead s₁ items s')
    (tokens : List Token) : ItemsRead (s₁.behind tokens) (Item.consRaw tokens items) s' := by
  obtain ⟨⟨rest, hspelled, hrest⟩, hscopes, htypes⟩ := h
  refine ⟨⟨tokens ++ rest, hspelled.consRaw tokens, ?_⟩, itemsWellScoped_consRaw hscopes tokens, ?_⟩
  · rw [State.behind, hrest, List.append_assoc]
  · rw [itemTypeNames_consRaw]
    exact htypes

/-- What a production reads is an item, if what it reads inside of a namespace
    are items. -/
theorem itemRead_of_produce {body : Parser (List Item)}
    (hbody : ∀ {s children s'}, s.types.Consistent → body.Reads c s children s' →
      ItemsRead s children s') {production : Production} {item : Item} (hs : s.types.Consistent)
    (h : (produce body production).Reads c s item s') : ItemRead s item s' ∧ item.isRaw = false := by
  cases production with
  | namespaceDecl =>
    obtain ⟨keyword, name, opening, closing, children, s₁, hkeyword, hkey, hopen, hclose, rfl,
      hchildren, rfl⟩ := reads_namespaceDecl.1 h
    obtain ⟨⟨inside, hspelled, hrest⟩, hscope, htypes⟩ := hbody (s := s₁) hs hchildren
    refine ⟨⟨⟨_, .namespaceDecl hkeyword hkey hopen hspelled hclose, ?_⟩, hscope, ?_⟩, rfl⟩
    · simp [State.behind, hrest]
    · rw [Item.typeNames_namespaceDecl]
      exact htypes
  | classDecl =>
    obtain ⟨d, hd, rfl⟩ := reads_map.1 h
    obtain ⟨tokens, hspelled, hscope, hrest, htypes⟩ := (reads_classDecl hs).1 hd
    refine ⟨⟨⟨tokens, .classDecl hspelled, hrest⟩, hscope, ?_⟩, rfl⟩
    rw [Item.typeNames_classDecl]
    exact htypes
  | structDecl =>
    obtain ⟨d, hd, rfl⟩ := reads_map.1 h
    obtain ⟨tokens, hspelled, hscope, hrest, htypes⟩ := (reads_structDecl hs).1 hd
    refine ⟨⟨⟨tokens, .structDecl hspelled, hrest⟩, hscope, ?_⟩, rfl⟩
    rw [Item.typeNames_structDecl]
    exact htypes
  | declaration =>
    obtain ⟨d, s₁, hd, hitem⟩ := reads_bind.1 h
    obtain ⟨tokens, hspelled, hscope, rfl⟩ := (reads_declaration hs).1 hd
    cases hspelled with
    | variableDecl hspelled =>
      obtain ⟨rfl, rfl⟩ := reads_pure.1 hitem
      refine ⟨⟨⟨tokens, .variableDecl hspelled, rfl⟩, hscope, ?_⟩, rfl⟩
      rw [Item.typeNames_variableDecl]
      rfl
    | functionDecl hspelled =>
      obtain ⟨rfl, rfl⟩ := reads_pure.1 hitem
      refine ⟨⟨⟨tokens, .functionDecl hspelled, rfl⟩, hscope, ?_⟩, rfl⟩
      rw [Item.typeNames_functionDecl]
      rfl

/-- The items of a scope are read of the tokens in front of where it ends. -/
theorem itemsRead_of_scopeItems {items : List Item} (hs : s.types.Consistent)
    (h : (scopeItems n nested).Reads c s items s') :
    ItemsRead s items s' ∧ scopeEnds c nested s' = true := by
  induction n generalizing nested s s' items with
  | zero => exact absurd h not_reads_fail
  | succ n ih =>
    rcases (reads_scopeItems_succ hs).1 h with ⟨hend, rfl, rfl⟩ |
      ⟨-, production, item, others, s₁, -, hitem, hothers, rfl⟩ |
      ⟨-, -, tokens, others, s₁, htokens, hothers, rfl⟩
    · exact ⟨.nil s', hend⟩
    · obtain ⟨hread, hraw⟩ := itemRead_of_produce (fun hs h => (ih hs h).1) hs hitem
      have hs₁ : s₁.types.Consistent := by
        rw [hread.types]
        exact TypeNames.consistent_registerAll hs _
      obtain ⟨hreads, hend⟩ := ih hs₁ hothers
      exact ⟨.cons hread hreads hraw, hend⟩
    · cases eq_behind_of_reads_rawStatement htokens
      obtain ⟨hreads, hend⟩ := ih (s := s₁) hs hothers
      exact ⟨hreads.consRaw tokens, hend⟩

/-- A whole program is the items in front of the end of input. -/
theorem reads_scope {tree : Scope} :
    scope.Reads c s tree s' ↔ tree.start = (tokenAt c s.rest 0).location ∧
      (scopeBody false).Reads c s tree.children s' ∧ (tokenAt c s'.rest 0).isEnd = true := by
  rw [scope, reads_peek_bind]
  simp only [reads_bind, reads_popKind_endOfInput, reads_pure]
  constructor
  · rintro ⟨children, s₁, hchildren, _, _, ⟨hend, rfl, rfl⟩, rfl, rfl⟩
    exact ⟨rfl, hchildren, hend⟩
  · rintro ⟨hstart, hchildren, hend⟩
    refine ⟨tree.children, s', hchildren, _, _, ⟨hend, rfl, rfl⟩, ?_, rfl⟩
    rw [← hstart]

end Parser

/-! ## Whole programs -/

section

variable {builtins lines : List String} {tokens : List Token} {stop : Location} {tree : Scope}

/-- What is read of tokens, and that nothing is left but the end of input. -/
theorem itemsRead_of_parse (h : (parse builtins lines tokens stop).result = .ok tree) :
    ∃ s, Parser.ItemsRead ⟨tokens, .ofBuiltins builtins⟩ tree.children s ∧
      (Parser.tokenAt ⟨stop, lines⟩ s.rest 0).isEnd = true ∧
      (parse builtins lines tokens stop).state.types = s.types ∧
      tree.start = (Parser.tokenAt ⟨stop, lines⟩ tokens 0).location := by
  obtain ⟨hstart, hchildren, hend⟩ := Parser.reads_scope.1 ⟨h, rfl⟩
  obtain ⟨hread, -⟩ := Parser.itemsRead_of_scopeItems (TypeNames.consistent_ofBuiltins builtins)
    (Parser.reads_budgeted.1 hchildren)
  exact ⟨_, hread, hend, rfl, hstart⟩

/-- The history of a successful parse is that of the structs and classes in its
    tree, in preorder, and they are all that is known besides the built-in types:
    nothing that was registered on trial is left, and nothing is lost. -/
theorem types_of_parse (h : (parse builtins lines tokens stop).result = .ok tree) :
    (parse builtins lines tokens stop).state.types.history = aggregateNames tree.nodes ∧
      ∀ name, name ∈ (parse builtins lines tokens stop).state.types.known ↔
        name ∈ builtins ∨ name ∈ aggregateNames tree.nodes := by
  obtain ⟨s, hread, -, htypes, -⟩ := itemsRead_of_parse h
  have hregistered : s.types = (TypeNames.ofBuiltins builtins).registerAll
      (aggregateNames tree.nodes) := by
    rw [aggregateNames_nodes]
    exact hread.types
  rw [htypes, hregistered]
  refine ⟨TypeNames.history_registerAll _ _, fun name => ?_⟩
  rw [TypeNames.mem_known (TypeNames.consistent_registerAll
    (TypeNames.consistent_ofBuiltins builtins) _), TypeNames.visible_registerAll,
    TypeNames.visible_ofBuiltins, List.mem_append]

/-- A struct in a namespace, and one that is given up at the parenthesis of its
    member:

        namespace n { struct a; } struct b { a m(); }; -/
def abandonedStruct : List Token :=
  [Lexeme.identifier "namespace", .identifier "n", .operator openBrace, .identifier "struct",
    .identifier "a", .operator ";", .operator closeBrace, .identifier "struct", .identifier "b",
    .operator openBrace, .identifier "a", .identifier "m", .operator "(", .operator ")",
    .operator ";", .operator closeBrace, .operator ";"].map (Token.mk · default)

/-- The name of the struct that is given up is not a type. -/
theorem types_of_parse_abandonedStruct :
    ∃ tree, (parse ["int"] [] abandonedStruct default).result = .ok tree ∧
      aggregateNames tree.nodes = ["a"] ∧
      (parse ["int"] [] abandonedStruct default).state.types.history = aggregateNames tree.nodes ∧
      ∀ name, name ∈ (parse ["int"] [] abandonedStruct default).state.types.known ↔
        name ∈ ["int"] ∨ name ∈ aggregateNames tree.nodes :=
  ⟨_, rfl, rfl, types_of_parse rfl⟩

/-- The tokens of a successful parse fall into one segment for each child of the
    tree, in order: a sentence that spells the child, from names to initializers.
    Raw runs are as long as they can be. -/
theorem segments_of_parse (hend : ∀ t ∈ tokens, t.isEnd = false)
    (h : (parse builtins lines tokens stop).result = .ok tree) :
    ∃ segments : List (List Token), segments.flatten = tokens ∧ [] ∉ segments ∧
      List.Forall₂ Item.Spelled tree.children segments ∧
      tree.children.IsChain (fun item next => ¬(item.isRaw = true ∧ next.isRaw = true)) ∧
      ItemsWellScoped builtins tree.children ∧
      tree.start = (Parser.tokenAt ⟨stop, lines⟩ tokens 0).location := by
  obtain ⟨s, ⟨⟨read, hspelled, hrest⟩, hscope, -⟩, hstop, -, hstart⟩ := itemsRead_of_parse h
  have hall : tokens = read := by
    -- a token that was left would be the end of input
    have hnil : s.rest = [] := by
      cases hs : s.rest with
      | nil => rfl
      | cons t rest =>
        have ht : t ∈ tokens := by
          rw [show tokens = read ++ s.rest from hrest, hs]
          exact List.mem_append_right _ List.mem_cons_self
        rw [hs] at hstop
        exact absurd ((hend t ht).symm.trans hstop) nofun
    rw [hnil, List.append_nil] at hrest
    exact hrest
  obtain ⟨segments, hflatten, hnil, hspelled, hapart⟩ := hspelled.segments
  refine ⟨segments, hflatten.trans hall.symm, hnil, hspelled, hapart, ?_, hstart⟩
  rwa [TypeNames.visible_ofBuiltins] at hscope

/-- A namespace and a raw run: the struct that is given up is no segment of its
    own. -/
theorem segments_of_parse_abandonedStruct :
    ∃ tree, (parse ["int"] [] abandonedStruct default).result = .ok tree ∧
      ∃ segments : List (List Token), segments.flatten = abandonedStruct ∧ [] ∉ segments ∧
        List.Forall₂ Item.Spelled tree.children segments ∧
        tree.children.IsChain (fun item next => ¬(item.isRaw = true ∧ next.isRaw = true)) ∧
        ItemsWellScoped ["int"] tree.children ∧
        tree.start = (Parser.tokenAt ⟨default, []⟩ abandonedStruct 0).location :=
  ⟨_, rfl, segments_of_parse (by decide) rfl⟩

end

end Flattener
