import Flattener.Proofs.Flattening.FlatLayout
import Flattener.Proofs.Flattening.FlatScoping
import Flattener.Proofs.Flattening.Spacing

/-!
# Flattened texts are flattened to themselves

A text that a tree is flattened to is read as the flat tree of that tree, provided
that nothing of the tree is lost or changes its meaning when namespaces are gone
(`Scope.Settled`). The flat tree is laid out like the tree, so that the text is
flattened to itself (`flatten_flattened`).
-/

namespace Flattener

/-- A reference is to a built-in type, and no declared one, or to a type whose header
    is in front: it was declared before, or it is around the reference. -/
def Piece.Grounded (n : Naming) (front : List Piece) : Piece → Prop
  | .reference path type => n.Undeclared path type.name.text ∧ type.name.text ∈ n.builtins ∨
      ∃ header ∈ headersOf front, header.2 = type.name.text ∧
        n.Means path type.name.text header.1
  | _ => True

/-- A tree of declarations that mean the same without namespaces. -/
structure Scope.Settled (s : Scope) (options : Options) : Prop where
  rawFree : ItemsRawFree s.children
  /-- There are no pointers to functions and no traits. -/
  kept : ∀ node ∈ s.nodes, node.Kept
  grounded : ∀ front piece behind, s.pieces options = front ++ piece :: behind →
    piece.Grounded (s.naming options) front
  /-- No type is written with a name that a variable, a function, a field or a parameter
      is written with. -/
  apart : ∀ declared ∈ typePathsOf [] s.children,
    options.separator.intercalate declared ∉ (s.naming options).itemsNames [] s.children

/-! ## Settled trees can be told -/

mutual

instance Item.decidableRawFree : (item : Item) → Decidable item.RawFree
  | .raw _ => isFalse id
  | .variableDecl _ => isTrue trivial
  | .functionDecl _ => isTrue trivial
  | .structDecl _ => isTrue trivial
  | .classDecl _ => isTrue trivial
  | .namespaceDecl _ children => decidableItemsRawFree children

instance decidableItemsRawFree : (items : List Item) → Decidable (ItemsRawFree items)
  | [] => isTrue trivial
  | item :: items =>
    @instDecidableAnd _ _ (Item.decidableRawFree item) (decidableItemsRawFree items)

end

instance : (node : Node) → Decidable node.Kept
  | .functionPointer _ => isFalse id
  | .classDecl ⟨_, none⟩ => isTrue nofun
  | .classDecl ⟨_, some body⟩ => decidable_of_iff (body.traits = [])
    ⟨fun h _ heq => Option.some.inj heq ▸ h, fun h => h body rfl⟩
  | .scope _ => isTrue trivial
  | .rawRun _ => isTrue trivial
  | .typeRef _ => isTrue trivial
  | .variableDecl _ => isTrue trivial
  | .fieldDecl _ => isTrue trivial
  | .functionDecl _ => isTrue trivial
  | .structDecl _ => isTrue trivial
  | .namespaceDecl _ _ => isTrue trivial

instance (n : Naming) (front : List Piece) : (piece : Piece) → Decidable (piece.Grounded n front)
  | .reference path type => inferInstanceAs (Decidable (n.Undeclared path type.name.text ∧
      type.name.text ∈ n.builtins ∨ ∃ header ∈ headersOf front, header.2 = type.name.text ∧
        n.Means path type.name.text header.1))
  | .plain _ => isTrue trivial
  | .header _ _ => isTrue trivial
  | .traits _ _ => isTrue trivial

/-- What holds at every piece holds behind every row of pieces in front. -/
theorem forall_split_iff {α : Type} {list : List α} {p : List α → α → Prop} :
    (∀ front a behind, list = front ++ a :: behind → p front a) ↔
      ∀ place, (h : place < list.length) → p (list.take place) list[place] := by
  constructor
  · intro h place hplace
    refine h _ _ (list.drop (place + 1)) ?_
    rw [List.getElem_cons_drop, List.take_append_drop]
  · rintro h front a behind rfl
    have hplace := h front.length (by simp)
    rwa [List.take_left, List.getElem_append_right (Nat.le_refl _), getElem_congr_idx
      (Nat.sub_self _)] at hplace

instance (s : Scope) (options : Options) : Decidable (s.Settled options) :=
  decidable_of_iff (ItemsRawFree s.children ∧ (∀ node ∈ s.nodes, node.Kept) ∧
      (∀ place, (h : place < (s.pieces options).length) →
        (s.pieces options)[place].Grounded (s.naming options) ((s.pieces options).take place)) ∧
      ∀ declared ∈ typePathsOf [] s.children,
        options.separator.intercalate declared ∉ (s.naming options).itemsNames [] s.children)
    ⟨fun ⟨hfree, hkept, hgrounded, hapart⟩ =>
        ⟨hfree, hkept, forall_split_iff.2 hgrounded, hapart⟩,
      fun h => ⟨h.rawFree, h.kept, forall_split_iff.1 h.grounded, h.apart⟩⟩

/-! ## The flat tree of a settled one -/

namespace Scope

variable {s : Scope} {options : Options}

theorem Settled.itemsKept (h : s.Settled options) : ItemsKept s.children :=
  (List.forall_mem_cons.1 h.kept).2

/-- The references of the flat tree are backed. -/
theorem Settled.backed (h : s.Settled options) :
    Backed options.builtins ((s.pieces options).map (s.naming options).flatPiece) := by
  refine Naming.backed_of_split fun front path type behind hsplit => ?_
  rcases h.grounded front _ behind hsplit with ⟨hnone, hbuiltin⟩ |
    ⟨⟨outer, _⟩, hheader, rfl, hmeans⟩
  · rw [Naming.resolved_of_undeclared hnone]
    exact .inl hbuiltin
  · rw [Naming.resolved_of_means hmeans]
    exact .inr (List.mem_map.2 ⟨_, hheader, rfl⟩)

/-- The types of the flat tree have the names of the types of the tree, joined. -/
theorem itemTypeNames_flatItems (s : Scope) (options : Options) :
    itemTypeNames ((s.naming options).flatItems [] s.children) =
      (typePathsOf [] s.children).map options.separator.intercalate := by
  rw [Naming.typeNames_flatItems, Naming.typePathsOf_eq (s.naming options), List.map_map]
  rfl

/-- Where the built-in names and the separator are the standard ones, the flat tree is
    well scoped behind the built-in types. -/
theorem Settled.wellScoped (h : s.Settled .standard)
    (hscope : ItemsWellScoped standardTypes s.children) :
    ItemsWellScoped standardTypes ((s.naming .standard).flatItems [] s.children) := by
  refine Naming.wellScoped_flatItems _ h.backed fun name hname hmem => ?_
  rcases List.mem_append.1 hmem with hbuiltin | htype
  · exact Naming.itemsNames_not_mem (show '_' ∈ "_".toList by decide) (by decide) _ hscope
      (List.Subset.refl _) name hname hbuiltin
  · rw [itemTypeNames_flatItems] at htype
    obtain ⟨declared, hdeclared, rfl⟩ := List.mem_map.1 htype
    exact h.apart declared hdeclared hname

/-- The flat tree is rendered as the text that the tree is rendered as. -/
theorem Settled.render_flatItems (h : s.Settled .standard) (start : Location) :
    (⟨start, (s.naming .standard).flatItems [] s.children⟩ : Scope).render .standard "_"
      standardTypes = s.render .standard "_" standardTypes :=
  render_eq_of_alike rfl (Naming.alike_flatItems
    ⟨"_", standardTypes, typePathsOf [] ((s.naming .standard).flatItems [] s.children)⟩ _
    s.children h.itemsKept)

end Scope

section

variable {source file : String} {tree : Scope} {count : Nat}

/-- A source without a flaw is parsed as its tokens are. -/
theorem parseSource_of_parse {options : Options} {stop : Location}
    (hstop : (lex source file 1).outcome = .ok stop)
    (h : (parse options.builtins (Text.splitLines source) (lex source file 1).tokens stop).result =
      .ok tree) :
    (parseSource options source file).result =
      .ok (tree, (lex source file 1).tokens.length + 1) := by
  have hlexed : (lex source file 1).toExcept = .ok ((lex source file 1).tokens, stop) := by
    rw [Lexing.toExcept, hstop]
    rfl
  rw [parseSource, hlexed]
  dsimp only
  rw [h]

/-- The text is parsed to the flat tree, but for the places. -/
theorem parse_of_settled (hparse : (parseSource .standard source file).result = .ok (tree, count))
    (h : tree.Settled .standard) {output : String}
    (hrender : tree.render .standard "_" standardTypes = .ok output) (file' : String) :
    ∃ scope count', (parseSource .standard output file').result = .ok (scope, count') ∧
      (bare scope).children = (tree.naming .standard).flatItems [] tree.children := by
  obtain ⟨stop, htree⟩ := exists_parse_of_parseSource hparse
  obtain ⟨s, ⟨⟨tokens, hspelled, -⟩, hscope, -⟩, -⟩ := itemsRead_of_parse htree
  rw [TypeNames.visible_ofBuiltins] at hscope
  have hspells := Scope.spells_of_render (show PageSettings.standard.color = false from rfl)
    (List.all_eq_true.1 rfl) (legible_of_parseSource hparse) hrender
  obtain ⟨hlexemes, stop', hstop'⟩ := lexemes_of_spells hspells (.start output.toList file' 1) rfl
  -- the tokens of the text are what the flat tree is written as
  have hlines : Says (itemsMarks (fun _ => true)
      ((tree.naming .standard).flatItems [] tree.children)) (tree.lexemes "_" standardTypes) :=
    Naming.says_flatItems _ tree.children h.itemsKept
  have hbare : bare (lex output file' 1).tokens = (itemsMarks (fun _ => true)
      ((tree.naming .standard).flatItems [] tree.children)).map (Mark.fill default) := by
    rw [hlines, ← hlexemes, List.map_map]
    rfl
  have hwell : ItemsWellFormed ((tree.naming .standard).flatItems [] tree.children) :=
    Naming.wellFormed_flatItems (show '_' ∈ "_".toList by decide) _ hspelled h.rawFree
  have hflat : ItemsSpelled _ (bare (lex output file' 1).tokens) :=
    itemsSpelled_of_written hwell (hbare ▸ written_fill default _)
  have hresult : (parse standardTypes [] (bare (lex output file' 1).tokens) default).result =
      .ok ⟨_, _⟩ := (parse_of_spelled hflat (h.wellScoped hscope) hwell.rawFree).1
  rw [parse_bare standardTypes (Text.splitLines output) _ stop'] at hresult
  rcases hread : (parse standardTypes (Text.splitLines output) (lex output file' 1).tokens
      stop').result with failure | scope
  · rw [hread] at hresult
    cases hresult
  · rw [hread] at hresult
    exact ⟨scope, _, parseSource_of_parse hstop' hread,
      congrArg Scope.children (Except.ok.inj hresult)⟩

/-- A settled tree is flattened, unless it could be nested deeper than there are
    indentations, and to a text that is flattened to itself. -/
theorem flatten_flattened
    (hparse : (parseSource .standard source file).result = .ok (tree, count))
    (h : tree.Settled .standard) :
    (fitsWord (source.length * 4) = true → ∃ output,
      (flatten .standard source file).result = .ok ⟨file, tree, output, count⟩) ∧
    ∀ flattened, (flatten .standard source file).result = .ok flattened →
      flattened = ⟨file, tree, flattened.output, count⟩ ∧
        ∀ file', ∃ tree' count', (flatten .standard flattened.output file').result =
          .ok ⟨file', tree', flattened.output, count'⟩ := by
  refine ⟨fun hlength => ?_, fun flattened hflat => ?_⟩
  · exact ⟨_, result_flatten_of_render hparse
      (Scope.render_eq_ok (Scope.fits_of_length hparse hlength "_" standardTypes))⟩
  obtain ⟨hrender, hflattened⟩ := render_of_result_flatten hparse hflat
  refine ⟨hflattened, fun file' => ?_⟩
  obtain ⟨scope, count', hagain, hchildren⟩ := parse_of_settled hparse h hrender file'
  refine ⟨scope, count', result_flatten_of_render hagain ?_⟩
  show scope.render .standard "_" standardTypes = .ok flattened.output
  have hsame : (bare scope).render .standard "_" standardTypes = tree.render .standard "_"
      standardTypes := by
    rw [← h.render_flatItems (bare scope).start, ← hchildren]
  rw [← render_bare]
  exact hsame.trans hrender

end

/-- Structs and a class in a namespace, with references out of and around them. -/
def settledBox : String :=
  "namespace geo \x7b struct P \x7b int x[0x2] = \x7b 1, 2 \x7d; P *next; \x7d; " ++
    "class Box \x7b P *corner; double area(P *a, int by = (2)); \x7d; \x7d int total(void);"

theorem flatten_flattened_settledBox :
    ∃ tree count output, (parseSource .standard settledBox "in").result = .ok (tree, count) ∧
      tree.Settled .standard ∧
      output = "struct geo_P \x7b\n    int x[2] = \x7b 1 , 2 \x7d;\n    geo_P *next;\n\x7d;\n" ++
        "struct geo_Box \x7b\n    geo_P *corner;\n\x7d;\n" ++
        "double geo_Box_area(geo_P *a, int by = ( 2 ));\nint total(void);\n" ∧
      (flatten .standard settledBox "in").result = .ok ⟨"in", tree, output, count⟩ ∧
      ∀ file', ∃ tree' count',
        (flatten .standard output file').result = .ok ⟨file', tree', output, count'⟩ := by
  have hview : (parseSource .standard settledBox "in").result.toOption.map
      (fun parsed => (decide (parsed.1.Settled .standard),
        parsed.1.render .standard "_" standardTypes)) =
      some (true, .ok (
        "struct geo_P \x7b\n    int x[2] = \x7b 1 , 2 \x7d;\n    geo_P *next;\n\x7d;\n" ++
        "struct geo_Box \x7b\n    geo_P *corner;\n\x7d;\n" ++
        "double geo_Box_area(geo_P *a, int by = ( 2 ));\nint total(void);\n")) := by decide +kernel
  obtain ⟨tree, count, hparse, hboth⟩ := exists_tree hview
  obtain ⟨hsettled, hrender⟩ := Prod.mk.inj hboth
  obtain ⟨hexists, hagain⟩ := flatten_flattened hparse (of_decide_eq_true hsettled)
  obtain ⟨output, hflatten⟩ := hexists (by decide +kernel)
  have houtput := congrArg Flattened.output (Except.ok.inj
    (hflatten.symm.trans (result_flatten_of_render hparse hrender)))
  exact ⟨tree, count, output, hparse, of_decide_eq_true hsettled, houtput, hflatten,
    (hagain _ hflatten).2⟩

end Flattener
