import Flattener.Flattening.Source
import Flattener.Proofs.Flattening.Meaning
import Flattener.Proofs.Flattening.Nesting
import Flattener.Proofs.Flattening.Pieces

/-!
# What stands in front of a type name

The grammar accepts a type name once a struct or class of that name stands in
front of it, in whatever namespace. The name is written as that of the innermost
declaration around it, wherever in the tree that is. So a type name comes to stand
in a flattened text in one of four ways (`Naming.RefersTo`, `typesIn_flatten`):

* behind the header of the type that it means,
* as a built-in name that means no declared type,
* as the plain name of a type that is declared in front, but nowhere around it,
* in front of the header of the type that it means, where a built-in type or
  another one in front has the name too.

In the last two, it is used without having been declared (`usesUndeclared_strayType`).
-/

namespace Flattener

/-! ## References behind headers -/

/-- A reference is to a known type. -/
def Piece.Backed (known : List String) : Piece → Prop
  | reference _ type => type.name.text ∈ known
  | _ => True

/-- Each reference among the pieces is to a known type, or has a header of its name
    in front of it. -/
def Backed (known : List String) : List Piece → Prop
  | [] => True
  | piece :: pieces =>
    piece.Backed known ∧ Backed (known ++ (headersOf [piece]).map (·.2)) pieces

section

variable {known : List String} {front behind pieces : List Piece}

theorem backed_append : Backed known (front ++ behind) ↔
    Backed known front ∧ Backed (known ++ (headersOf front).map (·.2)) behind := by
  induction front generalizing known with
  | nil => simp [Backed, headersOf]
  | cons piece front ih =>
    rw [List.cons_append, Backed, Backed, ih, headersOf_cons piece front, List.map_append,
      List.append_assoc, and_assoc]

/-- Where no types are made, all that is referred to is known from the start. -/
theorem backed_of_forall (hheaders : headersOf pieces = [])
    (h : ∀ piece ∈ pieces, piece.Backed known) : Backed known pieces := by
  induction pieces with
  | nil => trivial
  | cons piece pieces ih =>
    obtain ⟨hpiece, hpieces⟩ := List.forall_mem_cons.1 h
    rw [headersOf_cons] at hheaders
    obtain ⟨hnone, hothers⟩ := List.append_eq_nil_iff.1 hheaders
    refine ⟨hpiece, ?_⟩
    rw [hnone, List.map_nil, List.append_nil]
    exact ih hothers hpieces

/-- A backed reference has a header of its name in front of it if its type is not known. -/
theorem Backed.reference {path : Path} {type : TypeRef}
    (h : Backed known (front ++ .reference path type :: behind)) :
    type.name.text ∈ known ∨ ∃ outer, (outer, type.name.text) ∈ headersOf front := by
  obtain ⟨-, hreference, -⟩ := backed_append.1 h
  refine (List.mem_append.1 hreference).imp_right fun hmem => ?_
  obtain ⟨⟨outer, _⟩, hheader, rfl⟩ := List.mem_map.1 hmem
  exact ⟨outer, hheader⟩

end

namespace Naming

section

variable (n : Naming) (path : Path) {known : List String}

theorem backed_variable (name : String) {v : Variable} (h : v.type.name.text ∈ known) :
    ∀ piece ∈ n.variablePieces path name v, piece.Backed known :=
  List.forall_mem_cons.2 ⟨h, List.forall_mem_singleton.2 trivial⟩

theorem backed_parameters {list : List Variable} (h : ∀ v ∈ list, v.WellScoped known) :
    ∀ piece ∈ n.parameterPieces path list, piece.Backed known := by
  refine List.forall_mem_append.2 ⟨List.forall_mem_cons.2 ⟨trivial, ?_⟩,
    List.forall_mem_singleton.2 trivial⟩
  cases list with
  | nil => exact List.forall_mem_singleton.2 trivial
  | cons first others =>
    obtain ⟨hfirst, hothers⟩ := List.forall_mem_cons.1 h
    refine List.forall_mem_append.2 ⟨backed_variable n path _ hfirst.1, ?_⟩
    refine List.forall_mem_flatMap.2 fun v hv => ?_
    exact List.forall_mem_cons.2 ⟨trivial, backed_variable n path _ (hothers v hv).1⟩

theorem backed_signature (name : List Directive) {s : Signature} (h : s.WellScoped known) :
    ∀ piece ∈ n.signaturePieces path name s, piece.Backed known := by
  obtain ⟨hreturns, -, hparameters⟩ := h
  refine List.forall_mem_cons.2 ⟨hreturns, List.forall_mem_cons.2 ⟨trivial, ?_⟩⟩
  exact List.forall_mem_append.2 ⟨backed_parameters n path hparameters,
    List.forall_mem_singleton.2 trivial⟩

theorem backed_member {m : Member} (h : m.WellScoped known) :
    ∀ piece ∈ n.memberPieces path m, piece.Backed known := by
  cases m with
  | field f =>
    exact List.forall_mem_append.2 ⟨backed_variable n path _ h.1,
      List.forall_mem_singleton.2 trivial⟩
  | functionPointer s => exact backed_signature n path _ h

theorem backed_members {members : List Member} (h : ∀ m ∈ members, m.WellScoped known) :
    ∀ piece ∈ members.flatMap (n.memberPieces path), piece.Backed known :=
  List.forall_mem_flatMap.2 fun m hm => backed_member n path (h m hm)

/-- What a struct holds knows the name of the struct. -/
theorem backed_body {name : Name} {inside : List Piece} (hheaders : headersOf inside = [])
    (h : ∀ piece ∈ inside, piece.Backed (known ++ [name.text])) :
    Backed known (bodyPieces path name inside) := by
  refine ⟨trivial, backed_of_forall ?_ ?_⟩
  · show headersOf (inside ++ [_]) = []
    rw [headersOf_append, hheaders]
    rfl
  · exact List.forall_mem_append.2 ⟨List.forall_mem_cons.2 ⟨trivial, h⟩,
      List.forall_mem_singleton.2 trivial⟩

theorem backed_struct {s : Struct} (h : s.WellScoped known) :
    Backed known (n.structPieces path s) := by
  rw [structPieces]
  cases hmembers : s.members with
  | none => exact ⟨trivial, trivial, trivial⟩
  | some members =>
    exact backed_body path (headersOf_members n path members)
      (backed_members n path (h members hmembers))

/-- The methods of a class know its name as its members do. -/
theorem backed_class {c : Class} (h : c.WellScoped known) :
    Backed known (n.classPieces path c) := by
  rw [classPieces]
  cases hbody : c.body with
  | none => exact ⟨trivial, trivial, trivial⟩
  | some body =>
    obtain ⟨hmembers, hmethods⟩ := h body hbody
    have hheaders : headersOf (.traits path body.traits :: body.members.flatMap
        (n.memberPieces path)) = [] := headersOf_members n path body.members
    refine backed_append.2 ⟨backed_body path hheaders ?_, backed_of_forall ?_ ?_⟩
    · exact List.forall_mem_cons.2 ⟨trivial, backed_members n path hmembers⟩
    · exact headersOf_methods n _ body.methods
    · rw [headersOf_body, hheaders]
      exact List.forall_mem_flatMap.2 fun s hs => backed_signature n _ _ (hmethods s hs)

end

mutual

theorem backed_item {n : Naming} : ∀ (item : Item) {path : Path} {known : List String},
    item.WellScoped known → Backed known (n.itemPieces path item)
  | .raw run, path, known, _ => by
    rw [itemPieces]
    exact ⟨trivial, trivial⟩
  | .variableDecl v, path, known, h => by
    rw [Item.WellScoped] at h
    rw [itemPieces]
    exact ⟨h.1, trivial, trivial, trivial⟩
  | .functionDecl s, path, known, h => by
    rw [Item.WellScoped] at h
    rw [itemPieces]
    have hheaders := (composes_function n path s).headersOf_eq_nil (aggregateNames_signature s)
    exact backed_of_forall hheaders (backed_signature n path _ h)
  | .structDecl s, path, known, h => by
    rw [Item.WellScoped] at h
    rw [itemPieces]
    exact backed_struct n path h
  | .classDecl c, path, known, h => by
    rw [Item.WellScoped] at h
    rw [itemPieces]
    exact backed_class n path h
  | .namespaceDecl name children, path, known, h => by
    rw [Item.WellScoped] at h
    rw [itemPieces]
    exact backed_items children h

/-- In a well-scoped tree, each reference is to a known type or has a header of its
    name in front of it. -/
theorem backed_items {n : Naming} : ∀ (items : List Item) {path : Path} {known : List String},
    ItemsWellScoped known items → Backed known (n.pieces path items)
  | [], path, known, _ => by
    rw [pieces]
    trivial
  | item :: items, path, known, h => by
    rw [ItemsWellScoped] at h
    rw [pieces, backed_append, (composes_item item).names]
    exact ⟨backed_item item h.1, backed_items items h.2⟩

end

end Naming

/-! ## References between pieces -/

/-- How a type name is written under a path, between pieces that stand in front of
    it and pieces behind it. -/
inductive Naming.RefersTo (n : Naming) (front behind : List Piece) (path : Path) (name : String) :
    String → Prop
  /-- The header of the type that it means is in front. -/
  | declared {outer : Path} : n.Means path name outer → (outer, name) ∈ headersOf front →
    RefersTo n front behind path name (n.qualified outer name)
  /-- It means no declared type and is built in. -/
  | builtin : n.Undeclared path name → name ∈ n.builtins → RefersTo n front behind path name name
  /-- It means no declared type, but a header of its name is in front, under a path
      that is not around it. -/
  | stray {other : Path} : n.Undeclared path name → name ∉ n.builtins → ¬other <+: path →
    (other, name) ∈ headersOf front → RefersTo n front behind path name name
  /-- The header of the type that it means is behind, and it is built in or another
      header of its name is in front. -/
  | early {outer : Path} : n.Means path name outer → (outer, name) ∉ headersOf front →
    (outer, name) ∈ headersOf behind →
    (name ∈ n.builtins ∨ ∃ other, other ≠ outer ∧ (other, name) ∈ headersOf front) →
    RefersTo n front behind path name (n.qualified outer name)

/-- References that are backed by built-in types and by headers are written in one
    of these ways. -/
theorem Naming.refersTo_of_backed {n : Naming} {front behind : List Piece} {path : Path}
    {type : TypeRef} (hbacked : Backed n.builtins (front ++ .reference path type :: behind))
    (hdeclared : ∀ outer, outer ++ [type.name.text] ∈ n.declared ↔
      (outer, type.name.text) ∈ headersOf (front ++ .reference path type :: behind)) :
    n.RefersTo front behind path type.name.text (n.resolved path type.name.text) := by
  rcases n.resolved_cases path type.name.text with ⟨outer, hmeans, hwritten⟩ | ⟨hnone, hwritten⟩
  · rw [hwritten]
    by_cases hfront : (outer, type.name.text) ∈ headersOf front
    · exact .declared hmeans hfront
    · have hheader := (hdeclared outer).1 hmeans.declared
      rw [headersOf_append] at hheader
      refine .early hmeans hfront ((List.mem_append.1 hheader).resolve_left hfront) ?_
      refine hbacked.reference.imp_right fun ⟨other, hother⟩ => ⟨other, ?_, hother⟩
      rintro rfl
      exact hfront hother
  · rw [hwritten]
    by_cases hbuiltin : type.name.text ∈ n.builtins
    · exact .builtin hnone hbuiltin
    · obtain ⟨other, hother⟩ := hbacked.reference.resolve_left hbuiltin
      refine .stray hnone hbuiltin (fun haround => hnone other haround ?_) hother
      rw [hdeclared, headersOf_append]
      exact List.mem_append_left _ hother

/-! ## The text of pieces -/

namespace Naming

variable {n : Naming} {settings : PageSettings} {front behind pieces : List Piece}

/-- The text of a page on which the pieces are written. -/
def textOf (n : Naming) (settings : PageSettings) (pieces : List Piece) : String :=
  ((Page.empty settings).performAll (pieces.flatMap (·.directives n))).text

/-- The text of pieces begins with that of the first of them. -/
theorem exists_textOf_append (n : Naming) (settings : PageSettings) (front behind : List Piece) :
    ∃ added, n.textOf settings (front ++ behind) = n.textOf settings front ++ added := by
  rw [textOf, List.flatMap_append, Page.performAll_append]
  exact Page.exists_text_performAll _ _

/-- A name is written behind the text in front of it, and behind indentation. -/
theorem textOf_reference (n : Naming) (front : List Piece) (hplain : settings.color = false)
    (path : Path) (type : TypeRef) :
    ∃ width, n.textOf settings (front ++ [.reference path type]) =
      n.textOf settings front ++ String.ofList (List.replicate width ' ') ++
        n.resolved path type.name.text := by
  rw [textOf, List.flatMap_append, Page.performAll_append]
  exact Page.text_write (by rw [Page.settings_performAll]; exact hplain) _ _

theorem textOf_header (n : Naming) (front : List Piece) (hplain : settings.color = false)
    (path : Path) (name : Name) :
    ∃ before, n.textOf settings (front ++ [.header path name]) =
      before ++ "struct " ++ n.qualified path name.text := by
  have hsettings := Page.settings_performAll (.empty settings) (front.flatMap (·.directives n))
  rw [textOf, List.flatMap_append, Page.performAll_append]
  generalize (Page.empty settings).performAll (front.flatMap (·.directives n)) = page at hsettings ⊢
  have hpage : page.settings.color = false := by rwa [hsettings]
  obtain ⟨width, hkeyword⟩ := Page.text_write hpage "struct" .keyword
  -- behind the keyword, the page is inside of a line
  have hline : (page.write "struct" .keyword).atLineStart = false :=
    Page.atLineStart_write (.inl (by decide)) .keyword
  have hline' : ((page.write "struct" .keyword).write " " .plain).atLineStart = false :=
    Page.atLineStart_write (.inr hline) .plain
  refine ⟨page.text ++ String.ofList (List.replicate width ' '), ?_⟩
  show (((page.write "struct" .keyword).write " " .plain).write (n.qualified path name.text)
    .identifier).text = _
  have hname : "struct " = "struct" ++ " " := rfl
  rw [Page.text_write_inside (by simpa only [Page.settings_write]) hline',
    Page.text_write_inside (by simpa only [Page.settings_write]) hline, hkeyword, hname,
    ← String.append_assoc]

/-- A header among the pieces is part of their text. -/
theorem exists_header (hplain : settings.color = false) {outer : Path} {name : String}
    (h : (outer, name) ∈ headersOf pieces) :
    ∃ before after, n.textOf settings pieces =
      before ++ "struct " ++ n.qualified outer name ++ after := by
  obtain ⟨piece, hpiece, hheader⟩ := List.mem_filterMap.1 h
  obtain ⟨front, behind, rfl⟩ := List.append_of_mem hpiece
  cases piece with
  | header path declared =>
    cases hheader
    obtain ⟨before, hbefore⟩ := n.textOf_header front hplain outer declared
    obtain ⟨after, hafter⟩ := n.exists_textOf_append settings (front ++ [.header outer declared])
      behind
    rw [List.append_assoc, hbefore] at hafter
    exact ⟨before, after, hafter⟩
  | _ => cases hheader

end Naming

/-! ## Whole trees -/

namespace Scope

/-- How the names of a tree are flattened. -/
def naming (s : Scope) (options : Options) : Naming :=
  ⟨options.separator, options.builtins, typePathsOf [] s.children⟩

/-- What is written for a tree, in pieces. -/
def pieces (s : Scope) (options : Options) : List Piece :=
  (s.naming options).pieces [] s.children

/-- The text is that of the pieces of the tree. Its type names are the references among
    the pieces, each with the headers of the pieces in front of it. -/
structure TypesIn (s : Scope) (options : Options) (output : String) : Prop where
  text : output = (s.naming options).textOf options.page (s.pieces options)
  /-- The pieces are about the types of the tree, in order. -/
  types : (s.pieces options).flatMap (·.types) = s.nodes.filterMap (·.typeRef?)
  /-- A type name is written behind the text in front of it, and behind indentation. -/
  written : ∀ {front path type behind}, s.pieces options = front ++ .reference path type :: behind →
    ∃ width after, output = (s.naming options).textOf options.page front ++
      String.ofList (List.replicate width ' ') ++
      (s.naming options).resolved path type.name.text ++ after
  /-- The headers in front are part of that text. -/
  headed : ∀ {front behind outer name}, s.pieces options = front ++ behind →
    (outer, name) ∈ headersOf front → ∃ before after, (s.naming options).textOf options.page front =
      before ++ "struct " ++ (s.naming options).qualified outer name ++ after
  /-- What is written has its header in front of it, is built in, or is stray or early. -/
  refers : ∀ {front path type behind}, s.pieces options = front ++ .reference path type :: behind →
    (s.naming options).RefersTo front behind path type.name.text
      ((s.naming options).resolved path type.name.text)

variable {s : Scope} {options : Options}

theorem typesIn_textOf (hplain : options.page.color = false)
    (hscope : ItemsWellScoped options.builtins s.children) :
    s.TypesIn options ((s.naming options).textOf options.page (s.pieces options)) where
  text := rfl
  types := (Naming.composes_items s.children).types
  written := by
    intro front path type behind hpieces
    obtain ⟨width, hwidth⟩ := (s.naming options).textOf_reference front hplain path type
    obtain ⟨after, hafter⟩ := (s.naming options).exists_textOf_append options.page
      (front ++ [.reference path type]) behind
    rw [List.append_assoc, hwidth] at hafter
    rw [hpieces]
    exact ⟨width, after, hafter⟩
  headed := fun _ hheader => Naming.exists_header hplain hheader
  refers := by
    intro front path type behind hpieces
    have hbacked : Backed options.builtins (s.pieces options) :=
      Naming.backed_items s.children hscope
    rw [hpieces] at hbacked
    refine Naming.refersTo_of_backed hbacked fun outer => ?_
    rw [← hpieces]
    exact Naming.mem_typePathsOf

/-- The pieces are all that is written. -/
theorem textOf_pieces (s : Scope) (options : Options) :
    (s.naming options).textOf options.page (s.pieces options) =
      ((Page.empty options.page).performAll
        (s.directives options.separator options.builtins)).text := by
  rw [Naming.textOf, pieces, (Naming.composes_items s.children).directives]
  rfl

/-- What is rendered is the text of the pieces. -/
theorem text_of_render {output : String}
    (h : s.render options.page options.separator options.builtins = .ok output) :
    output = (s.naming options).textOf options.page (s.pieces options) :=
  (output_of_render h).trans (textOf_pieces s options).symm

end Scope

/-- What a source is flattened to, once it is parsed. -/
theorem result_flatten_of_parse {options : Options} {source file : String} {tree : Scope} {count : Nat}
    (hparse : (parseSource options source file).result = .ok (tree, count)) :
    (flatten options source file).result =
      match tree.render options.page options.separator options.builtins with
      | .ok output => .ok ⟨file, tree, output, count⟩
      | .error fault => .error (.misuse fault) := by
  rw [flatten]
  dsimp only
  rw [hparse]
  rfl

/-- What a source is flattened to, if its tree is rendered. -/
theorem result_flatten_of_render {options : Options} {source file output : String} {tree : Scope}
    {count : Nat} (hparse : (parseSource options source file).result = .ok (tree, count))
    (hrender : tree.render options.page options.separator options.builtins = .ok output) :
    (flatten options source file).result = .ok ⟨file, tree, output, count⟩ := by
  rw [result_flatten_of_parse hparse, hrender]

/-- What a tree is rendered as, if its source is flattened. -/
theorem render_of_result_flatten {options : Options} {source file : String} {tree : Scope}
    {count : Nat} {flattened : Flattened}
    (hparse : (parseSource options source file).result = .ok (tree, count))
    (hflat : (flatten options source file).result = .ok flattened) :
    tree.render options.page options.separator options.builtins = .ok flattened.output ∧
      flattened = ⟨file, tree, flattened.output, count⟩ := by
  rw [result_flatten_of_parse hparse] at hflat
  split at hflat
  · next output hrender =>
    cases hflat
    exact ⟨hrender, rfl⟩
  · cases hflat

/-- A source that can be parsed is flattened, unless it could be nested deeper than there
    are indentations, and each type name in the text stands there in one of the four
    ways. -/
theorem typesIn_flatten {source file : String} {tree : Scope} {count : Nat}
    (h : (parseSource .standard source file).result = .ok (tree, count)) :
    (fitsWord (source.length * 4) = true → ∃ output,
      (flatten .standard source file).result = .ok ⟨file, tree, output, count⟩) ∧
    ∀ flattened, (flatten .standard source file).result = .ok flattened →
      flattened = ⟨file, tree, flattened.output, count⟩ ∧
        tree.TypesIn .standard flattened.output := by
  refine ⟨fun hlength => ?_, fun flattened hflat => ?_⟩
  · exact ⟨_, result_flatten_of_render h
      (Scope.render_eq_ok (Scope.fits_of_length h hlength "_" standardTypes))⟩
  · obtain ⟨stop, hparse⟩ := exists_parse_of_parseSource h
    obtain ⟨s, ⟨-, hscope, -⟩, -⟩ := itemsRead_of_parse hparse
    rw [TypeNames.visible_ofBuiltins] at hscope
    obtain ⟨hrender, hflattened⟩ := render_of_result_flatten h hflat
    refine ⟨hflattened, ?_⟩
    rw [Scope.text_of_render hrender]
    exact Scope.typesIn_textOf rfl hscope

/-- One type name of each kind: that of `p` is declared, that of `q` is early, that of
    `v` is stray, and that of `i` is built in. -/
def everyReference : String :=
  "struct T; namespace a \x7b struct U; U *p; T *q; struct T; \x7d U v; int i;"

theorem typesIn_flatten_everyReference :
    ∃ tree count output, (parseSource .standard everyReference "in").result = .ok (tree, count) ∧
      (flatten .standard everyReference "in").result = .ok ⟨"in", tree, output, count⟩ ∧
      output = "struct T;\nstruct a_U;\na_U *a_p;\na_T *a_q;\nstruct a_T;\nU v;\nint i;\n" ∧
      tree.TypesIn .standard output := by
  obtain ⟨tree, count, hparse, hrender⟩ := @exists_tree _ .standard everyReference "in"
    (fun parsed => parsed.1.render .standard "_" standardTypes)
    (.ok "struct T;\nstruct a_U;\na_U *a_p;\na_T *a_q;\nstruct a_T;\nU v;\nint i;\n")
    (by decide +kernel)
  obtain ⟨hexists, htypes⟩ := typesIn_flatten hparse
  obtain ⟨output, hflatten⟩ := hexists (by decide +kernel)
  obtain ⟨hrendered, -⟩ := render_of_result_flatten hparse hflatten
  exact ⟨tree, count, output, hparse, hflatten, Except.ok.inj (hrendered.symm.trans hrender),
    (htypes _ hflatten).2⟩

/-- Each type name is built in and means no declared type, or is that of a type whose
    header is in front. -/
def Scope.Introduces (s : Scope) (options : Options) : Prop :=
  ∀ front path type behind, s.pieces options = front ++ .reference path type :: behind →
    (s.naming options).Undeclared path type.name.text ∧ type.name.text ∈ options.builtins ∨
    ∃ header ∈ headersOf front, (s.naming options).resolved path type.name.text =
      (s.naming options).qualified header.1 header.2

/-- The source is flattened to the text, in which not all type names are introduced. -/
def UsesUndeclared (source output : String) : Prop :=
  ∃ tree count, (parseSource .standard source "in").result = .ok (tree, count) ∧
    (flatten .standard source "in").result = .ok ⟨"in", tree, output, count⟩ ∧
    ¬tree.Introduces .standard

/-- A reference behind pieces that do not introduce it settles that. -/
theorem usesUndeclared_of_reference {source output : String} {n : Naming} {front : List Piece}
    {path : Path} {type : TypeRef}
    (hview : (parseSource .standard source "in").result.toOption.map (fun parsed =>
      (parsed.1.naming .standard, (parsed.1.pieces .standard).take (front.length + 1))) =
      some (n, front ++ [.reference path type]))
    (htext : (flatten .standard source "in").result.toOption.map (·.output) = some output)
    (hbuiltin : type.name.text ∈ standardTypes → ¬n.Undeclared path type.name.text)
    (hwritten : ∀ header ∈ headersOf front,
      n.resolved path type.name.text ≠ n.qualified header.1 header.2) :
    UsesUndeclared source output := by
  obtain ⟨tree, count, hparse, htree⟩ := exists_tree hview
  obtain ⟨rfl, hpieces⟩ := Prod.mk.inj htree
  obtain ⟨flattened, hflatten, rfl⟩ := exists_ok htext
  have hflattened := (render_of_result_flatten hparse hflatten).2
  refine ⟨tree, count, hparse, hflatten.trans (congrArg Except.ok hflattened), fun h => ?_⟩
  have hsplit := (List.take_append_drop (front.length + 1) (tree.pieces .standard)).symm
  rw [hpieces, List.append_assoc] at hsplit
  rcases h front path type _ hsplit with ⟨hnone, hmem⟩ | ⟨header, hheader, heq⟩
  · exact hbuiltin hmem hnone
  · exact hwritten header hheader heq

/-- Three types that are used before they are declared: one outside of its namespace,
    one in a namespace that declares another one of its name later, and one that is
    built in until then. -/
theorem usesUndeclared_strayType :
    UsesUndeclared "namespace a \x7b struct T; \x7d T x;" "struct a_T;\nT x;\n" ∧
      UsesUndeclared "struct T; namespace n \x7b T *x; struct T; \x7d"
        "struct T;\nn_T *n_x;\nstruct n_T;\n" ∧
      UsesUndeclared "namespace n \x7b int x; struct int; \x7d" "n_int n_x;\nstruct n_int;\n" := by
  refine ⟨?stray, ?early, ?builtin⟩
  case stray =>
    exact @usesUndeclared_of_reference _ _ ⟨"_", standardTypes, [["a", "T"]]⟩
      [.header ["a"] ⟨"T", "in", 1, 22⟩, .plain Naming.terminator] [] ⟨⟨"T", "in", 1, 27⟩, 0, none⟩
      (by decide +kernel) (by decide +kernel) (by decide) (by decide)
  case early =>
    exact @usesUndeclared_of_reference _ _ ⟨"_", standardTypes, [["T"], ["n", "T"]]⟩
      [.header [] ⟨"T", "in", 1, 8⟩, .plain Naming.terminator] ["n"] ⟨⟨"T", "in", 1, 25⟩, 1, none⟩
      (by decide +kernel) (by decide +kernel) (by decide) (by decide)
  case builtin =>
    exact @usesUndeclared_of_reference _ _ ⟨"_", standardTypes, [["n", "int"]]⟩ [] ["n"]
      ⟨⟨"int", "in", 1, 15⟩, 0, none⟩ (by decide +kernel) (by decide +kernel) (by decide) (by decide)

end Flattener
