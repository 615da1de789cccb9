import Flattener.Proofs.Flattening.FlatForm
import Flattener.Proofs.Flattening.References

/-!
# Flat trees are well scoped

The headers and references of a flat tree are those of the tree that it was made of,
under the names that these are written with (`Naming.flatPiece`). The flat tree is well
scoped if each reference is to a known name or has the header of that name in front of
it, and the names of variables and functions are no names of types
(`Naming.wellScoped_flatItems`). None of these names is built in, as none of them was
where it was declared (`Naming.itemsNames_not_mem`).
-/

namespace Flattener

namespace Naming

variable {n : Naming} {path : Path}

/-! ## Names that are not those of types -/

/-- The names that a member declares: its own and those of parameters. -/
def memberNames : Member → List String
  | .field f => [f.declared.name.text]
  | .functionPointer s => s.name.text :: s.parameters.map (·.name.text)

/-- The names that a function declares, which are its own and its parameters'. -/
def functionNames (n : Naming) (path : Path) (s : Signature) : List String :=
  n.qualified path s.name.text :: s.parameters.map (·.name.text)

mutual

/-- The names by which variables and functions of an item are written, and those of
    fields and parameters. -/
def itemNames (n : Naming) (path : Path) : Item → List String
  | .raw _ => []
  | .variableDecl v => [n.qualified path v.name.text]
  | .functionDecl s => n.functionNames path s
  | .structDecl s => (s.members.getD []).flatMap memberNames
  | .classDecl d =>
    match d.body with
    | none => []
    | some body => body.members.flatMap memberNames ++
        body.methods.flatMap (n.functionNames (path ++ [d.name.text]))
  | .namespaceDecl name children => n.itemsNames (path ++ [name.text]) children

/-- The names that items declare. -/
def itemsNames (n : Naming) (path : Path) : List Item → List String
  | [] => []
  | item :: items => n.itemNames path item ++ n.itemsNames path items

end

section

variable {known : List String}

/-- What is well scoped declares no name that is known. -/
theorem memberNames_not_mem {m : Member} (h : m.WellScoped known) :
    ∀ name ∈ memberNames m, name ∉ known := by
  cases m with
  | field f => exact List.forall_mem_singleton.2 h.2
  | functionPointer s =>
    exact List.forall_mem_cons.2 ⟨h.2.1, List.forall_mem_map.2 fun v hv => (h.2.2 v hv).2⟩

theorem membersNames_not_mem {members : List Member} (h : ∀ m ∈ members, m.WellScoped known) :
    ∀ name ∈ members.flatMap memberNames, name ∉ known :=
  List.forall_mem_flatMap.2 fun m hm => memberNames_not_mem (h m hm)

variable (hsep : '_' ∈ n.separator.toList) {names : List String}
  (hplain : ∀ name ∈ names, '_' ∉ name.toList)
include hsep hplain

theorem functionNames_not_mem {s : Signature} (h : s.WellScoped known) (hknown : names ⊆ known) :
    ∀ name ∈ n.functionNames path s, name ∉ names :=
  List.forall_mem_cons.2 ⟨qualified_not_mem hsep hplain fun hmem => h.2.1 (hknown hmem),
    List.forall_mem_map.2 fun v hv hmem => (h.2.2 v hv).2 (hknown hmem)⟩

end

mutual

theorem itemNames_not_mem {names : List String} (hsep : '_' ∈ n.separator.toList)
    (hplain : ∀ name ∈ names, '_' ∉ name.toList) : ∀ (item : Item) {path : Path}
    {known : List String}, item.WellScoped known → names ⊆ known →
    ∀ name ∈ n.itemNames path item, name ∉ names
  | .raw _, path, known, _, _ => by
    rw [itemNames]
    exact List.forall_mem_nil _
  | .variableDecl v, path, known, h, hknown => by
    rw [Item.WellScoped] at h
    rw [itemNames]
    exact List.forall_mem_singleton.2 (qualified_not_mem hsep hplain fun hmem => h.2 (hknown hmem))
  | .functionDecl s, path, known, h, hknown => by
    rw [Item.WellScoped] at h
    rw [itemNames]
    exact functionNames_not_mem hsep hplain h hknown
  | .structDecl s, path, known, h, hknown => by
    rw [Item.WellScoped] at h
    rw [itemNames]
    cases hmembers : s.members with
    | none => exact List.forall_mem_nil _
    | some members =>
      have hinside := List.subset_append_of_subset_left [s.name.text] hknown
      exact fun name hname hmem =>
        membersNames_not_mem (h members hmembers) name hname (hinside hmem)
  | .classDecl d, path, known, h, hknown => by
    rw [Item.WellScoped] at h
    rw [itemNames]
    cases hbody : d.body with
    | none => exact List.forall_mem_nil _
    | some body =>
      obtain ⟨hmembers, hmethods⟩ := h body hbody
      have hinside := List.subset_append_of_subset_left [d.name.text] hknown
      refine List.forall_mem_append.2 ⟨fun name hname hmem => ?_, ?_⟩
      · exact membersNames_not_mem hmembers name hname (hinside hmem)
      · exact List.forall_mem_flatMap.2 fun s hs =>
          functionNames_not_mem hsep hplain (hmethods s hs) hinside
  | .namespaceDecl name children, path, known, h, hknown => by
    rw [Item.WellScoped] at h
    rw [itemNames]
    exact itemsNames_not_mem hsep hplain children h hknown

/-- No name is written that is known from the start. -/
theorem itemsNames_not_mem {names : List String} (hsep : '_' ∈ n.separator.toList)
    (hplain : ∀ name ∈ names, '_' ∉ name.toList) : ∀ (items : List Item) {path : Path}
    {known : List String}, ItemsWellScoped known items → names ⊆ known →
    ∀ name ∈ n.itemsNames path items, name ∉ names
  | [], path, known, _, _ => by
    rw [itemsNames]
    exact List.forall_mem_nil _
  | item :: items, path, known, h, hknown => by
    rw [ItemsWellScoped] at h
    rw [itemsNames]
    exact List.forall_mem_append.2 ⟨itemNames_not_mem hsep hplain item h.1 hknown,
      itemsNames_not_mem hsep hplain items h.2 (List.subset_append_of_subset_left _ hknown)⟩

end

/-! ## Flat trees are well scoped -/

/-- A header or a reference of the flat tree. -/
def flatPiece (n : Naming) : Piece → Piece
  | .header path name => .header [] ⟨n.qualified path name.text, default⟩
  | .reference path type => .reference [] (n.flatType path type)
  | piece => piece

/-- The name that a header is written with. -/
def headerName (n : Naming) (header : Path × String) : String :=
  n.qualified header.1 header.2

theorem headersOf_flatPieces (pieces : List Piece) :
    (headersOf (pieces.map n.flatPiece)).map (·.2) = (headersOf pieces).map n.headerName := by
  induction pieces with
  | nil => rfl
  | cons piece pieces ih =>
    rw [List.map_cons, headersOf_cons, headersOf_cons piece, List.map_append, List.map_append, ih]
    cases piece <;> rfl

/-- References are backed if the name of each is known or that of a header in front. -/
theorem backed_of_split {known : List String} {pieces : List Piece}
    (h : ∀ front path type behind, pieces = front ++ .reference path type :: behind →
      n.resolved path type.name.text ∈ known ∨
        n.resolved path type.name.text ∈ (headersOf front).map n.headerName) :
    Backed known (pieces.map n.flatPiece) := by
  induction pieces generalizing known with
  | nil => trivial
  | cons piece pieces ih =>
    refine ⟨?_, ih fun front path type behind hsplit => ?_⟩
    · cases piece with
      | reference path type =>
        exact (h [] path type pieces rfl).resolve_right List.not_mem_nil
      | plain _ | header _ _ | traits _ _ => trivial
    · have hcase := h (piece :: front) path type behind (congrArg (piece :: ·) hsplit)
      have hpiece := headersOf_flatPieces (n := n) [piece]
      rw [headersOf_cons, List.map_append, List.mem_append, ← or_assoc, ← List.mem_append] at hcase
      rw [List.map_singleton] at hpiece
      rwa [hpiece]

/-- Where no types are made, all that is referred to is known from the start. -/
theorem forall_of_backed {known : List String} {pieces : List Piece} (h : Backed known pieces)
    (hheaders : headersOf pieces = []) : ∀ piece ∈ pieces, piece.Backed known := by
  induction pieces with
  | nil => exact List.forall_mem_nil _
  | cons piece pieces ih =>
    rw [headersOf_cons] at hheaders
    obtain ⟨hnone, hothers⟩ := List.append_eq_nil_iff.1 hheaders
    rw [Backed, hnone, List.map_nil, List.append_nil] at h
    exact List.forall_mem_cons.2 ⟨h.1, ih h.2 hothers⟩

section

variable {known : List String}

/-- Where no types are made, each reference is to a known name. -/
theorem resolved_mem_of_backed {pieces : List Piece} (h : Backed known (pieces.map n.flatPiece))
    (hheaders : headersOf pieces = []) {type : TypeRef} (hmem : .reference path type ∈ pieces) :
    n.resolved path type.name.text ∈ known := by
  have hflat := headersOf_flatPieces (n := n) pieces
  rw [hheaders, List.map_nil, List.map_eq_nil_iff] at hflat
  exact forall_of_backed h hflat _ (List.mem_map_of_mem hmem)

/-- What is inside of a struct knows the name that the struct is written with. -/
theorem resolved_mem_of_body {name : Name} {inside : List Piece}
    (h : Backed known ((bodyPieces path name inside).map n.flatPiece))
    (hheaders : headersOf inside = []) {inner : Path} {type : TypeRef}
    (hmem : .reference inner type ∈ inside) :
    n.resolved inner type.name.text ∈ known ++ [n.qualified path name.text] := by
  refine resolved_mem_of_backed h.2 ?_ (List.mem_cons_of_mem _ (List.mem_append_left _ hmem))
  show headersOf (inside ++ [_]) = []
  rw [headersOf_append, hheaders]
  rfl

theorem reference_mem_parameterPieces {list : List Variable} {v : Variable} (hv : v ∈ list) :
    .reference path v.type ∈ n.parameterPieces path list := by
  refine List.mem_append_left _ (List.mem_cons_of_mem _ ?_)
  cases hv with
  | head => exact List.mem_append_left _ List.mem_cons_self
  | tail first hv =>
    refine List.mem_append_right _ (List.mem_flatMap.2 ⟨v, hv, ?_⟩)
    exact List.mem_cons_of_mem _ List.mem_cons_self

theorem wellScoped_flatSignature {name : String} {lead : List Directive} {s : Signature}
    (h : ∀ type, .reference path type ∈ n.signaturePieces path lead s →
      n.resolved path type.name.text ∈ known)
    (hname : name ∉ known) (hparameters : ∀ p ∈ s.parameters.map (·.name.text), p ∉ known) :
    (n.flatSignature path name s).WellScoped known := by
  refine ⟨h _ List.mem_cons_self, hname, List.forall_mem_map.2 fun v hv => ⟨h v.type ?_, ?_⟩⟩
  · refine List.mem_cons_of_mem _ (List.mem_cons_of_mem _ (List.mem_append_left _ ?_))
    exact reference_mem_parameterPieces hv
  · exact hparameters v.name.text (List.mem_map.2 ⟨v, hv, rfl⟩)

theorem wellScoped_flatFunction {s : Signature}
    (h : ∀ type, .reference path type ∈ n.functionPieces path s →
      n.resolved path type.name.text ∈ known)
    (hnames : ∀ name ∈ n.functionNames path s, name ∉ known) :
    (n.flatFunction path s).WellScoped known := by
  obtain ⟨hname, hparameters⟩ := List.forall_mem_cons.1 hnames
  exact wellScoped_flatSignature h hname hparameters

theorem wellScoped_flatMembers {members : List Member}
    (h : ∀ type, .reference path type ∈ members.flatMap (n.memberPieces path) →
      n.resolved path type.name.text ∈ known)
    (hnames : ∀ name ∈ members.flatMap memberNames, name ∉ known) :
    ∀ m ∈ members.map (n.flatMember path), m.WellScoped known := by
  refine List.forall_mem_map.2 fun m hm => ?_
  have hm' : ∀ type, .reference path type ∈ n.memberPieces path m →
      n.resolved path type.name.text ∈ known :=
    fun type hmem => h type (List.mem_flatMap.2 ⟨m, hm, hmem⟩)
  have hown : ∀ name ∈ memberNames m, name ∉ known :=
    fun name hmem => hnames name (List.mem_flatMap.2 ⟨m, hm, hmem⟩)
  cases m with
  | field f =>
    exact ⟨hm' _ (List.mem_append_left _ List.mem_cons_self), hown _ List.mem_cons_self⟩
  | functionPointer s =>
    obtain ⟨hname, hparameters⟩ := List.forall_mem_cons.1 hown
    exact wellScoped_flatSignature hm' hname hparameters

theorem itemTypeNames_append (first second : List Item) :
    itemTypeNames (first ++ second) = itemTypeNames first ++ itemTypeNames second := by
  induction first with
  | nil => rw [itemTypeNames_nil, List.nil_append, List.nil_append]
  | cons item first ih =>
    rw [List.cons_append, itemTypeNames_cons, itemTypeNames_cons, ih, List.append_assoc]

theorem itemsWellScoped_append {first second : List Item} :
    ItemsWellScoped known (first ++ second) ↔
      ItemsWellScoped known first ∧ ItemsWellScoped (known ++ itemTypeNames first) second := by
  induction first generalizing known with
  | nil =>
    rw [itemTypeNames_nil, List.append_nil]
    exact ⟨fun h => ⟨trivial, h⟩, And.right⟩
  | cons item first ih =>
    rw [List.cons_append, ItemsWellScoped, ItemsWellScoped, ih, itemTypeNames_cons, and_assoc,
      List.append_assoc]

/-- Functions make no types. -/
theorem itemTypeNames_functions (methods : List Signature) :
    itemTypeNames (methods.map (n.flatFunction path)) = [] := by
  induction methods with
  | nil => rw [List.map_nil, itemTypeNames_nil]
  | cons s methods ih =>
    rw [List.map_cons, itemTypeNames_cons, ih, flatFunction, Item.typeNames_functionDecl]
    rfl

theorem itemsWellScoped_functions {methods : List Signature}
    (h : ∀ s ∈ methods, (n.flatFunction path s).WellScoped known) :
    ItemsWellScoped known (methods.map (n.flatFunction path)) := by
  induction methods with
  | nil => trivial
  | cons s methods ih =>
    obtain ⟨hs, hmethods⟩ := List.forall_mem_cons.1 h
    refine ⟨hs, ?_⟩
    rw [flatFunction, Item.typeNames_functionDecl, List.append_nil]
    exact ih hmethods

end

mutual

/-- The types that the flat tree makes have the names that headers are written with. -/
theorem typeNames_flatItem : ∀ (item : Item) {path : Path},
    itemTypeNames (n.flatItem path item) = (headersOf (n.itemPieces path item)).map n.headerName
  | .raw run, path => by
    rw [flatItem, itemPieces, itemTypeNames_cons, itemTypeNames_nil, Item.typeNames_raw]
    rfl
  | .variableDecl v, path => by
    rw [flatItem, itemPieces, itemTypeNames_cons, itemTypeNames_nil, Item.typeNames_variableDecl]
    rfl
  | .functionDecl s, path => by
    rw [flatItem, itemPieces, itemTypeNames_cons, itemTypeNames_nil, flatFunction,
      Item.typeNames_functionDecl,
      (composes_function n path s).headersOf_eq_nil (aggregateNames_signature s)]
    rfl
  | .structDecl s, path => by
    rw [flatItem, itemPieces, itemTypeNames_cons, itemTypeNames_nil, Item.typeNames_structDecl,
      headersOf_struct]
    rfl
  | .classDecl d, path => by
    rw [flatItem, itemPieces, flatClass, itemTypeNames_cons, Item.typeNames_structDecl,
      headersOf_class]
    cases d.body with
    | none =>
      rw [itemTypeNames_nil]
      rfl
    | some body =>
      dsimp only
      rw [itemTypeNames_functions]
      rfl
  | .namespaceDecl name children, path => by
    rw [flatItem, itemPieces]
    exact typeNames_flatItems children

theorem typeNames_flatItems : ∀ (items : List Item) {path : Path},
    itemTypeNames (n.flatItems path items) = (headersOf (n.pieces path items)).map n.headerName
  | [], path => by
    rw [flatItems, pieces, itemTypeNames_nil]
    rfl
  | item :: items, path => by
    rw [flatItems, pieces, itemTypeNames_append, headersOf_append, List.map_append,
      typeNames_flatItem item, typeNames_flatItems items]

end

mutual

theorem wellScoped_flatItem : ∀ (item : Item) {path : Path} {known : List String},
    Backed known ((n.itemPieces path item).map n.flatPiece) →
    (∀ name ∈ n.itemNames path item, name ∉ known ++ itemTypeNames (n.flatItem path item)) →
    ItemsWellScoped known (n.flatItem path item)
  | .raw run, path, known, _, _ => by
    rw [flatItem]
    exact ⟨trivial, trivial⟩
  | .variableDecl v, path, known, h, hnames => by
    rw [itemPieces] at h
    rw [itemNames] at hnames
    have hname := List.forall_mem_singleton.1 hnames
    rw [flatItem]
    exact ⟨⟨h.1, fun hmem => hname (List.mem_append_left _ hmem)⟩, trivial⟩
  | .functionDecl s, path, known, h, hnames => by
    rw [itemPieces] at h
    rw [itemNames] at hnames
    have hheaders := (composes_function n path s).headersOf_eq_nil (aggregateNames_signature s)
    rw [flatItem]
    refine ⟨wellScoped_flatFunction (fun type => resolved_mem_of_backed h hheaders) ?_, trivial⟩
    exact fun name hname hmem => hnames name hname (List.mem_append_left _ hmem)
  | .structDecl s, path, known, h, hnames => by
    rw [typeNames_flatItem, itemPieces, headersOf_struct] at hnames
    rw [itemPieces, structPieces] at h
    rw [itemNames] at hnames
    rw [flatItem]
    refine ⟨?_, trivial⟩
    cases hmembers : s.members with
    | none => nofun
    | some members =>
      rw [hmembers] at h hnames
      rintro _ ⟨⟩
      exact wellScoped_flatMembers
        (fun type => resolved_mem_of_body h (headersOf_members n path members)) hnames
  | .classDecl d, path, known, h, hnames => by
    rw [typeNames_flatItem, itemPieces, headersOf_class] at hnames
    rw [itemPieces, classPieces] at h
    rw [itemNames] at hnames
    rw [flatItem, flatClass]
    cases hbody : d.body with
    | none => exact ⟨nofun, trivial⟩
    | some body =>
      rw [hbody] at h hnames
      obtain ⟨hmembers, hmethods⟩ := List.forall_mem_append.1 hnames
      rw [List.map_append, backed_append] at h
      obtain ⟨hstruct, hfunctions⟩ := h
      have hheaders : headersOf (.traits path body.traits :: body.members.flatMap
          (n.memberPieces path)) = [] := headersOf_members n path body.members
      rw [headersOf_flatPieces, headersOf_body, hheaders] at hfunctions
      refine ⟨?_, ?_⟩
      · rintro _ ⟨⟩
        exact wellScoped_flatMembers (fun type hmem =>
          resolved_mem_of_body hstruct hheaders (List.mem_cons_of_mem _ hmem)) hmembers
      · rw [Item.typeNames_structDecl]
        refine itemsWellScoped_functions fun s hs => wellScoped_flatFunction (fun type hmem => ?_)
          fun name hname => hmethods name (List.mem_flatMap.2 ⟨s, hs, hname⟩)
        exact resolved_mem_of_backed hfunctions (headersOf_methods n _ body.methods)
          (List.mem_flatMap.2 ⟨s, hs, hmem⟩)
  | .namespaceDecl name children, path, known, h, hnames => by
    rw [itemPieces] at h
    rw [itemNames, flatItem] at hnames
    rw [flatItem]
    exact wellScoped_flatItems children h hnames

/-- The flat tree is well scoped, if the references in it are backed and the names of
    variables and functions are no types. -/
theorem wellScoped_flatItems : ∀ (items : List Item) {path : Path} {known : List String},
    Backed known ((n.pieces path items).map n.flatPiece) →
    (∀ name ∈ n.itemsNames path items, name ∉ known ++ itemTypeNames (n.flatItems path items)) →
    ItemsWellScoped known (n.flatItems path items)
  | [], path, known, _, _ => by
    rw [flatItems]
    trivial
  | item :: items, path, known, h, hnames => by
    rw [pieces, List.map_append, backed_append, headersOf_flatPieces, ← typeNames_flatItem] at h
    rw [itemsNames, flatItems, itemTypeNames_append, List.forall_mem_append,
      ← List.append_assoc] at hnames
    obtain ⟨hitem, hitems⟩ := hnames
    rw [flatItems]
    refine itemsWellScoped_append.2 ⟨wellScoped_flatItem item h.1 ?_,
      wellScoped_flatItems items h.2 hitems⟩
    exact fun name hname hmem => hitem name hname (List.mem_append_left _ hmem)

end

end Naming

end Flattener
