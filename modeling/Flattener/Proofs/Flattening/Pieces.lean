import Flattener.Flattening.Declaration
import Flattener.Proofs.Flattening.Pages
import Flattener.Proofs.Grammar.Scoping

/-!
# Flattened texts in pieces

What is written for a tree falls into pieces: the headers of structs and classes,
the references to types, the comments that name traits, and what stands between
them (`Naming.pieces`). They make up what is written, and are about the types of
the tree and begin its structs and classes, all of them in order
(`Naming.composes_items`). The headers are under the paths that a reference can
mean (`Naming.typePathsOf_eq`).
-/

namespace Flattener

/-- A piece of what is written for a tree. -/
inductive Piece
  | plain (directives : List Directive)
  /-- The keyword and the name of a struct or class under a path. -/
  | header (path : Path) (name : Name)
  /-- The comment on the traits of a class under a path. -/
  | traits (path : Path) (types : List TypeRef)
  /-- The name of a type, as it is referred to under a path. -/
  | reference (path : Path) (type : TypeRef)
  deriving DecidableEq, Repr

namespace Piece

/-- The directives that a piece stands for. -/
def directives (n : Naming) : Piece → List Directive
  | plain directives => directives
  | header path name => n.structLead path name
  | traits path types => n.traitComment path types
  | reference path type => [n.typeName path type]

/-- The types that a piece is about. -/
def types : Piece → List TypeRef
  | traits _ types => types
  | reference _ type => [type]
  | _ => []

/-- The path and the name of the type whose header a piece is. -/
def header? : Piece → Option (Path × String)
  | header path name => some (path, name.text)
  | _ => none

end Piece

/-- The types whose headers are among the pieces, in order. -/
def headersOf (pieces : List Piece) : List (Path × String) :=
  pieces.filterMap (·.header?)

theorem headersOf_append (front behind : List Piece) :
    headersOf (front ++ behind) = headersOf front ++ headersOf behind :=
  List.filterMap_append

theorem headersOf_cons (piece : Piece) (behind : List Piece) :
    headersOf (piece :: behind) = headersOf [piece] ++ headersOf behind :=
  headersOf_append [piece] behind

/-- The type that a node is, if it is one. -/
def Node.typeRef? : Node → Option TypeRef
  | .typeRef type => some type
  | _ => none

namespace Naming

/-! ## The pieces of a tree -/

/-- A variable behind its type. -/
def variablePieces (n : Naming) (path : Path) (name : String) (v : Variable) : List Piece :=
  [.reference path v.type, .plain (n.variableAs path name v).tail]

/-- The pieces of a list of parameters, which is `void` if it is empty. -/
def parameterPieces (n : Naming) (path : Path) (list : List Variable) : List Piece :=
  let inside := match list with
    | [] => [.plain [.write "void" .keyword]]
    | first :: others =>
      n.variablePieces path first.name.text first ++ others.flatMap fun v =>
        .plain [.write "," .operator, .write " " .plain] :: n.variablePieces path v.name.text v
  .plain [.write "(" .operator] :: inside ++ [.plain [.write ")" .operator]]

/-- A signature, with its name as it is written. -/
def signaturePieces (n : Naming) (path : Path) (name : List Directive) (s : Signature) :
    List Piece :=
  .reference path s.returns :: .plain ((n.typeLead path s.returns).tail ++ name) ::
    n.parameterPieces path s.parameters ++ [.plain terminator]

/-- A function under its qualified name. -/
def functionPieces (n : Naming) (path : Path) (s : Signature) : List Piece :=
  n.signaturePieces path [.write (n.qualified path s.name.text) .identifier] s

/-- The pieces of a member. -/
def memberPieces (n : Naming) (path : Path) : Member → List Piece
  | .field f => n.variablePieces path f.declared.name.text f.declared ++ [.plain terminator]
  | .functionPointer s =>
    n.signaturePieces path
      [.write "(*" .operator, .write s.name.text .identifier, .write ")" .operator] s

/-- A struct or class that is only declared. -/
def forwardPieces (path : Path) (name : Name) : List Piece :=
  [.header path name, .plain terminator]

/-- A struct around what it holds. -/
def bodyPieces (path : Path) (name : Name) (inside : List Piece) : List Piece :=
  .header path name :: .plain [.write " " .plain, .write openBrace .operator, .newline, .indent] ::
    inside ++ [.plain [.dedent, .write (closeBrace ++ ";") .operator, .newline]]

/-- The pieces of a struct, or of a forward declaration of it. -/
def structPieces (n : Naming) (path : Path) (s : Struct) : List Piece :=
  match s.members with
  | none => forwardPieces path s.name
  | some members => bodyPieces path s.name (members.flatMap (n.memberPieces path))

/-- A class as a struct, and its methods behind it. -/
def classPieces (n : Naming) (path : Path) (c : Class) : List Piece :=
  match c.body with
  | none => forwardPieces path c.name
  | some body =>
    bodyPieces path c.name
        (.traits path body.traits :: body.members.flatMap (n.memberPieces path)) ++
      body.methods.flatMap (n.functionPieces (path ++ [c.name.text]))

mutual

/-- An item of a namespace, in pieces. -/
def itemPieces (n : Naming) (path : Path) : Item → List Piece
  | .raw run => [.plain (n.rawRun run)]
  | .variableDecl v =>
    n.variablePieces path (n.qualified path v.name.text) v ++ [.plain terminator]
  | .functionDecl s => n.functionPieces path s
  | .structDecl s => n.structPieces path s
  | .classDecl c => n.classPieces path c
  | .namespaceDecl name children => n.pieces (path ++ [name.text]) children

/-- The items of a namespace, in pieces. -/
def pieces (n : Naming) (path : Path) : List Item → List Piece
  | [] => []
  | item :: items => n.itemPieces path item ++ n.pieces path items

end

/-! ## What the pieces make up -/

/-- The pieces are written as the directives. They are about the types among the
    nodes, and begin the structs and classes among them. -/
structure Composes (n : Naming) (pieces : List Piece) (directives : List Directive)
    (nodes : List Node) : Prop where
  directives : pieces.flatMap (·.directives n) = directives
  types : pieces.flatMap (·.types) = nodes.filterMap (·.typeRef?)
  names : (headersOf pieces).map (·.2) = aggregateNames nodes

section

variable {n : Naming}

theorem composes_nil : n.Composes [] [] [] :=
  ⟨rfl, rfl, rfl⟩

theorem Composes.append {ps ps' : List Piece} {ds ds' : List Directive} {nodes nodes' : List Node}
    (h : n.Composes ps ds nodes) (h' : n.Composes ps' ds' nodes') :
    n.Composes (ps ++ ps') (ds ++ ds') (nodes ++ nodes') := by
  constructor
  · rw [List.flatMap_append, h.directives, h'.directives]
  · rw [List.flatMap_append, List.filterMap_append, h.types, h'.types]
  · rw [headersOf_append, List.map_append, aggregateNames_append, h.names, h'.names]

/-- What composes each part of a list composes the list. -/
theorem composes_flatMap {α : Type} {pieces : α → List Piece} {directives : α → List Directive}
    {nodes : α → List Node} (h : ∀ a, n.Composes (pieces a) (directives a) (nodes a))
    (list : List α) :
    n.Composes (list.flatMap pieces) (list.flatMap directives) (list.flatMap nodes) := by
  induction list with
  | nil => exact composes_nil
  | cons a list ih =>
    simp only [List.flatMap_cons]
    exact (h a).append ih

/-- Text in front adds no nodes. -/
theorem Composes.plain {ps : List Piece} {ds : List Directive} {nodes : List Node}
    (h : n.Composes ps ds nodes) (text : List Directive) :
    n.Composes (.plain text :: ps) (text ++ ds) nodes :=
  ⟨congrArg (text ++ ·) h.directives, h.types, h.names⟩

theorem composes_plain (n : Naming) (text : List Directive) : n.Composes [.plain text] text [] :=
  ⟨List.append_nil text, rfl, rfl⟩

/-- A node that is neither a type nor makes one adds nothing. -/
theorem Composes.above {ps : List Piece} {ds : List Directive} {node : Node} {nodes : List Node}
    (h : n.Composes ps ds nodes) (htype : node.typeRef? = none)
    (hname : node.aggregateName? = none) : n.Composes ps ds (node :: nodes) := by
  refine ⟨h.directives, ?_, ?_⟩
  · rw [List.filterMap_cons_none htype]
    exact h.types
  · rw [aggregateNames, List.filterMap_cons_none hname]
    exact h.names

/-- Text behind adds no nodes. -/
theorem Composes.before {ps : List Piece} {ds : List Directive} {nodes : List Node}
    (h : n.Composes ps ds nodes) (text : List Directive) :
    n.Composes (ps ++ [.plain text]) (ds ++ text) nodes := by
  have hall := h.append (composes_plain n text)
  rwa [List.append_nil] at hall

end

/-! ### Declarations -/

section

variable (n : Naming) (path : Path)

theorem composes_reference (type : TypeRef) :
    n.Composes [.reference path type] [n.typeName path type] [.typeRef type] :=
  ⟨rfl, rfl, rfl⟩

theorem composes_variable (name : String) (v : Variable) :
    n.Composes (n.variablePieces path name v) (n.variableAs path name v) v.parts := by
  have htext := composes_plain n (n.variableAs path name v).tail
  rw [Variable.parts]
  cases v.initial with
  | none => exact (composes_reference n path v.type).append htext
  | some run => exact (composes_reference n path v.type).append (htext.above rfl rfl)

theorem composes_parameters (list : List Variable) :
    n.Composes (n.parameterPieces path list) (n.parameters path list)
      (list.flatMap (Variable.walk fun _ => true)) := by
  have hparameter (v : Variable) : n.Composes (n.variablePieces path v.name.text v)
      (n.variableAs path v.name.text v) (v.walk fun _ => true) :=
    (composes_variable n path _ v).above rfl rfl
  cases list with
  | nil => exact ⟨rfl, rfl, rfl⟩
  | cons first others =>
    have hothers := composes_flatMap
      (fun v => (hparameter v).plain [.write "," .operator, .write " " .plain]) others
    rw [List.flatMap_cons]
    exact (((hparameter first).append hothers).plain [.write "(" .operator]).before
      [.write ")" .operator]

theorem composes_signature (name : List Directive) (s : Signature) :
    n.Composes (n.signaturePieces path name s)
      (n.typeLead path s.returns ++ name ++ n.parameters path s.parameters ++ terminator)
      (s.parts fun _ => true) := by
  have hinside := (composes_parameters n path s.parameters).plain
    ((n.typeLead path s.returns).tail ++ name)
  exact ((composes_reference n path s.returns).append hinside).before terminator

theorem composes_function (s : Signature) :
    n.Composes (n.functionPieces path s) (n.functionDecl path s) (s.parts fun _ => true) := by
  have hall := composes_signature n path [.write (n.qualified path s.name.text) .identifier] s
  rwa [List.append_assoc (n.typeLead _ _)] at hall

theorem composes_member (m : Member) :
    n.Composes (n.memberPieces path m) (n.member path m) (m.walk fun _ => true) := by
  cases m with
  | field f => exact ((composes_variable n path _ f.declared).before terminator).above rfl rfl
  | functionPointer s => exact (composes_signature n path _ s).above rfl rfl

theorem composes_members (members : List Member) :
    n.Composes (members.flatMap (n.memberPieces path)) (members.flatMap (n.member path))
      (members.flatMap (Member.walk fun _ => true)) :=
  composes_flatMap (composes_member n path) members

theorem composes_traits (traits : List TypeRef) :
    n.Composes [.traits path traits] (n.traitComment path traits) (traits.map .typeRef) := by
  refine ⟨List.append_nil _, ?_, (aggregateNames_traits traits).symm⟩
  rw [List.filterMap_map]
  exact (List.append_nil traits).trans List.filterMap_some.symm

/-- A header makes the name of its node a type. -/
theorem composes_header {name : Name} {node : Node} (htype : node.typeRef? = none)
    (hname : node.aggregateName? = some name.text) :
    n.Composes [.header path name] (n.structLead path name) [node] := by
  refine ⟨rfl, ?_, ?_⟩
  · rw [List.filterMap_cons_none htype]
    rfl
  · rw [aggregateNames, List.filterMap_cons_some hname]
    rfl

variable {n} in
theorem composes_body {name : Name} {inside : List Piece} {ds : List Directive} {node : Node}
    {nodes : List Node} (h : n.Composes inside ds nodes) (htype : node.typeRef? = none)
    (hname : node.aggregateName? = some name.text) :
    n.Composes (bodyPieces path name inside) (n.structAround path name ds) (node :: nodes) := by
  have hopened := h.plain [.write " " .plain, .write openBrace .operator, .newline, .indent]
  have hinside := hopened.before [.dedent, .write (closeBrace ++ ";") .operator, .newline]
  have hall := (composes_header n path htype hname).append hinside
  rwa [← List.append_assoc, ← List.append_assoc] at hall

theorem composes_struct (s : Struct) :
    n.Composes (n.structPieces path s) (n.structDecl path s) (s.walk fun _ => true) := by
  rw [structPieces, structDecl, Struct.walk]
  cases s.members with
  | none => exact (composes_header n path rfl rfl).before terminator
  | some members => exact composes_body path (composes_members n path members) rfl rfl

theorem composes_methods (methods : List Signature) :
    n.Composes (methods.flatMap (n.functionPieces path)) (methods.flatMap (n.functionDecl path))
      (methods.flatMap fun method =>
        Node.above (fun _ => true) (.functionDecl method) (method.parts fun _ => true)) :=
  composes_flatMap (fun s => (composes_function n path s).above rfl rfl) methods

/-- The methods of a class are functions behind it. -/
theorem composes_class (c : Class) :
    n.Composes (n.classPieces path c) ((n.classDecl path c).flatMap (·.directives))
      (c.walk fun _ => true) := by
  rw [classPieces, classDecl, Class.walk]
  cases c.body with
  | none => exact (composes_header n path rfl rfl).before terminator
  | some body =>
    have hinside := (composes_traits n path body.traits).append
      (composes_members n path body.members)
    have hstruct : n.Composes _ _ (.classDecl c :: _) := composes_body path hinside rfl rfl
    have hall := hstruct.append (composes_methods n (path ++ [c.name.text]) body.methods)
    simp only [List.flatMap_cons, List.flatMap_nil, List.append_nil]
    exact hall

end

/-! ### Whole trees -/

mutual

theorem composes_item {n : Naming} : ∀ (item : Item) {path : Path},
    n.Composes (n.itemPieces path item) ((n.item path item).flatMap (·.directives))
      (item.walk fun _ => true)
  | .raw run, path => by
    rw [itemPieces, Naming.item, Item.walk, List.flatMap_singleton]
    exact (composes_plain n _).above rfl rfl
  | .variableDecl v, path => by
    rw [itemPieces, Naming.item, Item.walk, List.flatMap_singleton]
    exact ((composes_variable n path _ v).before terminator).above rfl rfl
  | .functionDecl s, path => by
    rw [itemPieces, Naming.item, Item.walk, List.flatMap_singleton]
    exact (composes_function n path s).above rfl rfl
  | .structDecl s, path => by
    rw [itemPieces, Naming.item, Item.walk, List.flatMap_singleton]
    exact composes_struct n path s
  | .classDecl c, path => by
    rw [itemPieces, Naming.item, Item.walk]
    exact composes_class n path c
  | .namespaceDecl name children, path => by
    rw [itemPieces, Naming.item, Item.walk]
    exact (composes_items children).above rfl rfl

theorem composes_items {n : Naming} : ∀ (items : List Item) {path : Path},
    n.Composes (n.pieces path items) ((n.items path items).flatMap (·.directives))
      (walkItems (fun _ => true) items)
  | [], path => by
    rw [pieces, Naming.items, walkItems]
    exact composes_nil
  | item :: items, path => by
    rw [pieces, Naming.items, walkItems, List.flatMap_append]
    exact (composes_item item).append (composes_items items)

end

/-! ## Headers -/

section

variable (n : Naming) (path : Path)

/-- Pieces of nodes that make no types are no headers. -/
theorem Composes.headersOf_eq_nil {n : Naming} {ps : List Piece} {ds : List Directive}
    {nodes : List Node} (h : n.Composes ps ds nodes) (hnames : aggregateNames nodes = []) :
    headersOf ps = [] :=
  List.map_eq_nil_iff.1 (h.names.trans hnames)

theorem headersOf_members (members : List Member) :
    headersOf (members.flatMap (n.memberPieces path)) = [] :=
  (composes_members n path members).headersOf_eq_nil (aggregateNames_members members)

theorem headersOf_methods (methods : List Signature) :
    headersOf (methods.flatMap (n.functionPieces path)) = [] :=
  (composes_methods n path methods).headersOf_eq_nil (aggregateNames_methods methods)

theorem headersOf_body (name : Name) (inside : List Piece) :
    headersOf (bodyPieces path name inside) = (path, name.text) :: headersOf inside := by
  show (path, name.text) :: headersOf (inside ++ [_]) = _
  rw [headersOf_append]
  exact congrArg _ (List.append_nil _)

theorem headersOf_struct (s : Struct) :
    headersOf (n.structPieces path s) = [(path, s.name.text)] := by
  rw [structPieces]
  cases s.members with
  | none => rfl
  | some members => rw [headersOf_body, headersOf_members]

theorem headersOf_class (c : Class) :
    headersOf (n.classPieces path c) = [(path, c.name.text)] := by
  rw [classPieces]
  cases c.body with
  | none => rfl
  | some body =>
    rw [headersOf_append, headersOf_body, headersOf_methods, List.append_nil]
    exact congrArg _ (headersOf_members n path body.members)

end

mutual

/-- Each struct or class has one header, under its own path. -/
theorem typePaths_eq (n : Naming) : ∀ (item : Item) (path : Path),
    item.typePaths path =
      (headersOf (n.itemPieces path item)).map fun (outer, name) => outer ++ [name]
  | .raw run, path => by
    rw [Item.typePaths, itemPieces]
    · rfl
    all_goals nofun
  | .variableDecl v, path => by
    rw [Item.typePaths, itemPieces]
    · rfl
    all_goals nofun
  | .functionDecl s, path => by
    rw [Item.typePaths, itemPieces,
      (composes_function n path s).headersOf_eq_nil (aggregateNames_signature s)]
    · rfl
    all_goals nofun
  | .structDecl s, path => by
    rw [Item.typePaths, itemPieces, headersOf_struct]
    rfl
  | .classDecl c, path => by
    rw [Item.typePaths, itemPieces, headersOf_class]
    rfl
  | .namespaceDecl name children, path => by
    rw [Item.typePaths, itemPieces]
    exact typePathsOf_eq n children (path ++ [name.text])

theorem typePathsOf_eq (n : Naming) : ∀ (items : List Item) (path : Path),
    typePathsOf path items =
      (headersOf (n.pieces path items)).map fun (outer, name) => outer ++ [name]
  | [], path => by
    rw [typePathsOf, pieces]
    rfl
  | item :: items, path => by
    rw [typePathsOf, pieces, headersOf_append, List.map_append, typePaths_eq n item path,
      typePathsOf_eq n items path]

end

/-- A type is declared under a path if its header is written under it. -/
theorem mem_typePathsOf {n : Naming} {path outer : Path} {items : List Item} {name : String} :
    outer ++ [name] ∈ typePathsOf path items ↔ (outer, name) ∈ headersOf (n.pieces path items) := by
  rw [typePathsOf_eq n items path, List.mem_map]
  constructor
  · rintro ⟨⟨other, name'⟩, hmem, heq⟩
    obtain ⟨rfl, hname⟩ := List.append_inj' heq rfl
    cases hname
    exact hmem
  · exact fun hmem => ⟨_, hmem, rfl⟩

end Naming

end Flattener
