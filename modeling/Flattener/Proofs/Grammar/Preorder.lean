import Flattener.Proofs.Grammar.Soundness

/-!
# Types come before their uses

Well-scoped trees, seen from their nodes in preorder: a node that refers to a
type has the struct or class of that name in front of it, or the type is built
in; and no name is declared behind a struct or class that has it
(`Disciplined`). In front of a node stand the nodes that precede it and those
that enclose it. The traits of a class, which need not be types, are the types
right behind the class (`IsTrait`).

That a list of nodes is disciplined is put together of its parts
(`Disciplined.append`), the later ones behind the types that the earlier ones
make. For the tree of a parse it is `disciplined_of_parse`.
-/

namespace Flattener

/-! ## Nodes behind nodes -/

/-- The name that a node declares, if it is not that of a type or namespace. -/
def Node.declared? : Node → Option Name
  | .variableDecl declared => some declared.name
  | .fieldDecl declared => some declared.declared.name
  | .functionPointer declared => some declared.name
  | .functionDecl declared => some declared.name
  | _ => none

/-- Behind these nodes, the type stands as a trait of a class: in front of it are
    the class and those of its traits that come earlier. -/
def IsTrait (before : List Node) (type : TypeRef) : Prop :=
  ∃ front d body earlier later, before = front ++ .classDecl d :: earlier.map .typeRef ∧
    d.body = some body ∧ body.traits = earlier ++ type :: later

/-- Behind these nodes, and behind known types, the node refers to a known type
    or to one that the nodes make, and declares no name that is one. -/
structure DisciplinedAt (known : List String) (before : List Node) (node : Node) : Prop where
  refers : ∀ type, node = .typeRef type →
    IsTrait before type ∨ type.name.text ∈ known ++ aggregateNames before
  declares : ∀ name, node.declared? = some name → name.text ∉ known ++ aggregateNames before

/-- Each of the nodes is disciplined behind those in front of it. -/
def Disciplined (known : List String) (nodes : List Node) : Prop :=
  ∀ before node after, nodes = before ++ node :: after → DisciplinedAt known before node

variable {known : List String} {nodes : List Node}

theorem disciplined_nil : Disciplined known [] := fun before node after h => by
  cases before <;> cases h

/-- Nodes in front make more types, and take no trait away. -/
theorem DisciplinedAt.behind {before : List Node} {node : Node}
    (h : DisciplinedAt (known ++ aggregateNames nodes) before node) :
    DisciplinedAt known (nodes ++ before) node := by
  have hnames : known ++ aggregateNames (nodes ++ before) =
      known ++ aggregateNames nodes ++ aggregateNames before := by
    rw [aggregateNames_append, List.append_assoc]
  constructor
  · intro type htype
    rw [hnames]
    refine (h.refers type htype).imp_left ?_
    rintro ⟨front, d, body, earlier, later, rfl, hbody, htraits⟩
    exact ⟨nodes ++ front, d, body, earlier, later, (List.append_assoc ..).symm, hbody, htraits⟩
  · intro name hname
    rw [hnames]
    exact h.declares name hname

theorem Disciplined.append {others : List Node} (h : Disciplined known nodes)
    (hothers : Disciplined (known ++ aggregateNames nodes) others) :
    Disciplined known (nodes ++ others) := by
  intro before node after hsplit
  -- the node is one of the later ones, or one of the first
  rcases List.append_eq_append_iff.1 hsplit with ⟨between, rfl, hrest⟩ | ⟨between, rfl, hrest⟩
  · exact (hothers between node after hrest).behind
  · cases between with
    | nil =>
      have hat := (hothers [] node after hrest.symm).behind
      rwa [List.append_nil, List.append_nil] at hat
    | cons first between =>
      cases hrest
      exact h before node between rfl

/-- A node in front of others, which know the type that it makes. -/
theorem Disciplined.cons {node : Node} (h : DisciplinedAt known [] node)
    (hothers : Disciplined (known ++ aggregateNames [node]) nodes) :
    Disciplined known (node :: nodes) := by
  have hfirst : Disciplined known [node] := by
    intro before other after hsplit
    cases before with
    | nil =>
      cases hsplit
      exact h
    | cons first before => cases before <;> cases hsplit
  exact hfirst.append hothers

/-- A node that makes no type, in front of others. -/
theorem Disciplined.consPlain {node : Node} (h : DisciplinedAt known [] node)
    (hmakes : node.aggregateName? = none) (hothers : Disciplined known nodes) :
    Disciplined known (node :: nodes) := by
  have hnames : aggregateNames [node] = [] := by
    rw [aggregateNames, List.filterMap_cons_none hmakes]
    rfl
  refine .cons h ?_
  rwa [hnames, List.append_nil]

/-- Parts that make no types, one behind the other. -/
theorem disciplined_flatMap {α : Type} {walk : α → List Node} {list : List α}
    (hwalk : ∀ a ∈ list, Disciplined known (walk a) ∧ aggregateNames (walk a) = []) :
    Disciplined known (list.flatMap walk) := by
  induction list with
  | nil => exact disciplined_nil
  | cons a list ih =>
    obtain ⟨⟨hfirst, hnames⟩, hothers⟩ := List.forall_mem_cons.1 hwalk
    refine hfirst.append ?_
    rw [hnames, List.append_nil]
    exact ih hothers

/-! ## Nodes of one item -/

theorem disciplinedAt_typeRef {type : TypeRef} (h : type.name.text ∈ known) :
    DisciplinedAt known [] (.typeRef type) := by
  refine ⟨fun _ htype => .inr ?_, nofun⟩
  cases htype
  exact List.mem_append_left _ h

/-- A node that is no type refers to nothing. -/
theorem disciplinedAt_declared {node : Node} {name : Name} (hnode : node.declared? = some name)
    (hname : name.text ∉ known) : DisciplinedAt known [] node := by
  constructor
  · rintro type rfl
    cases hnode
  · intro other hother
    cases hnode.symm.trans hother
    simpa [aggregateNames] using hname

/-- A node that neither refers to a type nor declares a name that could be one. -/
theorem disciplinedAt_plain {node : Node} (htype : ∀ type, node ≠ .typeRef type)
    (hname : node.declared? = none) : DisciplinedAt known [] node :=
  ⟨fun type h => absurd h (htype type), fun _ h => nomatch hname.symm.trans h⟩

theorem disciplined_variableParts {v : Variable} (h : v.type.name.text ∈ known) :
    Disciplined known v.parts := by
  refine .consPlain (disciplinedAt_typeRef h) rfl ?_
  cases v.initial with
  | none => exact disciplined_nil
  | some run => exact .consPlain (disciplinedAt_plain nofun rfl) rfl disciplined_nil

theorem disciplined_variable {v : Variable} (h : v.WellScoped known) :
    Disciplined known (v.walk fun _ => true) :=
  .consPlain (disciplinedAt_declared rfl h.2) rfl (disciplined_variableParts h.1)

/-- A node that declares a signature, in front of the parts of it. -/
theorem disciplined_signature {f : Signature} {node : Node} (hnode : node.declared? = some f.name)
    (hmakes : node.aggregateName? = none) (h : f.WellScoped known) :
    Disciplined known (node :: f.parts fun _ => true) := by
  obtain ⟨hreturns, hname, hparameters⟩ := h
  refine .consPlain (disciplinedAt_declared hnode hname) hmakes ?_
  refine .consPlain (disciplinedAt_typeRef hreturns) rfl ?_
  exact disciplined_flatMap fun v hv =>
    ⟨disciplined_variable (hparameters v hv), aggregateNames_variable v⟩

theorem disciplined_member {m : Member} (h : m.WellScoped known) :
    Disciplined known (m.walk fun _ => true) := by
  cases m with
  | field f => exact .consPlain (disciplinedAt_declared rfl h.2) rfl (disciplined_variableParts h.1)
  | functionPointer f => exact disciplined_signature rfl rfl h

theorem disciplined_members {members : List Member} (h : ∀ m ∈ members, m.WellScoped known) :
    Disciplined known (members.flatMap (Member.walk fun _ => true)) :=
  disciplined_flatMap fun m hm => ⟨disciplined_member (h m hm), aggregateNames_member m⟩

theorem disciplined_struct {d : Struct} (h : d.WellScoped known) :
    Disciplined known (d.walk fun _ => true) := by
  refine .cons (disciplinedAt_plain nofun rfl) ?_
  show Disciplined (known ++ [d.name.text]) _
  cases hmembers : d.members with
  | none => exact disciplined_nil
  | some members => exact disciplined_members (h members hmembers)

/-- The traits of a class are free. -/
theorem disciplined_traits {d : Class} {body : ClassBody} (hbody : d.body = some body) :
    Disciplined known (.classDecl d :: body.traits.map .typeRef) := by
  intro before node after hsplit
  cases before with
  | nil =>
    cases hsplit
    exact disciplinedAt_plain nofun rfl
  | cons first before =>
    obtain ⟨rfl, htraits⟩ := List.cons.inj hsplit
    obtain ⟨earlier, others, hsplit', rfl, hothers⟩ := List.map_eq_append_iff.1 htraits
    obtain ⟨trait, later, rfl, rfl, -⟩ := List.map_eq_cons_iff.1 hothers
    refine ⟨fun type htype => .inl ?_, nofun⟩
    cases htype
    exact ⟨[], d, body, earlier, later, rfl, hbody, hsplit'⟩

theorem disciplined_class {d : Class} (h : d.WellScoped known) :
    Disciplined known (d.walk fun _ => true) := by
  obtain ⟨name, body⟩ := d
  cases body with
  | none => exact .cons (disciplinedAt_plain nofun rfl) disciplined_nil
  | some body =>
    obtain ⟨hmembers, hmethods⟩ := h body rfl
    have hnames : aggregateNames (.classDecl ⟨name, some body⟩ :: body.traits.map .typeRef) =
        [name.text] := congrArg (name.text :: ·) (aggregateNames_traits body.traits)
    -- everything behind the traits knows the name of the class
    have hbehind : Disciplined (known ++ [name.text])
        (body.members.flatMap (Member.walk fun _ => true) ++ body.methods.flatMap fun method =>
          Node.above (fun _ => true) (.functionDecl method) (method.parts fun _ => true)) := by
      refine (disciplined_members hmembers).append ?_
      rw [aggregateNames_members, List.append_nil]
      exact disciplined_flatMap fun method hmethod =>
        ⟨disciplined_signature rfl rfl (hmethods method hmethod), aggregateNames_signature method⟩
    have htraits : Disciplined known
        (.classDecl ⟨name, some body⟩ :: body.traits.map .typeRef) := disciplined_traits rfl
    have hall := htraits.append (hnames ▸ hbehind)
    rwa [List.cons_append, ← List.append_assoc] at hall

/-! ## Whole trees -/

mutual

theorem disciplined_item {known : List String} :
    (item : Item) → item.WellScoped known → Disciplined known (item.walk fun _ => true)
  | .raw run, _ => by
    rw [Item.walk]
    exact .consPlain (disciplinedAt_plain nofun rfl) rfl disciplined_nil
  | .variableDecl v, h => by
    rw [Item.WellScoped] at h
    rw [Item.walk]
    exact disciplined_variable h
  | .functionDecl f, h => by
    rw [Item.WellScoped] at h
    rw [Item.walk]
    exact disciplined_signature rfl rfl h
  | .structDecl d, h => by
    rw [Item.WellScoped] at h
    rw [Item.walk]
    exact disciplined_struct h
  | .classDecl d, h => by
    rw [Item.WellScoped] at h
    rw [Item.walk]
    exact disciplined_class h
  | .namespaceDecl name children, h => by
    rw [Item.WellScoped] at h
    rw [Item.walk]
    exact .consPlain (disciplinedAt_plain nofun rfl) rfl (disciplined_items children h)

/-- Each item knows the types that those in front of it make. -/
theorem disciplined_items {known : List String} :
    (items : List Item) → ItemsWellScoped known items →
      Disciplined known (walkItems (fun _ => true) items)
  | [], _ => by
    rw [walkItems]
    exact disciplined_nil
  | item :: items, h => by
    rw [ItemsWellScoped] at h
    rw [walkItems]
    exact (disciplined_item item h.1).append (disciplined_items items h.2)

end

/-- In the tree of a parse, whatever the built-in types are, each type that is
    referred to is built in or that of a struct or class in front, unless it is
    the trait of a class; and no name is declared that is built in or that of a
    struct or class in front. -/
theorem disciplined_of_parse {builtins lines : List String} {tokens : List Token} {stop : Location}
    {tree : Scope} (h : (parse builtins lines tokens stop).result = .ok tree)
    {before after : List Node} {node : Node} (hnode : tree.nodes = before ++ node :: after) :
    (∀ type, node = .typeRef type → IsTrait before type ∨ type.name.text ∈ builtins ∨
      type.name.text ∈ aggregateNames before) ∧
    ∀ name, node.declared? = some name → name.text ∉ builtins ∧
      name.text ∉ aggregateNames before := by
  obtain ⟨s, ⟨-, hscope, -⟩, -, -, -⟩ := itemsRead_of_parse h
  have hitems : ItemsWellScoped builtins tree.children := by
    rwa [TypeNames.visible_ofBuiltins] at hscope
  have hall : Disciplined builtins tree.nodes :=
    .consPlain (disciplinedAt_plain nofun rfl) rfl (disciplined_items _ hitems)
  obtain ⟨hrefers, hdeclares⟩ := hall before node after hnode
  exact ⟨fun type htype => (hrefers type htype).imp_right List.mem_append.1,
    fun name hname => not_or.1 (mt List.mem_append.2 (hdeclares name hname))⟩

/-- A class whose field points to another of it, with a trait that is no type:

        class list : shape { list * next; }; -/
def linkedClass : List Token :=
  [Lexeme.identifier "class", .identifier "list", .operator ":", .identifier "shape",
    .operator openBrace, .identifier "list", .operator "*", .identifier "next", .operator ";",
    .operator closeBrace, .operator ";"].map (Token.mk · default)

/-- The type of the field is that of the class around it. -/
theorem disciplined_of_parse_linkedClass :
    ∃ tree before type, (parse [] [] linkedClass default).result = .ok tree ∧
      tree.nodes = before ++ [.typeRef type] ∧ type.name.text = "list" ∧
      (IsTrait before type ∨ type.name.text ∈ ([] : List String) ∨
        type.name.text ∈ aggregateNames before) := by
  obtain ⟨tree, hparse, hnodes⟩ : ∃ tree, (parse [] [] linkedClass default).result = .ok tree ∧
      tree.nodes = tree.nodes.take 4 ++ [.typeRef ⟨⟨"list", default⟩, 1, none⟩] := ⟨_, rfl, rfl⟩
  exact ⟨tree, _, _, hparse, hnodes, rfl, (disciplined_of_parse hparse hnodes).1 _ rfl⟩

end Flattener
