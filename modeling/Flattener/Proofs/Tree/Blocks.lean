import Flattener.Flattening.Naming

/-!
# Blocks of a tree

A namespace holds its items in a *block*, and so does the tree itself, under no path
(`Block`). A namespace that is opened again has one block for each time. The types that
a reference can mean are those whose struct or class stands directly in a block
(`Declares`, `mem_typePathsOf_iff`).

A tree refers to types at places that are told by the namespaces around them, and, for
the methods of a class, by that class (`Scope.references`).
-/

namespace Flattener

/-! ## Blocks -/

/-- The items that stand directly in a namespace, under the path of that namespace. -/
inductive Block : List Item → Path → List Item → Prop
  | whole {items : List Item} : Block items [] items
  | inside {items children inner : List Item} {name : Name} {path : Path} :
    .namespaceDecl name children ∈ items → Block children path inner →
    Block items (name.text :: path) inner

/-- The name of the struct or class that an item is, with a body or without one. -/
def Item.typeName? : Item → Option String
  | .structDecl declared => some declared.name.text
  | .classDecl declared => some declared.name.text
  | _ => none

/-- A struct or class of the name stands directly in a block under the path. -/
def Declares (items : List Item) (path : Path) (name : String) : Prop :=
  ∃ children, Block items path children ∧ ∃ item ∈ children, item.typeName? = some name

section

variable {item : Item} {items : List Item} {path outer : Path} {name : String}

theorem declares_nil : Declares items [] name ↔ ∃ item ∈ items, item.typeName? = some name := by
  constructor
  · rintro ⟨children, hblock, hitem⟩
    cases hblock
    exact hitem
  · exact fun hitem => ⟨items, .whole, hitem⟩

theorem declares_cons {first : String} : Declares items (first :: path) name ↔
    ∃ (around : Name) (children : List Item), .namespaceDecl around children ∈ items ∧
      around.text = first ∧ Declares children path name := by
  constructor
  · rintro ⟨inner, hblock, hitem⟩
    cases hblock with
    | inside hmem hblock => exact ⟨_, _, hmem, rfl, inner, hblock, hitem⟩
  · rintro ⟨around, children, hmem, rfl, inner, hblock, hitem⟩
    exact ⟨inner, .inside hmem hblock, hitem⟩

/-- What items declare, the first of them or the others declare. -/
theorem declares_item_cons :
    Declares (item :: items) path name ↔ Declares [item] path name ∨ Declares items path name := by
  cases path with
  | nil => simp only [declares_nil, List.mem_cons, List.not_mem_nil, or_false, exists_eq_or_imp,
      exists_eq_left]
  | cons first path =>
    simp only [declares_cons, List.mem_cons, List.not_mem_nil, or_false, or_and_right, exists_or]

/-- An item that is no namespace declares nothing but itself. -/
theorem declares_singleton (h : ∀ around children, item ≠ .namespaceDecl around children) :
    Declares [item] path name ↔ path = [] ∧ item.typeName? = some name := by
  cases path with
  | nil => simp only [declares_nil, List.mem_singleton, exists_eq_left, true_and]
  | cons first path =>
    simp only [declares_cons, List.mem_singleton, reduceCtorEq, false_and, iff_false]
    rintro ⟨around, children, heq, -⟩
    exact h around children heq.symm

theorem declares_namespace {around : Name} {children : List Item} :
    Declares [.namespaceDecl around children] path name ↔
      ∃ inner, path = around.text :: inner ∧ Declares children inner name := by
  cases path with
  | nil => simp [declares_nil, Item.typeName?]
  | cons first path =>
    simp only [declares_cons, List.mem_singleton, Item.namespaceDecl.injEq, List.cons.injEq]
    constructor
    · rintro ⟨_, _, ⟨rfl, rfl⟩, hfirst, hinner⟩
      exact ⟨path, ⟨hfirst.symm, rfl⟩, hinner⟩
    · rintro ⟨_, ⟨rfl, rfl⟩, hinner⟩
      exact ⟨around, children, ⟨rfl, rfl⟩, rfl, hinner⟩

end

mutual

theorem mem_typePaths : ∀ (item : Item) {path found : Path}, found ∈ item.typePaths path ↔
    ∃ inner name, found = path ++ (inner ++ [name]) ∧ Declares [item] inner name
  | .raw run, path, found => by
    simp [Item.typePaths, declares_singleton, Item.typeName?]
  | .variableDecl v, path, found => by
    simp [Item.typePaths, declares_singleton, Item.typeName?]
  | .functionDecl s, path, found => by
    simp [Item.typePaths, declares_singleton, Item.typeName?]
  | .structDecl s, path, found => by
    simp [Item.typePaths, declares_singleton, Item.typeName?]
  | .classDecl c, path, found => by
    simp [Item.typePaths, declares_singleton, Item.typeName?]
  | .namespaceDecl around children, path, found => by
    rw [Item.typePaths, mem_typePathsOf_iff children]
    simp only [declares_namespace]
    constructor
    · rintro ⟨inner, name, rfl, hinner⟩
      exact ⟨around.text :: inner, name, List.append_assoc .., inner, rfl, hinner⟩
    · rintro ⟨_, name, rfl, inner, rfl, hinner⟩
      exact ⟨inner, name, List.append_cons .., hinner⟩

/-- The paths that a reference can mean are those of the structs and classes that stand
    in blocks. -/
theorem mem_typePathsOf_iff : ∀ (items : List Item) {path found : Path},
    found ∈ typePathsOf path items ↔
      ∃ inner name, found = path ++ (inner ++ [name]) ∧ Declares items inner name
  | [], path, found => by
    rw [typePathsOf]
    constructor
    · nofun
    · rintro ⟨inner, name, -, hinner⟩
      cases inner with
      | nil => simp [declares_nil] at hinner
      | cons first inner => simp [declares_cons] at hinner
  | item :: items, path, found => by
    rw [typePathsOf, List.mem_append, mem_typePaths item, mem_typePathsOf_iff items]
    simp only [← exists_or, ← and_or_left, ← declares_item_cons]

end

/-- A path that a reference can mean is that of a declaration. -/
theorem declares_iff {items : List Item} {path : Path} {name : String} :
    Declares items path name ↔ path ++ [name] ∈ typePathsOf [] items := by
  rw [mem_typePathsOf_iff items]
  constructor
  · exact fun h => ⟨path, name, rfl, h⟩
  · rintro ⟨inner, other, heq, h⟩
    rw [List.nil_append] at heq
    obtain ⟨rfl, hname⟩ := List.append_inj' heq rfl
    cases hname
    exact h

instance (items : List Item) (path : Path) (name : String) : Decidable (Declares items path name) :=
  decidable_of_iff ((typePathsOf [] items).contains (path ++ [name])) <|
    List.contains_iff_mem.trans declares_iff.symm

/-! ## References -/

/-- A place of a tree at which a type is referred to. -/
structure Reference where
  /-- The namespaces around the place, the outermost one first. -/
  around : Path
  /-- The class of the method that the place is in, if it is in one. -/
  class? : Option String
  type : TypeRef
  deriving DecidableEq, Repr

/-- The types of a signature: the type returned, and those of the parameters. -/
def Signature.types (s : Signature) : List TypeRef :=
  s.returns :: s.parameters.map (·.type)

/-- The types that a member refers to. -/
def Member.types : Member → List TypeRef
  | .field f => [f.declared.type]
  | .functionPointer s => s.types

/-- The types of a class outside of its methods. -/
def ClassBody.types (b : ClassBody) : List TypeRef :=
  b.traits ++ b.members.flatMap (·.types)

mutual

/-- The references of an item, in preorder. -/
def Item.references (around : Path) : Item → List Reference
  | .raw _ => []
  | .variableDecl v => [⟨around, none, v.type⟩]
  | .functionDecl s => s.types.map (⟨around, none, ·⟩)
  | .structDecl s => ((s.members.getD []).flatMap (·.types)).map (⟨around, none, ·⟩)
  | .classDecl c =>
    match c.body with
    | none => []
    | some body => body.types.map (⟨around, none, ·⟩) ++
      (body.methods.flatMap (·.types)).map (⟨around, some c.name.text, ·⟩)
  | .namespaceDecl name children => referencesOf (around ++ [name.text]) children

/-- The references of items, in preorder. -/
def referencesOf (around : Path) : List Item → List Reference
  | [] => []
  | item :: items => item.references around ++ referencesOf around items

end

/-- The references of a tree, in preorder. -/
def Scope.references (s : Scope) : List Reference :=
  referencesOf [] s.children

end Flattener
