import Flattener.Grammar.Aggregate
import Flattener.Tree.Walk

/-!
# Which names are types where

Every struct and class makes its name a type, for everything that follows its
name in preorder: its own insides, and what comes behind it, also outside of the
namespace that it stands in. The names that a tree makes types are those of its
struct and class nodes (`aggregateNames`), in preorder.

A tree is *well scoped* behind known types if each type that it refers to is
known at that point, and no name that it declares for a variable, a function or
a pointer to one is (`WellScoped`). The traits of a class are free.
-/

namespace Flattener

/-- The name that a node makes a type, if it is a struct or class. -/
def Node.aggregateName? : Node → Option String
  | .structDecl declared => some declared.name.text
  | .classDecl declared => some declared.name.text
  | _ => none

/-- The names of the structs and classes among nodes. -/
def aggregateNames (nodes : List Node) : List String :=
  nodes.filterMap (·.aggregateName?)

/-- The names that an item makes types, in preorder. -/
def Item.typeNames (item : Item) : List String :=
  aggregateNames (item.walk fun _ => true)

/-- The names that items make types, in preorder. -/
def itemTypeNames (items : List Item) : List String :=
  aggregateNames (walkItems (fun _ => true) items)

/-! ## The names that a tree makes types -/

theorem aggregateNames_append (first second : List Node) :
    aggregateNames (first ++ second) = aggregateNames first ++ aggregateNames second :=
  List.filterMap_append

theorem aggregateNames_variable (v : Variable) :
    aggregateNames (v.walk fun _ => true) = [] := by
  unfold Variable.walk Node.above Variable.parts aggregateNames
  cases v.initial <;> rfl

/-- The parts of a signature are types and variables. -/
theorem aggregateNames_signature (s : Signature) :
    aggregateNames (s.parts fun _ => true) = [] := by
  have hparameters : aggregateNames (s.parameters.flatMap (Variable.walk fun _ => true)) = [] := by
    induction s.parameters with
    | nil => rfl
    | cons v others ih =>
      rw [List.flatMap_cons, aggregateNames_append, aggregateNames_variable, ih, List.append_nil]
  exact hparameters

theorem aggregateNames_member (m : Member) :
    aggregateNames (m.walk fun _ => true) = [] := by
  cases m with
  | field f => exact aggregateNames_variable f.declared
  | functionPointer s => exact aggregateNames_signature s

theorem aggregateNames_members (members : List Member) :
    aggregateNames (members.flatMap (Member.walk fun _ => true)) = [] := by
  induction members with
  | nil => rfl
  | cons m others ih =>
    rw [List.flatMap_cons, aggregateNames_append, aggregateNames_member, ih, List.append_nil]

theorem aggregateNames_traits (traits : List TypeRef) :
    aggregateNames (traits.map .typeRef) = [] := by
  simp [aggregateNames, List.filterMap_map, Node.aggregateName?]

theorem aggregateNames_methods (methods : List Signature) :
    aggregateNames (methods.flatMap fun method =>
      Node.above (fun _ => true) (.functionDecl method) (method.parts fun _ => true)) = [] := by
  induction methods with
  | nil => rfl
  | cons method others ih =>
    rw [List.flatMap_cons, aggregateNames_append, ih, List.append_nil]
    exact aggregateNames_signature method

namespace Item

theorem typeNames_raw (run : RawRun) : (raw run).typeNames = [] := by
  rw [typeNames, walk]
  rfl

theorem typeNames_variableDecl (v : Variable) : (variableDecl v).typeNames = [] := by
  rw [typeNames, walk, aggregateNames_variable]

theorem typeNames_functionDecl (s : Signature) : (functionDecl s).typeNames = [] := by
  rw [typeNames, walk]
  exact aggregateNames_signature s

theorem typeNames_structDecl (s : Struct) : (structDecl s).typeNames = [s.name.text] := by
  rw [typeNames, walk]
  exact congrArg (s.name.text :: ·) (aggregateNames_members _)

theorem typeNames_classDecl (d : Class) : (classDecl d).typeNames = [d.name.text] := by
  rw [typeNames, walk]
  refine congrArg (d.name.text :: ·) ?_
  cases d.body with
  | none => rfl
  | some body =>
    show aggregateNames (body.parts fun _ => true) = []
    rw [ClassBody.parts, aggregateNames_append, aggregateNames_append, aggregateNames_traits,
      aggregateNames_members, aggregateNames_methods]
    rfl

theorem typeNames_namespaceDecl (name : Name) (children : List Item) :
    (namespaceDecl name children).typeNames = itemTypeNames children := by
  rw [typeNames, walk]
  rfl

end Item

theorem itemTypeNames_nil : itemTypeNames [] = [] := by
  rw [itemTypeNames, walkItems]
  rfl

theorem itemTypeNames_cons (item : Item) (items : List Item) :
    itemTypeNames (item :: items) = item.typeNames ++ itemTypeNames items := by
  rw [itemTypeNames, walkItems, aggregateNames_append]
  rfl

/-- A whole tree makes the types that its items make. -/
theorem aggregateNames_nodes (s : Scope) : aggregateNames s.nodes = itemTypeNames s.children :=
  rfl

/-! ## Well-scoped trees -/

/-- The type is known, and the name is not a type. -/
def Variable.WellScoped (known : List String) (v : Variable) : Prop :=
  v.type.name.text ∈ known ∧ v.name.text ∉ known

/-- The types of a signature are known, and none of its names is a type. -/
def Signature.WellScoped (known : List String) (s : Signature) : Prop :=
  s.returns.name.text ∈ known ∧ s.name.text ∉ known ∧ ∀ v ∈ s.parameters, v.WellScoped known

/-- All types that a declaration refers to are known. -/
def Declaration.WellScoped (known : List String) : Declaration → Prop
  | .variableDecl v => v.WellScoped known
  | .functionDecl s => s.WellScoped known

/-- All types that a member refers to are known. -/
def Member.WellScoped (known : List String) : Member → Prop
  | .field f => f.declared.WellScoped known
  | .functionPointer s => s.WellScoped known

/-- The members of a struct know its name. -/
def Struct.WellScoped (known : List String) (s : Struct) : Prop :=
  ∀ members, s.members = some members → ∀ m ∈ members, m.WellScoped (known ++ [s.name.text])

/-- The members and methods of a class know its name. -/
def Class.WellScoped (known : List String) (d : Class) : Prop :=
  ∀ body, d.body = some body → (∀ m ∈ body.members, m.WellScoped (known ++ [d.name.text])) ∧
    ∀ s ∈ body.methods, s.WellScoped (known ++ [d.name.text])

mutual

/-- An item refers to known types only, and declares no name that is one. -/
def Item.WellScoped (known : List String) : Item → Prop
  | .raw _ => True
  | .variableDecl v => v.WellScoped known
  | .functionDecl s => s.WellScoped known
  | .structDecl s => s.WellScoped known
  | .classDecl d => d.WellScoped known
  | .namespaceDecl _ children => ItemsWellScoped known children

/-- Each item knows the types that those before it make. -/
def ItemsWellScoped (known : List String) : List Item → Prop
  | [] => True
  | item :: items => item.WellScoped known ∧ ItemsWellScoped (known ++ item.typeNames) items

end

/-- A member of a class, whichever it is. -/
def ClassMember.WellScoped (known : List String) : ClassMember → Prop
  | .data m => m.WellScoped known
  | .method s => s.WellScoped known

/-- What holds of all members of a class holds of its data members and of its
    methods. -/
theorem wellScoped_members_iff {known : List String} {members : List ClassMember} :
    (∀ m ∈ members, m.WellScoped known) ↔
      (∀ m ∈ members.filterMap (·.data?), m.WellScoped known) ∧
        ∀ s ∈ members.filterMap (·.method?), s.WellScoped known := by
  induction members with
  | nil => simp
  | cons m others ih =>
    rw [List.forall_mem_cons, ih]
    cases m with
    | data m =>
      have hdata : ((ClassMember.data m :: others).filterMap (·.data?)) =
        m :: others.filterMap (·.data?) := rfl
      rw [hdata, List.forall_mem_cons, and_assoc]
      rfl
    | method s =>
      have hmethod : ((ClassMember.method s :: others).filterMap (·.method?)) =
        s :: others.filterMap (·.method?) := rfl
      rw [hmethod, List.forall_mem_cons, and_left_comm]
      rfl

end Flattener
