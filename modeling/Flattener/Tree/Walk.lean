import Flattener.Tree

/-!
# Walking a tree

The nodes of a tree are its items, their parts and the tree itself. `walk` lists
them in preorder, each before its parts and the parts in the order in which
they are declared; a node that is not entered is listed without its parts.
-/

namespace Flattener

/-- The kinds of nodes. -/
inductive NodeKind
  | scope
  | rawRun
  | typeRef
  | variableDecl
  | fieldDecl
  | functionPointer
  | functionDecl
  | structDecl
  | classDecl
  | namespaceDecl
  deriving DecidableEq, Repr

/-- A node of any kind. -/
inductive Node
  | scope (whole : Scope)
  | rawRun (run : RawRun)
  | typeRef (type : TypeRef)
  | variableDecl (declared : Variable)
  | fieldDecl (declared : Field)
  | functionPointer (declared : Signature)
  | functionDecl (declared : Signature)
  | structDecl (declared : Struct)
  | classDecl (declared : Class)
  | namespaceDecl (name : Name) (children : List Item)

namespace Node

/-- The kind of a node. -/
def kind : Node → NodeKind
  | .scope _ => .scope
  | .rawRun _ => .rawRun
  | .typeRef _ => .typeRef
  | .variableDecl _ => .variableDecl
  | .fieldDecl _ => .fieldDecl
  | .functionPointer _ => .functionPointer
  | .functionDecl _ => .functionDecl
  | .structDecl _ => .structDecl
  | .classDecl _ => .classDecl
  | .namespaceDecl _ _ => .namespaceDecl

/-- Where a node is anchored: a declaration at the name that it declares, and
    everything else at its first token. -/
def location : Node → Location
  | .scope whole => whole.start
  | .rawRun run => run.first.location
  | .typeRef type => type.name.location
  | .variableDecl declared => declared.name.location
  | .fieldDecl declared => declared.declared.name.location
  | .functionPointer declared => declared.name.location
  | .functionDecl declared => declared.name.location
  | .structDecl declared => declared.name.location
  | .classDecl declared => declared.name.location
  | .namespaceDecl name _ => name.location

/-- A node in front of its parts, which are left out unless it is entered. -/
def above (enter : NodeKind → Bool) (node : Node) (parts : List Node) : List Node :=
  node :: if enter node.kind then parts else []

end Node

section

variable (enter : NodeKind → Bool)

/-- The parts of a variable: its type, and what it is set to. -/
def Variable.parts (v : Variable) : List Node :=
  .typeRef v.type :: v.initial.toList.map .rawRun

/-- A variable and its parts. -/
def Variable.walk (v : Variable) : List Node :=
  Node.above enter (.variableDecl v) v.parts

/-- A field and the parts of what it declares. -/
def Field.walk (f : Field) : List Node :=
  Node.above enter (.fieldDecl f) f.declared.parts

/-- The parts of a signature: the type returned, and the parameters. -/
def Signature.parts (s : Signature) : List Node :=
  .typeRef s.returns :: s.parameters.flatMap (Variable.walk enter)

/-- A member and its parts. -/
def Member.walk : Member → List Node
  | .field declared => declared.walk enter
  | .functionPointer declared =>
    Node.above enter (.functionPointer declared) (declared.parts enter)

/-- A struct and its members. -/
def Struct.walk (s : Struct) : List Node :=
  Node.above enter (.structDecl s) ((s.members.getD []).flatMap (Member.walk enter))

/-- The parts of a class: its traits, its data members, its methods. -/
def ClassBody.parts (b : ClassBody) : List Node :=
  b.traits.map .typeRef ++ b.members.flatMap (Member.walk enter) ++
    b.methods.flatMap fun method =>
      Node.above enter (.functionDecl method) (method.parts enter)

/-- A class and the parts of its body. -/
def Class.walk (c : Class) : List Node :=
  Node.above enter (.classDecl c) ((c.body.map (ClassBody.parts enter)).getD [])

mutual

/-- An item and everything in it, in preorder. -/
def Item.walk : Item → List Node
  | .raw run => [.rawRun run]
  | .variableDecl declared => declared.walk enter
  | .functionDecl declared =>
    Node.above enter (.functionDecl declared) (declared.parts enter)
  | .structDecl declared => declared.walk enter
  | .classDecl declared => declared.walk enter
  | .namespaceDecl name children =>
    Node.above enter (.namespaceDecl name children) (walkItems children)

/-- Items and everything in them, in preorder. -/
def walkItems : List Item → List Node
  | [] => []
  | item :: items => item.walk ++ walkItems items

end

/-- A tree and everything in it, in preorder. -/
def Scope.walk (s : Scope) : List Node :=
  Node.above enter (.scope s) (walkItems enter s.children)

end

/-- Every node of a tree. -/
def Scope.nodes (s : Scope) : List Node :=
  s.walk fun _ => true

end Flattener
