import Flattener.Flattening.Layout
import Flattener.Flattening.Passage
import Flattener.Tree.Walk

/-!
# Flattened declarations

A tree is written as declarations without namespaces and classes. A class
becomes a struct with its data members, under a comment that names its traits,
and its methods become functions behind it, named as if the class were a
namespace. Only what a namespace holds itself has a flattened name; members and
parameters keep their own.
-/

namespace Flattener

namespace Naming

/-- The `;` of a declaration, at the end of its line. -/
def terminator : List Directive :=
  [.write ";" .operator, .newline]

/-- The name of a type at a reference to it. -/
def typeName (n : Naming) (path : Path) (t : TypeRef) : Directive :=
  .write (n.resolved path t.name.text)
    (if t.name.text ∈ n.builtins then .keyword else .identifier)

/-- A type and its stars, up to the name that it is the type of. -/
def typeLead (n : Naming) (path : Path) (t : TypeRef) : List Directive :=
  n.typeName path t :: .write " " .plain ::
    if t.pointers = 0 then []
    else [.write (String.ofList (List.replicate t.pointers '*')) .operator]

/-- The size of an array in brackets, behind what is declared. -/
def arraySuffix (t : TypeRef) : List Directive :=
  match t.arraySize with
  | some size => [.write "[" .operator, .write (toString size) .number, .write "]" .operator]
  | none => []

/-- What a variable is set to, behind an equality sign. -/
def initialSuffix (n : Naming) (v : Variable) : List Directive :=
  match v.initial with
  | some run =>
    .write " " .plain :: .write "=" .operator :: .write " " .plain :: n.initializer run
  | none => []

/-- A variable under the name by which it is written. -/
def variableAs (n : Naming) (path : Path) (name : String) (v : Variable) : List Directive :=
  n.typeLead path v.type ++ .write name .identifier :: arraySuffix v.type ++ n.initialSuffix v

/-- A variable that a namespace holds. -/
def variableDecl (n : Naming) (path : Path) (v : Variable) : List Directive :=
  n.variableAs path (n.qualified path v.name.text) v ++ terminator

/-- Parameters in parentheses; none are written as `void`. -/
def parameters (n : Naming) (path : Path) (list : List Variable) : List Directive :=
  let inside := match list with
    | [] => [.write "void" .keyword]
    | first :: others =>
      n.variableAs path first.name.text first ++ others.flatMap fun v =>
        .write "," .operator :: .write " " .plain :: n.variableAs path v.name.text v
  .write "(" .operator :: inside ++ [.write ")" .operator]

/-- A function that a namespace holds, or a class in the place of one. -/
def functionDecl (n : Naming) (path : Path) (s : Signature) : List Directive :=
  n.typeLead path s.returns ++
    .write (n.qualified path s.name.text) .identifier :: n.parameters path s.parameters ++
    terminator

/-- A function pointer, whose name is not qualified. -/
def functionPointer (n : Naming) (path : Path) (s : Signature) : List Directive :=
  n.typeLead path s.returns ++
    [.write "(*" .operator, .write s.name.text .identifier, .write ")" .operator] ++
    n.parameters path s.parameters ++ terminator

/-- A field, whose name is not qualified. -/
def fieldDecl (n : Naming) (path : Path) (f : Field) : List Directive :=
  n.variableAs path f.declared.name.text f.declared ++ terminator

/-- A member, on a line of its own. -/
def member (n : Naming) (path : Path) : Member → List Directive
  | .field declared => n.fieldDecl path declared
  | .functionPointer declared => n.functionPointer path declared

/-- The keyword and the name of a struct. -/
def structLead (n : Naming) (path : Path) (name : Name) : List Directive :=
  [.write "struct" .keyword, .write " " .plain, .write (n.qualified path name.text) .identifier]

/-- A struct around what it holds. -/
def structAround (n : Naming) (path : Path) (name : Name) (inside : List Directive) :
    List Directive :=
  n.structLead path name ++
    [.write " " .plain, .write openBrace .operator, .newline, .indent] ++ inside ++
    [.dedent, .write (closeBrace ++ ";") .operator, .newline]

/-- A struct with its members, or a forward declaration of it. -/
def structDecl (n : Naming) (path : Path) (s : Struct) : List Directive :=
  match s.members with
  | none => n.structLead path s.name ++ terminator
  | some members => n.structAround path s.name (members.flatMap (n.member path))

/-- The comment that names the traits of a class, if it has any. -/
def traitComment (n : Naming) (path : Path) (traits : List TypeRef) : List Directive :=
  if traits.isEmpty then []
  else
    let names := traits.map fun trait => n.resolved path trait.name.text
    [.write ("// traits: " ++ ", ".intercalate names) .comment, .newline]

/-- A class as a struct, and its methods behind it as in a namespace of its name. -/
def classDecl (n : Naming) (path : Path) (c : Class) : List Passage :=
  match c.body with
  | none => [⟨path, n.structLead path c.name ++ terminator⟩]
  | some body =>
    let members := n.traitComment path body.traits ++ body.members.flatMap (n.member path)
    let inner := path ++ [c.name.text]
    [⟨path, n.structAround path c.name members⟩,
      ⟨inner, body.methods.flatMap (n.functionDecl inner)⟩]

mutual

/-- An item of a namespace. -/
def item (n : Naming) (path : Path) : Item → List Passage
  | .raw run => [⟨path, n.rawRun run⟩]
  | .variableDecl declared => [⟨path, n.variableDecl path declared⟩]
  | .functionDecl declared => [⟨path, n.functionDecl path declared⟩]
  | .structDecl declared => [⟨path, n.structDecl path declared⟩]
  | .classDecl declared => n.classDecl path declared
  | .namespaceDecl name children => n.items (path ++ [name.text]) children

/-- The items of a namespace, in order. -/
def items (n : Naming) (path : Path) : List Item → List Passage
  | [] => []
  | first :: others => n.item path first ++ n.items path others

end

/-- A node of any kind, as it is written under a path. -/
def node (n : Naming) (path : Path) : Node → List Passage
  | .scope whole => n.items path whole.children
  | .rawRun run => [⟨path, n.rawRun run⟩]
  | .typeRef type => [⟨path, [n.typeName path type]⟩]
  | .variableDecl declared => [⟨path, n.variableDecl path declared⟩]
  | .fieldDecl declared => [⟨path, n.fieldDecl path declared⟩]
  | .functionPointer declared => [⟨path, n.functionPointer path declared⟩]
  | .functionDecl declared => [⟨path, n.functionDecl path declared⟩]
  | .structDecl declared => [⟨path, n.structDecl path declared⟩]
  | .classDecl declared => n.classDecl path declared
  | .namespaceDecl name children => n.items (path ++ [name.text]) children

end Naming

/-- The text of a tree, flattened. -/
def Scope.render (s : Scope) (settings : PageSettings) (separator : String)
    (builtins : List String) : Except Fault String :=
  let naming : Naming := ⟨separator, builtins, typePathsOf [] s.children⟩
  match (Page.empty settings).attemptPassages (naming.items [] s.children) with
  | (.ok (), page) => .ok page.text
  | (.error (_, fault), _) => .error fault

end Flattener
