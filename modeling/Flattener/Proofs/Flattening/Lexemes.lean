import Flattener.Flattening.Declaration

/-!
# What a flattened text is read as

The lexemes that a tree stands for once it is flattened (`Scope.lexemes`), without
regard to how they are laid out: names are qualified or resolved, methods follow
their class, and traits, access levels and namespaces are gone.
-/

namespace Flattener

/-- The lexemes of a raw run are those that it was read of. -/
def RawRun.lexemes (r : RawRun) : List Lexeme :=
  r.tokens.map (·.lexeme)

/-- The size of an array in brackets. -/
def sizeLexemes : Option Nat → List Lexeme
  | some size => [.operator "[", .integer (toString size) size, .operator "]"]
  | none => []

/-- What a variable is set to, as it was read. -/
def initialLexemes : Option RawRun → List Lexeme
  | some run => .operator "=" :: run.lexemes
  | none => []

namespace Naming

/-- The type that a reference means, and its stars. -/
def typeLexemes (n : Naming) (path : Path) (t : TypeRef) : List Lexeme :=
  .identifier (n.resolved path t.name.text) :: List.replicate t.pointers (.operator "*")

/-- The lexemes of a variable that is called by a name. -/
def variableLexemes (n : Naming) (path : Path) (name : String) (v : Variable) : List Lexeme :=
  n.typeLexemes path v.type ++ .identifier name :: sizeLexemes v.type.arraySize ++
    initialLexemes v.initial

/-- Parameters in parentheses, with commas between them or as `void`. -/
def parameterLexemes (n : Naming) (path : Path) (list : List Variable) : List Lexeme :=
  let inside := match list with
    | [] => [.identifier "void"]
    | _ => [Lexeme.operator ","].intercalate
      (list.map fun v => n.variableLexemes path v.name.text v)
  .operator "(" :: inside ++ [.operator ")"]

/-- The prototype of a function, under its qualified name. -/
def prototypeLexemes (n : Naming) (path : Path) (s : Signature) : List Lexeme :=
  n.typeLexemes path s.returns ++
    .identifier (n.qualified path s.name.text) :: n.parameterLexemes path s.parameters ++
    [.operator ";"]

/-- The lexemes of a function pointer. -/
def pointerLexemes (n : Naming) (path : Path) (s : Signature) : List Lexeme :=
  n.typeLexemes path s.returns ++
    [.operator "(", .operator "*", .identifier s.name.text, .operator ")"] ++
    n.parameterLexemes path s.parameters ++ [.operator ";"]

/-- The lexemes of a member. -/
def memberLexemes (n : Naming) (path : Path) : Member → List Lexeme
  | .field f => n.variableLexemes path f.declared.name.text f.declared ++ [.operator ";"]
  | .functionPointer s => n.pointerLexemes path s

/-- A struct or class that is only declared. -/
def forwardLexemes (n : Naming) (path : Path) (name : Name) : List Lexeme :=
  [.identifier "struct", .identifier (n.qualified path name.text), .operator ";"]

/-- A struct with its members. -/
def bodyLexemes (n : Naming) (path : Path) (name : Name) (members : List Member) : List Lexeme :=
  [.identifier "struct", .identifier (n.qualified path name.text), .operator openBrace] ++
    members.flatMap (n.memberLexemes path) ++ [.operator closeBrace, .operator ";"]

/-- The lexemes of a struct, or of a forward declaration of it. -/
def structLexemes (n : Naming) (path : Path) (s : Struct) : List Lexeme :=
  match s.members with
  | none => n.forwardLexemes path s.name
  | some members => n.bodyLexemes path s.name members

/-- A class as a struct, with its methods behind it under the name of the class. -/
def classLexemes (n : Naming) (path : Path) (c : Class) : List Lexeme :=
  match c.body with
  | none => n.forwardLexemes path c.name
  | some body =>
    n.bodyLexemes path c.name body.members ++
      body.methods.flatMap (n.prototypeLexemes (path ++ [c.name.text]))

mutual

/-- The lexemes of an item under a path. -/
def itemLexemes (n : Naming) (path : Path) : Item → List Lexeme
  | .raw run => run.lexemes
  | .variableDecl v => n.variableLexemes path (n.qualified path v.name.text) v ++ [.operator ";"]
  | .functionDecl s => n.prototypeLexemes path s
  | .structDecl s => n.structLexemes path s
  | .classDecl c => n.classLexemes path c
  | .namespaceDecl name children => n.itemsLexemes (path ++ [name.text]) children

/-- The lexemes of items, one after the other. -/
def itemsLexemes (n : Naming) (path : Path) : List Item → List Lexeme
  | [] => []
  | item :: items => n.itemLexemes path item ++ n.itemsLexemes path items

end

end Naming

/-- The lexemes that a tree stands for once it is flattened. -/
def Scope.lexemes (s : Scope) (separator : String) (builtins : List String) : List Lexeme :=
  (Naming.mk separator builtins (typePathsOf [] s.children)).itemsLexemes [] s.children

end Flattener
