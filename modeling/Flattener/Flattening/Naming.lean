import Flattener.Tree

/-!
# Flattened names

Namespaces do not survive: a declaration is named by the path of the namespaces
around it and its own name, joined by a separator. A type is referred to by the
flattened name of the innermost declaration that its plain name can mean: the
namespaces around the reference are searched from the inside out.
-/

namespace Flattener

/-- The names of namespaces, from the outermost one in. -/
abbrev Path := List String

mutual

/-- The paths of the structs and classes of an item, each with its own name at
    the end. -/
def Item.typePaths (path : Path) : Item → List Path
  | .structDecl declared => [path ++ [declared.name.text]]
  | .classDecl declared => [path ++ [declared.name.text]]
  | .namespaceDecl name children => typePathsOf (path ++ [name.text]) children
  | _ => []

/-- The paths of all structs and classes of items under a path. -/
def typePathsOf (path : Path) : List Item → List Path
  | [] => []
  | item :: items => item.typePaths path ++ typePathsOf path items

end

/-- How names are flattened. -/
structure Naming where
  /-- What joins the names of a path. -/
  separator : String
  /-- The names that are shown as keywords. -/
  builtins : List String
  /-- The paths of the structs and classes that a reference can mean. -/
  declared : List Path
  deriving DecidableEq, Repr

namespace Naming

/-- The name of a declaration under a path. -/
def qualified (n : Naming) (path : Path) (name : String) : String :=
  n.separator.intercalate (path ++ [name])

/-- The paths around a place, the innermost first. -/
def enclosing (path : Path) : List Path :=
  (List.range (path.length + 1)).reverse.map path.take

/-- The name of the type that a plain name under a path means. A name that
    means no declared type stays as it is. -/
def resolved (n : Naming) (path : Path) (name : String) : String :=
  match (enclosing path).find? fun outer => n.declared.contains (outer ++ [name]) with
  | some outer => n.qualified outer name
  | none => name

end Naming

end Flattener
