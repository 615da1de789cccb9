/-!
# Paths of files

A path is written in many ways. Its plain form has no empty parts and no `.`,
except for a path of nothing else, and keeps every `..`. One slash in front, or
exactly two, belong to the root and stay.
-/

namespace Flattener

/-- What stands between the slashes of a path. -/
def pathParts (path : String) : List String :=
  path.splitOn "/"

/-- The slashes that a path begins with, as far as they name a root. -/
def pathRoot (path : String) : String :=
  match path.toList with
  | '/' :: '/' :: '/' :: _ => "/"
  | '/' :: '/' :: _ => "//"
  | '/' :: _ => "/"
  | _ => ""

/-- A path can be asked for: it has no null character. -/
def isNamable (path : String) : Bool :=
  !path.toList.contains '\x00'

/-- The plain form of a path. -/
def plainPath (path : String) : String :=
  let parts := (pathParts path).filter fun part => part ≠ "" ∧ part ≠ "."
  if pathRoot path = "" ∧ parts.isEmpty then "."
  else pathRoot path ++ "/".intercalate parts

end Flattener
