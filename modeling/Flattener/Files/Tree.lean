import Flattener.Files.Path
import Flattener.Files.System

/-!
# Trees of files

A `FileTree` is a directory and everything in it. Paths start at that directory.
A path may leave the tree upwards, to directories of which nothing is known but
that they are there.
-/

namespace Flattener

/-- What a place of a tree holds. -/
inductive FileEntry
  | directory
  | file (bytes : List UInt8)
  deriving DecidableEq, Repr

/-- A directory, as the entries below it under the names that lead to them. A
    directory that has entries need not be one itself. -/
structure FileTree where
  entries : List (List String × FileEntry)
  deriving DecidableEq, Repr

/-- Where a path leads. -/
inductive Place
  /-- To the names below the root of the tree. -/
  | inside (names : List String)
  /-- To a directory around the tree. -/
  | outside
  /-- To something around the tree of which nothing is known. -/
  | nowhere
  deriving DecidableEq, Repr

namespace Place

/-- The place above a directory. -/
def parent : Place → Place
  | .inside names => if names.isEmpty then .outside else .inside names.dropLast
  | place => place

/-- The place of a name in a directory. -/
def child (place : Place) (name : String) : Place :=
  match place with
  | .inside names => .inside (names ++ [name])
  | _ => .nowhere

/-- The place of a part of a path in a directory. -/
def step (place : Place) (part : String) : Place :=
  if part = "" ∨ part = "." then place
  else if part = ".." then place.parent
  else place.child part

end Place

namespace FileTree

/-- What is at names below the root. -/
def entry? (t : FileTree) (names : List String) : Option FileEntry :=
  match t.entries.lookup names with
  | some entry => some entry
  | none =>
    if names.isEmpty || t.entries.any fun entry => names.isPrefixOf entry.1 then
      some .directory
    else none

/-- What is at a place. -/
def at? (t : FileTree) : Place → Option FileEntry
  | .inside names => t.entry? names
  | .outside => some .directory
  | .nowhere => none

/-- The most bytes that a name has. -/
def nameLimit : Nat :=
  255

/-- The most bytes that a path has. -/
def pathLimit : Nat :=
  4095

/-- The place to which the parts of a path lead. Every part but the last has
    to lead to a directory, and none is longer than a name can be. -/
def follow (t : FileTree) (path : String) : Place → List String → Except SystemError Place
  | place, [] => .ok place
  | place, part :: parts =>
    match t.at? place with
    | some .directory =>
      if nameLimit < part.utf8ByteSize then .error (.nameTooLong path)
      else t.follow path (place.step part) parts
    | some (.file _) => .error (.notDirectory path)
    | none => .error (.noEntry path)

/-- The place to which a path leads, from the root of the tree if it has no
    root of its own. The empty path leads nowhere. -/
def find (t : FileTree) (path : String) : Except SystemError Place :=
  if path = "" then .error (.noEntry path)
  else if pathLimit < path.utf8ByteSize then .error (.nameTooLong path)
  else t.follow path (if pathRoot path = "" then .inside [] else .outside) (pathParts path)

/-- The tree with a file at names below its root. -/
def put (t : FileTree) (names : List String) (bytes : List UInt8) : FileTree :=
  ⟨(names, .file bytes) :: t.entries.filter fun entry => entry.1 ≠ names⟩

/-- What is at a path. -/
def kindOf (t : FileTree) (path : String) : Except SystemError FileKind := do
  match t.at? (← t.find path) with
  | some .directory => return .directory
  | some (.file _) => return .file
  | none => throw (.noEntry path)

/-- The bytes of the file at a path. -/
def read (t : FileTree) (path : String) : Except SystemError (List UInt8) := do
  match t.at? (← t.find path) with
  | some (.file bytes) => return bytes
  | some .directory => throw (.isDirectory path)
  | none => throw (.noEntry path)

/-- The tree with these bytes in the file at a path, which is made if it does not
    exist. -/
def write (t : FileTree) (path : String) (bytes : List UInt8) : Except SystemError FileTree := do
  let place ← t.find path
  match t.at? place, place with
  | some .directory, _ => throw (.isDirectory path)
  | _, .inside names => return t.put names bytes
  | _, _ => throw (.noEntry path)

/-- A tree as the file system of a program that changes it. -/
def system : FileSystem (StateM FileTree) where
  kindOf path := do return (← get).kindOf path
  read path := do return (← get).read path
  write path bytes := do
    match (← get).write path bytes with
    | .ok tree =>
      set tree
      return .ok ()
    | .error error => return .error error

end FileTree

end Flattener
