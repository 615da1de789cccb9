import Flattener.Text.Quoted

/-!
# File systems

What a program can ask of a file system, in any monad: the command line runs on
the files of the machine, and on a `FileTree` where its behavior is studied.
-/

namespace Flattener

/-- A request that a file system refuses, and the path of which it was made. -/
structure SystemError where
  code : Int
  reason : String
  path : Option String
  deriving DecidableEq, Repr

namespace SystemError

/-- The error as it is shown, with its number and its path, if it has one. -/
def text (e : SystemError) : String :=
  let headline := s!"[Errno {e.code}] {e.reason}"
  match e.path with
  | some path => s!"{headline}: {Text.quoted path}"
  | none => headline

/-- Nothing is at the path. -/
def noEntry (path : String) : SystemError :=
  ⟨2, "No such file or directory", some path⟩

/-- The path goes through a file. -/
def notDirectory (path : String) : SystemError :=
  ⟨20, "Not a directory", some path⟩

/-- At the path is a directory where a file has to be. -/
def isDirectory (path : String) : SystemError :=
  ⟨21, "Is a directory", some path⟩

/-- The path, or one of its names, is too long. -/
def nameTooLong (path : String) : SystemError :=
  ⟨36, "File name too long", some path⟩

/-- The error says that a path leads to nothing: that there is no entry, no
    directory on the way to one, or no end of the way. -/
def saysMissing (e : SystemError) : Bool :=
  e.code ∈ [2, 9, 20, 40]

end SystemError

/-- What a path can lead to. -/
inductive FileKind
  | file
  | directory
  deriving DecidableEq, Repr

/-- Access to files by their paths. -/
structure FileSystem (m : Type → Type) where
  /-- What a path leads to. -/
  kindOf : String → m (Except SystemError FileKind)
  /-- The bytes of a file. -/
  read : String → m (Except SystemError (List UInt8))
  /-- The bytes become all that a file holds, which is made if there is none. -/
  write : String → List UInt8 → m (Except SystemError Unit)

end Flattener
