import Flattener.Files.Path
import Flattener.Files.System
import Flattener.Flattening.Source

/-!
# Flattening a source file

A source file is found, read, decoded and flattened. All line ends of the file
are taken for newlines. Each of the steps may fail in its own way.
-/

namespace Flattener

/-- Why a source file cannot be flattened. -/
inductive SourceFailure
  | notFound (path : String)
  | unreadable (error : SystemError)
  | undecodable (error : Text.DecodeError)
  | invalid (failure : Failure)
  deriving DecidableEq, Repr

/-- The description of a failure. -/
def SourceFailure.message : SourceFailure → String
  | .notFound path => s!"Source file not found: {path}"
  | .unreadable error => error.text
  | .undecodable error => error.text
  | .invalid failure => failure.message

/-- The text of a file. -/
def decodeSource (encoding : Text.Encoding) (bytes : List UInt8) :
    Except Text.DecodeError String :=
  (Text.decode encoding bytes).map fun chars =>
    String.ofList (Text.normalizeNewlines chars)

/-- The flattened declarations of the bytes of a file. -/
def flattenBytes (options : Options) (bytes : List UInt8) (file : String) :
    Logged SourceFailure Flattened :=
  match decodeSource options.encoding bytes with
  | .error error => ⟨.error (.undecodable error), []⟩
  | .ok source =>
    let flattened := flatten options source file
    ⟨flattened.result.mapError .invalid, flattened.log⟩

/-- The flattened declarations of the file at a path, which is named by the plain
    form of the path. -/
def flattenFile {m : Type → Type} [Monad m] (files : FileSystem m) (options : Options)
    (path : String) : m (Logged SourceFailure Flattened) := do
  let path := plainPath path
  match ← files.kindOf path with
  | .error error =>
    return ⟨.error (if error.saysMissing then .notFound path else .unreadable error), []⟩
  | .ok _ =>
    match ← files.read path with
    | .error error => return ⟨.error (.unreadable error), []⟩
    | .ok bytes => return flattenBytes options bytes path

end Flattener
