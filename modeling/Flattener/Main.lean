import Flattener.CommandLine.Run

/-!
# The command

The command line on the files, the arguments and the outputs of the machine.
-/

namespace Flattener

/-- A refusal of the machine, as far as it can be told apart. -/
def systemErrorOf (path : String) : IO.Error → SystemError
  | .noFileOrDirectory .. => .noEntry path
  | .permissionDenied .. => ⟨13, "Permission denied", some path⟩
  | .inappropriateType .. => .notDirectory path
  | error => ⟨5, toString error, some path⟩

/-- Why nothing can be opened at a path, if nothing can. -/
def openError? (path : String) : IO (Option SystemError) := do
  try
    let _ ← IO.FS.Handle.mk path .read
    return none
  catch error => return some (systemErrorOf path error)

/-- The files of the machine. A directory is what has itself as an entry. -/
def machineFiles : FileSystem IO where
  kindOf path := do
    if (← openError? (path ++ "/.")).isNone then return .ok .directory
    match ← openError? path with
    | none => return .ok .file
    | some error => return .error error
  read path := do
    try
      return .ok (← IO.FS.readBinFile path).toList
    catch error => return .error (systemErrorOf path error)
  write path bytes := do
    try
      IO.FS.writeBinFile path ⟨bytes.toArray⟩
      return .ok ()
    catch error => return .error (systemErrorOf path error)

end Flattener

/-- Runs the command and exits with the code of its report. -/
def main (arguments : List String) : IO UInt32 := do
  let stdout ← IO.getStdout
  let stderr ← IO.getStderr
  let console : Flattener.Console := ⟨← stdout.isTty, ← stderr.isTty⟩
  let report ← Flattener.run Flattener.machineFiles console arguments
  stderr.putStr report.stderr
  stdout.putStr report.stdout
  return report.exit.toUInt32
