import Flattener.CommandLine.Report
import Flattener.Tree.Outline

/-!
# Running a command line

A command line is checked from its options to its operands, then the source file
is flattened, and at last its outline is shown, its declarations shown, or its
declarations written to a file. A file is written only when nothing went wrong
before.
-/

namespace Flattener

variable {m : Type → Type} [Monad m]

/-- The standard options but for what a request changes. Only what the command
    shows itself may be colored. -/
def Request.options (r : Request) : Options :=
  { Options.standard with
    separator := r.separator
    page := { PageSettings.standard with color := r.color != some false && r.output.isNone } }

/-- What is wrong with the output file of a request, if it names one that cannot
    be used. -/
def checkOutput (files : FileSystem m) (r : Request) : m (Option UsageError) := do
  match r.output with
  | none => return none
  | some path =>
    if !isNamable path then return some (.unnamable path)
    match ← files.kindOf path with
    | .ok .directory => return some (.outputIsDirectory path)
    | _ => return none

/-- The input file of a request, if it names one that can be used. -/
def checkInput (files : FileSystem m) (r : Request) : m (Except UsageError String) := do
  match r.operands with
  | [] => return .error .missingInput
  | input :: others =>
    if !isNamable input then return .error (.unnamable input)
    match ← files.kindOf input with
    | .error _ => return .error (.inputNotFound input)
    | .ok .directory => return .error (.inputIsDirectory input)
    | .ok .file =>
      if others.isEmpty then return .ok input else return .error (.extraArguments others)

/-- The input file of a request, if the files that it names can be used. -/
def checkFiles (files : FileSystem m) (r : Request) : m (Except UsageError String) := do
  match ← checkOutput files r with
  | some error => return .error error
  | none => checkInput files r

/-- What becomes of declarations that are to go to a file. -/
def writeOutput (files : FileSystem m) (console : Console) (r : Request)
    (flattened : Flattened) (path : String) : m Report := do
  let path := plainPath path
  match ← files.write path flattened.output.toUTF8.toList with
  | .error error => return (Problem.ofSystem error).report console
  | .ok () =>
    if r.verbose then
      let line := s!"Translated {flattened.file} -> {path} ({flattened.tokenCount} tokens)\n"
      return ⟨0, shownOn console.stdout line, writtenLine flattened.output.length path⟩
    else return ⟨0, "", ""⟩

/-- What becomes of a flattened source. -/
def deliver (files : FileSystem m) (console : Console) (r : Request)
    (flattened : Flattened) : m Report := do
  if r.outline then
    let outline := (Node.scope flattened.scope).outline
    return ⟨0, shownOn console.stdout (outline ++ "\n"), ""⟩
  else
    match r.output with
    | none => return ⟨0, shownOn (r.color.getD console.stdout) flattened.output, ""⟩
    | some path => writeOutput files console r flattened path

/-- The report of a request for an input file. -/
def perform (files : FileSystem m) (console : Console) (r : Request) (input : String) :
    m Report := do
  let outcome ← flattenFile files r.options input
  let report ← match outcome.result with
    | .error failure => pure ((Problem.ofFailure failure).report console)
    | .ok flattened => deliver files console r flattened
  return if r.verbose then report.behind (logText outcome.log) else report

/-- The report of a command line. -/
def run (files : FileSystem m) (console : Console) (arguments : List String) : m Report := do
  match Request.ofArguments arguments with
  | .error error => return error.report console
  | .ok request =>
    match request.notice with
    | some notice => return notice.report
    | none =>
      match ← checkFiles files request with
      | .error error => return error.report console
      | .ok input => perform files console request input

end Flattener
