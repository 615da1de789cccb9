import Flattener.SourceFile
import Flattener.Text.Ansi
import Flattener.CommandLine.Request

/-!
# Reports

What the command line leaves behind is a `Report`: an exit code and the text on
its two outputs. A command that went well exits with zero, one whose source is
not valid with one, one that was not used well with two, and one that met an
error of another kind with three. Messages lose their control sequences on the
way to anything that is not a terminal; log lines do not.
-/

namespace Flattener

/-- The outcome of a command. -/
structure Report where
  exit : Nat
  stdout : String
  stderr : String
  deriving DecidableEq, Repr

/-- Which outputs of a command are terminals. -/
structure Console where
  stdout : Bool
  stderr : Bool
  deriving DecidableEq, Repr

/-- No output is a terminal. -/
def Console.redirected : Console :=
  ⟨false, false⟩

/-- A message as an output shows it. -/
def shownOn (terminal : Bool) (text : String) : String :=
  if terminal then text else Text.stripSequences text

/-! ## Texts -/

/-- The name of the command and its version. -/
def versionText : String :=
  "tcpp, version 1.0.0\n"

/-- The first line of the help, which errors about arguments are headed by. -/
def usageLine : String :=
  "Usage: tcpp [OPTIONS] INPUT_FILE\n"

/-- How the command is used. -/
def helpText : String :=
  usageLine ++ "\n".intercalate
    ["",
      "  Translate tinycpp source into flattened C declarations.",
      "",
      "  INPUT_FILE is the tinycpp source file to translate.",
      "",
      "  Examples:",
      "      tcpp shapes.tcpp                # Print to stdout",
      "      tcpp shapes.tcpp -o shapes.h    # Write to a file",
      "      tcpp --ast shapes.tcpp          # Dump the syntax tree",
      "",
      "Options:",
      "  -o, --output FILE     Output file (default: stdout)",
      "  --color / --no-color  Colorize output (default: only when writing to a",
      "                        terminal)",
      "  --separator TEXT      Separator joining namespace components in qualified",
      "                        names  [default: _]",
      "  --ast                 Print the syntax tree instead of the translation",
      "  -v, --verbose         Verbose output (debug logging)",
      "  --version             Show the version and exit.",
      "  --help                Show this message and exit.",
      ""]

/-- What is printed for a notice. -/
def Notice.text : Notice → String
  | .version => versionText
  | .help => helpText

/-- The report of a notice. -/
def Notice.report (notice : Notice) : Report :=
  ⟨0, notice.text, ""⟩

/-- The report of a command that was not used well. A path that is none breaks
    the command off before it can tell. -/
def UsageError.report (console : Console) (error : UsageError) : Report :=
  let usage := if error.showsUsage then
      usageLine ++ "Try 'tcpp --help' for help.\n\n"
    else ""
  match error with
  | .unnamable _ => ⟨1, "", ""⟩
  | _ => ⟨2, "", shownOn console.stderr s!"{usage}Error: {error.text}\n"⟩

/-! ## Problems -/

/-- What can go wrong with a request, by who has to mend it. -/
inductive Problem
  /-- The source is not valid. -/
  | source (error : SyntaxError)
  /-- The source cannot be used, for the given reason. -/
  | unusable (text : String)
  /-- A file or an argument is not what it has to be. -/
  | input (text : String)
  /-- It is none of the user's doing. -/
  | internal (text : String)
  deriving DecidableEq, Repr

namespace Problem

/-- The exit code: 1 if it is for the source to be mended, 2 for a file or an
    argument, and 3 for anything else. -/
def exit : Problem → Nat
  | .source _ => 1
  | .unusable _ => 1
  | .input _ => 2
  | .internal _ => 3

/-- What is printed about a problem. -/
def text : Problem → String
  | .source error => error.message
  | .unusable text => s!"Error: {text}"
  | .input text => s!"Error: {text}"
  | .internal text => s!"Internal error: {text}"

/-- A missing entry or a missing permission is for the user to mend, and every
    other refusal of the file system is not. -/
def ofSystem (e : SystemError) : Problem :=
  if e.code ∈ [1, 2, 13] then .input e.text else .internal e.text

/-- The problem that a failure to flatten a file is. -/
def ofFailure : SourceFailure → Problem
  | .notFound path => .input (SourceFailure.notFound path).message
  | .unreadable error => .ofSystem error
  | .undecodable error => .input error.text
  | .invalid (.invalid error) => .source error
  | .invalid (.misuse fault) => .internal fault.text

/-- The report of a problem. -/
def report (console : Console) (problem : Problem) : Report :=
  ⟨problem.exit, "", shownOn console.stderr (problem.text ++ "\n")⟩

/-- The report of a problem that was not met on the way through a program. An
    internal one is followed by its trace, of which there is none. -/
def reportTraced (console : Console) (verbose : Bool) (problem : Problem) : Report :=
  let report := problem.report console
  match problem with
  | .internal _ =>
    if verbose then { report with stderr := report.stderr ++ "NoneType: None\n" } else report
  | _ => report

end Problem

/-! ## Logs -/

/-- The line that an entry of a log makes, under the name of the part of the
    program that tells of it. -/
def LogEntry.line : LogEntry → String
  | .event (.registered name) =>
    s!"tinycpp.frontend.parser: Registered type name '{name.text}' at {name.location.text}\n"
  | .event (.backtracked place reason) =>
    s!"tinycpp.frontend.parser: Backtracking to {place.text}: {reason}\n"
  | .event (.unregistered name) =>
    s!"tinycpp.frontend.typenames: Type name '{name}' unregistered\n"
  | .parsed file tokens nodes registrations =>
    s!"tinycpp.frontend.driver: {file}: {tokens} tokens, {nodes} nodes, " ++
      s!"{registrations} type registrations\n"

/-- The line that tells of a file that was written. -/
def writtenLine (characters : Nat) (path : String) : String :=
  s!"tinycpp.cli.tcpp: Wrote {characters} characters to {path}\n"

/-- A log, with nothing else on the error output. -/
def logText (log : List LogEntry) : String :=
  String.join (log.map LogEntry.line)

/-- A report behind more text on the error output. -/
def Report.behind (r : Report) (text : String) : Report :=
  { r with stderr := text ++ r.stderr }

end Flattener
