import Flattener.Token.Lexing
import Flattener.Grammar.Scope
import Flattener.Flattening.Declaration
import Flattener.Text.Encoding
import Flattener.Text.Lines

/-!
# Flattening a source

A source text is cut into tokens, parsed into a tree and written as flattened
declarations (`flatten`). The first error, of the lexer or of the parser, is
the only one. On the way a log is kept of the type names and of the size of what
was read.
-/

namespace Flattener

/-- How sources are read and declarations written. -/
structure Options where
  /-- The names that are types from the start. -/
  builtins : List String
  /-- What joins the names of a path. -/
  separator : String
  page : PageSettings
  /-- How source files are written. -/
  encoding : Text.Encoding
  deriving DecidableEq, Repr

/-- The standard types, an underscore between names, plain text and UTF-8. -/
def Options.standard : Options :=
  ⟨standardTypes, "_", .standard, .utf8⟩

/-- What happens while a source is flattened. -/
inductive LogEntry
  | event (event : Event)
  /-- A source was parsed: so many tokens, nodes and registered names. -/
  | parsed (file : String) (tokens nodes registrations : Nat)
  deriving DecidableEq, Repr

/-- A result or a reason for none, and the log up to then. -/
structure Logged (ε α : Type) where
  result : Except ε α
  log : List LogEntry

/-- A source and the declarations that it was flattened to. -/
structure Flattened where
  file : String
  scope : Scope
  output : String
  /-- How many tokens were read, the end of input included. -/
  tokenCount : Nat

/-- The tree of a source, and how many tokens it has. -/
def parseSource (options : Options) (source file : String) : Logged Failure (Scope × Nat) :=
  match (lex source file 1).toExcept with
  | .error error => ⟨.error (.invalid error), []⟩
  | .ok (tokens, stop) =>
    let step := parse options.builtins (Text.splitLines source) tokens stop
    let events := step.events.map .event
    match step.result with
    | .error failure => ⟨.error failure, events⟩
    | .ok scope =>
      let count := tokens.length + 1
      ⟨.ok (scope, count),
        events ++ [.parsed file count scope.nodes.length step.state.types.mark]⟩

/-- The flattened declarations of a source. -/
def flatten (options : Options) (source file : String) : Logged Failure Flattened :=
  let parsed := parseSource options source file
  let result := do
    let (scope, count) ← parsed.result
    match scope.render options.page options.separator options.builtins with
    | .ok output => return ⟨file, scope, output, count⟩
    | .error fault => throw (.misuse fault)
  ⟨result, parsed.log⟩

/-- The flattened declarations of a source, those of what that gives, and so on:
    so many of them, or up to the first failure. -/
def flattenRepeatedly (options : Options) (source file : String) :
    Nat → List (Except Failure Flattened)
  | 0 => []
  | n + 1 =>
    match (flatten options source file).result with
    | .error failure => [.error failure]
    | .ok flattened =>
      .ok flattened :: flattenRepeatedly options flattened.output file n

end Flattener
