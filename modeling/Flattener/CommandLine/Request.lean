import Flattener.CommandLine.Arguments

/-!
# What the command line asks for

The settings of a command line, taken together. Of a setting that is repeated
the last one counts, except that the first request for a notice is the one that
is granted.
-/

namespace Flattener

/-- A text that is shown instead of flattened declarations. -/
inductive Notice
  | version
  | help
  deriving DecidableEq, Repr

/-- What a command line asks for. -/
structure Request where
  /-- Where the declarations go, if not to the output of the command. -/
  output : Option String
  /-- Whether the declarations are colored, if that is said. -/
  color : Option Bool
  separator : String
  /-- The outline of the tree is shown instead of the declarations. -/
  outline : Bool
  verbose : Bool
  notice : Option Notice
  operands : List String
  deriving DecidableEq, Repr

namespace Request

/-- Nothing but the standard behavior, of no input. -/
def standard : Request :=
  ⟨none, none, "_", false, false, none, []⟩

/-- A request with one more setting. -/
def apply (r : Request) : Setting → Request
  | .output path => { r with output := some path }
  | .color wanted => { r with color := some wanted }
  | .separator text => { r with separator := text }
  | .outline => { r with outline := true }
  | .verbose => { r with verbose := true }
  | .version => { r with notice := r.notice.or (some .version) }
  | .help => { r with notice := r.notice.or (some .help) }
  | .operand text => { r with operands := r.operands ++ [text] }

/-- The request of the arguments. -/
def ofArguments (arguments : List String) : Except UsageError Request :=
  (readArguments arguments).map fun settings => settings.foldl apply standard

end Request

end Flattener
