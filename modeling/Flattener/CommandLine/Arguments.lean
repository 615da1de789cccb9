import Flattener.Text.Likeness
import Flattener.Text.Quoted

/-!
# Command-line arguments

An argument that begins with a dash, and is more than a dash, sets options: a
long one by its name, with its value behind `=` or in the next argument, or
several short ones by their letters, with the value of the last one in the rest
of the argument or in the next one. All others are operands, as is everything
behind `--`. An option that takes a value takes whatever stands there.
-/

namespace Flattener

/-- What an argument sets. -/
inductive Setting
  | output (path : String)
  | color (wanted : Bool)
  | separator (text : String)
  | outline
  | verbose
  | version
  | help
  | operand (text : String)
  deriving DecidableEq, Repr

/-- Why arguments make no request. -/
inductive UsageError
  /-- An option that there is not, and those that may be meant. -/
  | noSuchOption (name : String) (meant : List String)
  | missingValue (name : String)
  | unwantedValue (name : String)
  | outputIsDirectory (path : String)
  | missingInput
  | inputNotFound (path : String)
  | inputIsDirectory (path : String)
  | extraArguments (arguments : List String)
  /-- A path that is none. -/
  | unnamable (path : String)
  deriving DecidableEq, Repr

namespace UsageError

/-- The question whether one of some options is meant. -/
def suggestion : List String → String
  | [] => ""
  | [name] => s!" Did you mean {Text.quoted name}?"
  | names =>
    let list := ", ".intercalate (names.map Text.quoted)
    s!" (Did you mean one of: {list}?)"

/-- The description of an error. -/
def text : UsageError → String
  | .noSuchOption name meant => s!"No such option {Text.quoted name}.{suggestion meant}"
  | .missingValue name => s!"Option {Text.quoted name} requires an argument."
  | .unwantedValue name => s!"Option {Text.quoted name} does not take a value."
  | .outputIsDirectory path =>
    s!"Invalid value for '-o' / '--output': File {Text.quoted path} is a directory."
  | .missingInput => "Missing argument 'INPUT_FILE'."
  | .inputNotFound path =>
    s!"Invalid value for 'INPUT_FILE': File {Text.quoted path} does not exist."
  | .inputIsDirectory path =>
    s!"Invalid value for 'INPUT_FILE': File {Text.quoted path} is a directory."
  | .extraArguments arguments =>
    let noun := if arguments.length = 1 then "argument" else "arguments"
    let list := " ".intercalate arguments
    s!"Got unexpected extra {noun} ({list})"
  | .unnamable _ => ""

/-- The error is reported with a reminder of how the command is used. -/
def showsUsage : UsageError → Bool
  | .missingValue _ => false
  | .unwantedValue _ => false
  | _ => true

end UsageError

/-- The long options that take no value. -/
def longFlag? (name : String) : Option Setting :=
  match name with
  | "--color" => some (.color true)
  | "--no-color" => some (.color false)
  | "--ast" => some .outline
  | "--verbose" => some .verbose
  | "--version" => some .version
  | "--help" => some .help
  | _ => none

/-- The long options that take a value. -/
def longValued? (name : String) : Option (String → Setting) :=
  match name with
  | "--output" => some .output
  | "--separator" => some .separator
  | _ => none

/-- The names of the long options, in their order as texts. -/
def longNames : List String :=
  ["--ast", "--color", "--help", "--no-color", "--output", "--separator", "--verbose",
    "--version"]

/-- What an argument sets: something by itself, or something more with the
    value in the next argument. -/
inductive Reading
  | complete (settings : List Setting)
  | awaiting (settings : List Setting) (name : String) (setting : String → Setting)

namespace Reading

/-- A reading behind one more setting. -/
def cons (setting : Setting) : Reading → Reading
  | .complete settings => .complete (setting :: settings)
  | .awaiting settings name wanted => .awaiting (setting :: settings) name wanted

/-- The reading of an option whose value may stand in its own argument. -/
def ofValued (name : String) (setting : String → Setting) : Option String → Reading
  | some value => .complete [setting value]
  | none => .awaiting [] name setting

end Reading

/-- The name of a long option, and the value that stands behind its first `=`. -/
def splitLong (argument : List Char) : String × Option String :=
  let name := argument.takeWhile (· ≠ '=')
  match argument.drop name.length with
  | [] => (String.ofList name, none)
  | _ :: value => (String.ofList name, some (String.ofList value))

/-- The reading of a long option. -/
def readLong (argument : List Char) : Except UsageError Reading :=
  let (name, value) := splitLong argument
  match longValued? name, longFlag? name with
  | some setting, _ => .ok (.ofValued name setting value)
  | none, some setting =>
    if value.isSome then .error (.unwantedValue name) else .ok (.complete [setting])
  | none, none => .error (.noSuchOption name (Text.closestTo name longNames))

/-- The reading of short options behind their dash. -/
def readShort : List Char → Except UsageError Reading
  | [] => .ok (.complete [])
  | 'v' :: letters => (readShort letters).map (Reading.cons .verbose)
  | 'o' :: value =>
    .ok (.ofValued "-o" .output (if value.isEmpty then none else some (String.ofList value)))
  | letter :: _ => .error (.noSuchOption (String.ofList ['-', letter]) [])

/-- The reading of an argument that is not `--`. -/
def readArgument (argument : String) : Except UsageError Reading :=
  match argument.toList with
  | '-' :: '-' :: _ => readLong argument.toList
  | '-' :: letter :: letters => readShort (letter :: letters)
  | _ => .ok (.complete [.operand argument])

/-- What the arguments set, in their order. -/
def readArguments : List String → Except UsageError (List Setting)
  | [] => .ok []
  | argument :: rest =>
    if argument = "--" then .ok (rest.map .operand)
    else
      match readArgument argument, rest with
      | .error error, _ => .error error
      | .ok (.complete settings), rest => (readArguments rest).map (settings ++ ·)
      | .ok (.awaiting _ name _), [] => .error (.missingValue name)
      | .ok (.awaiting settings _ setting), value :: rest =>
        (readArguments rest).map (settings ++ setting value :: ·)
  termination_by arguments => arguments.length

end Flattener
