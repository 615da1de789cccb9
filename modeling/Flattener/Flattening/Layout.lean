import Flattener.Grammar.Span
import Flattener.Flattening.Naming
import Flattener.Flattening.Page

/-!
# Layout of tokens that are passed through

Tokens are written in order, with a space between two of them on a line. A raw
run is also broken into lines: behind `;` and braces that stand outside all
parentheses, and before a closing brace, with the insides of braces indented.
-/

namespace Flattener

/-- The style of a token. Keywords and built-in types look alike. -/
def Naming.tokenStyle (n : Naming) (t : Token) : Style :=
  match t.lexeme with
  | .identifier name =>
    if name ∈ keywords ∨ name ∈ n.builtins then .keyword else .identifier
  | .integer _ _ => .number
  | .double _ _ => .number
  | .string _ _ => .string
  | .char _ _ => .string
  | _ => .operator

/-- How many parentheses and brackets are open behind a token. -/
def parenDepth (depth : Nat) (t : Token) : Nat :=
  if t.isOperator ["(", "["] then depth + 1
  else if t.isOperator [")", "]"] then depth - 1
  else depth

/-- What goes before a token: a closing brace begins a line. -/
def leadOf (depth : Nat) (t : Token) : List Directive :=
  if depth = 0 ∧ t.isOperator [closeBrace] then [.freshLine, .dedent] else []

/-- What goes behind a token: `;` and braces end a line. -/
def trailOf (depth : Nat) (t : Token) : List Directive :=
  if depth = 0 ∧ t.isOperator [";", openBrace, closeBrace] then
    .newline :: if t.isOperator [openBrace] then [.indent] else []
  else []

/-- Tokens of a raw run, behind others or not, with so many parentheses open. -/
def Naming.lines (n : Naming) (depth : Nat) (behind : Bool) : List Token → List Directive
  | [] => []
  | t :: rest =>
    leadOf depth t ++ (if behind then [.gap] else []) ++ .write t.text (n.tokenStyle t) ::
      trailOf depth t ++ n.lines (parenDepth depth t) true rest

/-- A raw run, on lines of its own. -/
def Naming.rawRun (n : Naming) (run : RawRun) : List Directive :=
  n.lines 0 false run.tokens ++ [.freshLine]

/-- The tokens of an initializer, on one line. -/
def Naming.initializer (n : Naming) (run : RawRun) : List Directive :=
  .write run.first.text (n.tokenStyle run.first) ::
    run.others.flatMap fun t => [.gap, .write t.text (n.tokenStyle t)]

end Flattener
