import Flattener.Grammar.Parser
import Flattener.Tree

/-!
# Spans of tokens that are passed through

The grammar does not look into statements and initializers. It only follows
their brackets, of which it does not tell the kinds apart: a statement ends with
the first `;` outside all of them, or with the brace that closes the last of
them, and an initializer ends in front of the first token outside all of them
that stops it. Neither goes past the end of input.
-/

namespace Flattener

/-- The spelling of an opening brace. -/
def openBrace : String := "\x7b"

/-- The spelling of a closing brace. -/
def closeBrace : String := "\x7d"

/-- The brackets that open. -/
def openers : List String :=
  ["(", "[", openBrace]

/-- The brackets that close. -/
def closers : List String :=
  [")", "]", closeBrace]

/-- How many brackets are open behind a token, with `depth` open before it. -/
def nesting (depth : Nat) (t : Token) : Nat :=
  if t.isOperator closers then depth - 1
  else if t.isOperator openers then depth + 1
  else depth

/-- How many brackets tokens leave open. -/
def finalDepth (tokens : List Token) : Nat :=
  tokens.foldl nesting 0

/-- The tokens of the statement at the head of a list, with `depth` brackets
    open: through the first end of a statement, or up to the end of input or a
    closing bracket that closes nothing. -/
def statementSpan (depth : Nat) : List Token → List Token
  | [] => []
  | t :: rest =>
    if t.isEnd ∨ depth = 0 ∧ t.isOperator closers then []
    else if nesting depth t = 0 ∧ t.isOperator [";", closeBrace] then [t]
    else t :: statementSpan (nesting depth t) rest

/-- The tokens up to the end of input or the first one, outside all brackets, that
    is a stop or a closing bracket. -/
def initializerSpan (stops : List String) (depth : Nat) : List Token → List Token
  | [] => []
  | t :: rest =>
    if t.isEnd ∨ depth = 0 ∧ t.isOperator (stops ++ closers) then []
    else t :: initializerSpan stops (nesting depth t) rest

namespace Parser

/-- One statement, as it is. There has to be one in front of a closing bracket,
    and its brackets have to be closed before the end of input. -/
def rawStatement : Parser (List Token) := do
  let span ← gets fun _ s => statementSpan 0 s.rest
  let tokens ← take span.length
  if ← atEnd then
    if 0 < finalDepth tokens then unexpected "closing bracket" else return tokens
  else if tokens.isEmpty then unexpected "declaration or statement"
  else return tokens

/-- The tokens up to a stop, which have to be some. The stop is not consumed. -/
def initializer (stops : List String) : Parser RawRun := do
  let span ← gets fun _ s => initializerSpan stops 0 s.rest
  let tokens ← take span.length
  match tokens with
  | first :: others =>
    if (← peek).isOperator stops then return ⟨first, others⟩
    else unexpected "initializer expression"
  | [] => unexpected "initializer expression"

end Parser

end Flattener
