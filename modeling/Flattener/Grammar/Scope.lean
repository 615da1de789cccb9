import Flattener.Grammar.Aggregate

/-!
# Scopes

    scope     ::= (namespace | class | struct | declaration | statement)*
    namespace ::= 'namespace' NAME '{' scope '}'

Whether tokens declare something is found out by trying (`attempt`). A
production that meets an unexpected token is given up without a trace, and its
tokens are passed through as a statement. At the end of input there is nothing
left that could be passed through, and every other error means that the tokens
did declare something; these fail the parse.
-/

namespace Flattener

/-- The productions that begin with a token of their own. -/
inductive Production
  | namespaceDecl
  | classDecl
  | structDecl
  | declaration
  deriving DecidableEq, Repr

namespace Parser

variable {α : Type}

/-- An error that another production may still mend: an unexpected token, and
    more tokens behind it. -/
def isRecoverable : Failure → Bool
  | .invalid ⟨.unexpectedToken _ _, _, atEnd, _⟩ => !atEnd
  | _ => false

/-- The state goes back to earlier tokens and to an earlier length of the
    history of type names. -/
def restore (rest : List Token) (mark : Nat) (reason : String) : Parser Unit := fun c s =>
  match s.types.rollbackTo mark with
  | .ok (types, gone) =>
    ⟨.ok (), ⟨rest, types⟩,
      .backtracked (tokenAt c rest 0).location reason :: gone.map .unregistered⟩
  | .error fault =>
    ⟨.error (.misuse fault), { s with rest := rest },
      [.backtracked (tokenAt c rest 0).location reason]⟩

/-- A production on trial: what it reads, or nothing, with everything as it was
    before, if its error is recoverable. -/
def attempt (p : Parser α) : Parser (Option α) := fun c s =>
  let trial := p c s
  match trial.result with
  | .ok a => ⟨.ok (some a), trial.state, trial.events⟩
  | .error failure =>
    if isRecoverable failure then
      let reason := match failure with
        | .invalid error => error.cause.text
        | .misuse fault => fault.text
      let back := restore s.rest s.types.mark reason c trial.state
      ⟨back.result.map fun _ => none, back.state, trial.events ++ back.events⟩
    else ⟨.error failure, trial.state, trial.events⟩

/-- A name that is a type begins a declaration, and so do two names in a row,
    which are no expression: the first of them must be a type, and an unknown
    one is an error. -/
def startsDeclaration : Parser Bool :=
  gets fun c s =>
    match (tokenAt c s.rest 0).name? with
    | none => false
    | some name => s.types.isType name.text || (tokenAt c s.rest 1).name?.isSome

/-- The production to try at the next token, if there is one. -/
def selectProduction : Parser (Option Production) := do
  let token ← peek
  if token.isKeyword ["namespace"] then return some .namespaceDecl
  else if token.isKeyword ["class"] then return some .classDecl
  else if token.isKeyword ["struct"] then return some .structDecl
  else if ← startsDeclaration then return some .declaration
  else return none

/-- A namespace around what the given parser reads. -/
def namespaceDecl (body : Parser (List Item)) : Parser Item := do
  let _ ← expectKeyword "namespace"
  let name ← popName "namespace name"
  let _ ← expectOperator openBrace
  let children ← body
  let _ ← expectOperator closeBrace
  return .namespaceDecl name children

/-- The declaration of a variable or a function in a scope. -/
def scopeDeclaration : Parser Item := do
  match ← declaration false with
  | .variableDecl declared => return .variableDecl declared
  | .functionDecl declared => return .functionDecl declared

/-- What a production reads, with a parser for the insides of a namespace. -/
def produce (body : Parser (List Item)) : Production → Parser Item
  | .namespaceDecl => namespaceDecl body
  | .classDecl => .classDecl <$> classDecl
  | .structDecl => .structDecl <$> structDecl
  | .declaration => scopeDeclaration

/-- The items up to the end of input, or up to the closing brace if there is
    one around them, in so many rounds. -/
def scopeItems : Nat → Bool → Parser (List Item)
  | 0, _ => fail (.misuse .exhausted)
  | n + 1, nested => do
    if ← atEnd then return []
    else if nested && (← checkOperator closeBrace) then return []
    else
      let item ← match ← selectProduction with
        | some production => attempt (produce (scopeItems n true) production)
        | none => pure none
      match item with
      | some item =>
        let others ← scopeItems n nested
        return item :: others
      | none =>
        let tokens ← rawStatement
        let others ← scopeItems n nested
        return Item.consRaw tokens others

/-- The items of a scope. -/
def scopeBody (nested : Bool) : Parser (List Item) :=
  budgeted fun n => scopeItems n nested

/-- A whole program. -/
def scope : Parser Scope := do
  let start ← peek
  let children ← scopeBody false
  let _ ← popKind .endOfInput "end of input"
  return ⟨start.location, children⟩

end Parser

/-- The program that tokens write, which end at a place, for a reader who knows
    the built-in types. The lines of the source are shown below errors. -/
def parse (builtins : List String) (lines : List String) (tokens : List Token)
    (stop : Location) : Step Scope :=
  Parser.scope ⟨stop, lines⟩ ⟨tokens, .ofBuiltins builtins⟩

end Flattener
