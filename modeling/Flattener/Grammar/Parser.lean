import Flattener.Diagnostic
import Flattener.Token
import Flattener.TypeNames

/-!
# Parsers

A `Parser` reads from the head of a list of tokens and keeps track of the names
that are types. What it leaves is a `Step`: a result or a failure, the state
that was reached either way, and a record of what happened to the type names on
the way. The record is written and never read.

The list of tokens need not hold the end of input: it is met when the list is
empty, at the place that the `Context` gives. It is never consumed.
-/

namespace Flattener

/-- What stays the same during a parse. -/
structure Context where
  /-- Where the input ends. -/
  stop : Location
  /-- The lines of the source, to show below an error. -/
  lines : List String
  deriving Repr

/-- What a parse changes: the tokens that are left, and the names that are
    types. -/
structure State where
  rest : List Token
  types : TypeNames
  deriving DecidableEq, Repr

/-- Something that happened to the type names. -/
inductive Event
  /-- A name became a type. -/
  | registered (name : Name)
  /-- A production was given up, and the parse went back to a place. -/
  | backtracked (place : Location) (reason : String)
  /-- A name ceased to be registered. -/
  | unregistered (name : String)
  deriving DecidableEq, Repr

/-- What a parser leaves. -/
structure Step (α : Type) where
  result : Except Failure α
  state : State
  events : List Event

/-- A reader of tokens. -/
def Parser (α : Type) :=
  Context → State → Step α

namespace Parser

variable {α β : Type}

/-- The parser that reads nothing and has a result. -/
protected def pure (a : α) : Parser α := fun _ s =>
  ⟨.ok a, s, []⟩

/-- The second parser goes on where the first one stopped, unless that failed. -/
protected def bind (p : Parser α) (f : α → Parser β) : Parser β := fun c s =>
  let first := p c s
  match first.result with
  | .error failure => ⟨.error failure, first.state, first.events⟩
  | .ok a =>
    let second := f a c first.state
    ⟨second.result, second.state, first.events ++ second.events⟩

instance : Monad Parser where
  pure := Parser.pure
  bind := Parser.bind

theorem pure_apply (a : α) (c : Context) (s : State) :
    (pure a : Parser α) c s = ⟨.ok a, s, []⟩ :=
  rfl

theorem bind_of_ok {p : Parser α} {f : α → Parser β} {c : Context} {s : State} {a : α}
    (h : (p c s).result = .ok a) :
    (p >>= f) c s =
      ⟨(f a c (p c s).state).result, (f a c (p c s).state).state,
        (p c s).events ++ (f a c (p c s).state).events⟩ := by
  show Parser.bind p f c s = _
  simp only [Parser.bind, h]

theorem bind_of_error {p : Parser α} {f : α → Parser β} {c : Context} {s : State}
    {failure : Failure} (h : (p c s).result = .error failure) :
    (p >>= f) c s = ⟨.error failure, (p c s).state, (p c s).events⟩ := by
  show Parser.bind p f c s = _
  simp only [Parser.bind, h]

/-- Parsers can be regrouped: the records of three in a row are joined in order. -/
instance : LawfulMonad Parser := by
  refine LawfulMonad.mk' Parser (fun p => ?_) (fun a f => ?_) (fun p f g => ?_)
  · funext c s
    show Parser.bind p (fun a => Parser.pure a) c s = p c s
    rcases h : p c s with ⟨result, state, events⟩
    cases result <;> simp [Parser.bind, Parser.pure, h]
  · funext c s
    show Parser.bind (Parser.pure a) f c s = f a c s
    simp [Parser.bind, Parser.pure]
  · funext c s
    show Parser.bind (Parser.bind p f) g c s = Parser.bind p (fun a => Parser.bind (f a) g) c s
    rcases hp : p c s with ⟨result, state, events⟩
    cases result with
    | error failure => simp [Parser.bind, hp]
    | ok a =>
      rcases hf : f a c state with ⟨result', state', events'⟩
      cases result' <;> simp [Parser.bind, hp, hf]

/-- The parser that reads nothing and fails. -/
def fail (failure : Failure) : Parser α := fun _ s =>
  ⟨.error failure, s, []⟩

/-- A parser that may take as many rounds as there are tokens left, and one
    more. -/
def budgeted (p : Nat → Parser α) : Parser α := fun c s =>
  p (s.rest.length + 1) c s

/-- The state of a parse, as far as a function sees it. -/
def gets (f : Context → State → α) : Parser α := fun c s =>
  ⟨.ok (f c s), s, []⟩

/-! ## The token at hand -/

/-- The token at a distance, which is the end of input from there on. -/
def tokenAt (c : Context) (rest : List Token) (distance : Nat) : Token :=
  (rest[distance]?).getD (.ending c.stop)

/-- The next token, which is not consumed. -/
def peek : Parser Token :=
  gets fun c s => tokenAt c s.rest 0

/-- The end of input comes next. -/
def atEnd : Parser Bool := do
  return (← peek).isEnd

/-- The tokens behind the next one, unless that is the end of input. -/
def behindNext : List Token → List Token
  | [] => []
  | t :: rest => if t.isEnd then t :: rest else rest

/-- The next token, which is consumed unless it is the end of input. -/
def pop : Parser Token := fun c s =>
  ⟨.ok (tokenAt c s.rest 0), { s with rest := behindNext s.rest }, []⟩

/-- The next `n` tokens, which are consumed. -/
def take (n : Nat) : Parser (List Token) := fun _ s =>
  ⟨.ok (s.rest.take n), { s with rest := s.rest.drop n }, []⟩

/-! ## Errors -/

/-- The line of the source with a number, the first being number one. -/
def sourceLine (lines : List String) (number : Int) : Option String :=
  if 0 < number then lines[number.toNat - 1]? else none

/-- The error of a cause at a token. -/
def errorAt (c : Context) (token : Token) (cause : Cause) : SyntaxError :=
  ⟨cause, some token.location, token.isEnd, sourceLine c.lines token.location.line⟩

/-- The error of a cause at a token. -/
def failAt (token : Token) (cause : Cause) : Parser α := fun c s =>
  ⟨.error (.invalid (errorAt c token cause)), s, []⟩

/-- The next token is not the one that was expected. -/
def unexpected (expected : String) : Parser α := do
  let token ← peek
  failAt token (.unexpectedToken token.describe (some expected))

/-! ## Tokens of a kind -/

/-- The next token, which has to be of a kind. -/
def popKind (kind : Kind) (expected : String) : Parser Token := do
  if (← peek).kind = kind then pop else unexpected expected

/-- The next token, which has to be an integer, and its value. -/
def popInteger (expected : String) : Parser (Token × Nat) := do
  let token ← peek
  match token.lexeme with
  | .integer _ value =>
    let _ ← pop
    return (token, value)
  | _ => unexpected expected

/-- The next token, which has to be an identifier and no keyword. -/
def popName (expected : String) : Parser Name := do
  match (← peek).name? with
  | some name =>
    let _ ← pop
    return name
  | none => unexpected expected

/-- The next token, which is not consumed, is the operator. -/
def checkOperator (spelling : String) : Parser Bool := do
  return (← peek).isOperator [spelling]

/-- The next token, which is consumed if it is the operator. -/
def matchOperator (spelling : String) : Parser (Option Token) := do
  if ← checkOperator spelling then some <$> pop else return none

/-- The next token, which has to be the operator. -/
def expectOperatorAs (spelling expected : String) : Parser Token := do
  if ← checkOperator spelling then pop else unexpected expected

/-- The next token, which has to be the operator and is named by its spelling. -/
def expectOperator (spelling : String) : Parser Token :=
  expectOperatorAs spelling s!"'{spelling}'"

/-- The next token, which is consumed if it is the keyword. -/
def matchKeyword (name : String) : Parser (Option Token) := do
  if (← peek).isKeyword [name] then some <$> pop else return none

/-- The next token, which has to be the keyword. -/
def expectKeyword (name : String) : Parser Token := do
  if (← peek).isKeyword [name] then pop else unexpected s!"keyword '{name}'"

/-! ## Type names -/

/-- The name is a type at this place. -/
def isType (name : String) : Parser Bool :=
  gets fun _ s => s.types.isType name

/-- The next token, which has to be a name and becomes a type at once. -/
def register (expected : String) : Parser Name := do
  let name ← popName expected
  fun _ s => ⟨.ok name, { s with types := s.types.register name.text }, [.registered name]⟩

/-! ## Repetition -/

/-- One or more of something, with commas between them, in as many rounds. -/
def commaList (p : Parser α) : Nat → Parser (List α)
  | 0 => fail (.misuse .exhausted)
  | n + 1 => do
    let first ← p
    if (← matchOperator ",").isSome then
      let others ← commaList p n
      return first :: others
    else return [first]

end Parser

end Flattener
