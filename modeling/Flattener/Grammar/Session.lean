import Flattener.Grammar.Scope
import Flattener.SignedIndex

/-!
# Stepping through a parse

A `ParseSession` holds a parse open, so that its productions can be run one at a time
and its position and history can be saved and restored in any order. All tokens
are kept, and the position may be any integer: places before the first token
count from the end, the end of input being the last token, and from every place
behind the last token only the end of input is seen.
-/

namespace Flattener

/-- A position and a length of the history to come back to. -/
structure Savepoint where
  position : Int
  historyLength : Int
  deriving DecidableEq, Repr

/-- A parse that is held open. -/
structure ParseSession where
  context : Context
  tokens : List Token
  position : Int
  types : TypeNames
  deriving Repr

namespace ParseSession

variable {α : Type}

/-- The tokens in front of the end of input, which has to be the last one, and
    its place. -/
def splitEnd (tokens : List Token) : Except Fault (List Token × Location) :=
  match tokens.getLast? with
  | some last =>
    if last.isEnd then .ok (tokens.dropLast, last.location) else .error .noEndToken
  | none => .error .noEndToken

/-- A session at the first of its tokens, the last of which has to be the end
    of input. -/
def ofTokens (builtins lines : List String) (tokens : List Token) : Except Fault ParseSession := do
  let (tokens, stop) ← splitEnd tokens
  return ⟨⟨stop, lines⟩, tokens, 0, .ofBuiltins builtins⟩

/-- The tokens with the end of input behind them. -/
def allTokens (s : ParseSession) : List Token :=
  s.tokens ++ [.ending s.context.stop]

/-- The tokens from the position on, unless it lies before all of them. -/
def rest (s : ParseSession) : Except Fault (List Token) :=
  if 0 ≤ s.position then .ok (s.tokens.drop s.position.toNat)
  else (signedIndex s.allTokens.length s.position).map s.tokens.drop

/-- The result of a parser at the position, and the session after it. The
    position moves by as many tokens as were consumed. -/
def run (p : Parser α) (s : ParseSession) : Except Failure α × ParseSession :=
  match s.rest with
  | .error fault => (.error (.misuse fault), s)
  | .ok rest =>
    let step := p s.context ⟨rest, s.types⟩
    let consumed : Int := rest.length - step.state.rest.length
    (step.result, { s with position := s.position + consumed, types := step.state.types })

/-- The token at a distance from the position. -/
def peekAt (s : ParseSession) (distance : Int) : Except Fault Token :=
  let place := s.position + distance
  if s.allTokens.length ≤ place then .ok (.ending s.context.stop)
  else signedGet s.allTokens place

/-- The session at another position, with the same history. -/
def moveTo (s : ParseSession) (position : Int) : ParseSession :=
  { s with position := position }

/-- The savepoint of where the session is. -/
def snapshot (s : ParseSession) : Savepoint :=
  ⟨s.position, s.types.mark⟩

/-- The session with a name registered as a type. -/
def register (s : ParseSession) (name : String) : ParseSession :=
  { s with types := s.types.register name }

/-- The history is cut back; a length that it does not have changes nothing. -/
def rollbackTo (s : ParseSession) (size : Int) : Except Fault Unit × ParseSession :=
  match s.types.rollbackTo size with
  | .ok (types, _) => (.ok (), { s with types := types })
  | .error fault => (.error fault, s)

/-- The position and then the history go back to a savepoint. -/
def restore (s : ParseSession) (point : Savepoint) : Except Fault Unit × ParseSession :=
  (s.moveTo point.position).rollbackTo point.historyLength

end ParseSession

end Flattener
