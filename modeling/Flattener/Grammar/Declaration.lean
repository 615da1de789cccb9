import Flattener.Grammar.Span

/-!
# Declarations

    declaration ::= type NAME ( '(' parameters ')' ';' | tail ';' )
    tail        ::= ('[' UNSIGNED ']')? ('=' tokens)?
    parameters  ::= ('void' | parameter (',' parameter)*)?
    parameter   ::= type NAME tail
    type        ::= TYPE_NAME '*'*

A `TYPE_NAME` is a name that is a type, and a `NAME` is one that is not. Either
mistake is an error of its own and not an unexpected token.
-/

namespace Flattener

/-- What a declaration declares. -/
inductive Declaration
  | variableDecl (declared : Variable)
  | functionDecl (declared : Signature)
  deriving DecidableEq, Repr

namespace Parser

/-- The pointer markers behind a type name. -/
def stars : Parser Nat := do
  let count ← gets fun _ s => (s.rest.takeWhile (·.isOperator ["*"])).length
  let _ ← take count
  return count

/-- A type name and its pointer markers. -/
def typeRef : Parser TypeRef := do
  let name ← popName "type name"
  if ← isType name.text then
    let pointers ← stars
    return ⟨name, pointers, none⟩
  else failAt name.token (.unknownType name.text)

/-- The name that is declared. -/
def declaredName : Parser Name := do
  let name ← popName "identifier"
  if ← isType name.text then failAt name.token (.typeAsName name.text)
  else return name

/-- An integer that is not negative, and the token that it was read of. A
    negative one is reported at its sign. -/
def unsigned : Parser (Token × Nat) := do
  let sign ← matchOperator "-"
  let (token, value) ← popInteger "unsigned integer"
  match sign with
  | some sign =>
    if 0 < value then failAt sign (.notUnsigned (-value)) else return (token, value)
  | none => return (token, value)

/-- The size of an array, if there is one behind a name. It is positive. -/
def arraySize : Parser (Option Nat) := do
  if (← matchOperator "[").isSome then
    let (token, size) ← unsigned
    if size = 0 then failAt token .emptyArray
    else
      let _ ← expectOperator "]"
      return some size
  else return none

/-- The variable of a type and a name, with what stands behind its name. -/
def variableTail (type : TypeRef) (name : Name) (stops : List String) : Parser Variable := do
  let size ← arraySize
  if (← matchOperator "=").isSome then
    let run ← initializer stops
    return ⟨name, { type with arraySize := size }, some run⟩
  else return ⟨name, { type with arraySize := size }, none⟩

/-- One parameter of a function. -/
def parameter : Parser Variable := do
  let type ← typeRef
  let name ← declaredName
  variableTail type name [",", ")"]

/-- The next tokens are a sole `void` in front of a closing parenthesis. -/
def loneVoid : Parser Bool :=
  gets fun c s =>
    decide ((tokenAt c s.rest 0).lexeme = .identifier "void") &&
      (tokenAt c s.rest 1).isOperator [")"]

/-- The parameters up to the closing parenthesis, which is not consumed. A sole
    `void` stands for none. -/
def parameters : Parser (List Variable) := do
  if ← checkOperator ")" then return []
  else if ← loneVoid then
    let _ ← pop
    return []
  else budgeted (commaList parameter)

/-- A list of parameters in parentheses. -/
def parameterList : Parser (List Variable) := do
  let _ ← expectOperator "("
  let list ← parameters
  let _ ← expectOperator ")"
  return list

/-- The prototype of a function, behind its name. A method may not have a body. -/
def functionTail (returns : TypeRef) (name : Name) (isMethod : Bool) : Parser Signature := do
  let list ← parameterList
  if isMethod && (← checkOperator openBrace) then
    failAt (← peek) (.unimplemented "method bodies")
  else
    let _ ← expectOperator ";"
    return ⟨name, returns, list⟩

/-- A variable and the `;` behind it, after its type and its name. -/
def variableEnd (type : TypeRef) (name : Name) : Parser Variable := do
  let declared ← variableTail type name [";"]
  let _ ← expectOperator ";"
  return declared

/-- The declaration of a variable. -/
def variableDecl : Parser Variable := do
  let type ← typeRef
  let name ← declaredName
  variableEnd type name

/-- The declaration of a variable or a function, or of a field or a method. -/
def declaration (isMember : Bool) : Parser Declaration := do
  let type ← typeRef
  let name ← declaredName
  if ← checkOperator "(" then .functionDecl <$> functionTail type name isMember
  else .variableDecl <$> variableEnd type name

/-- A field that points to a function.

        virtual int (*compare)(Item * a, Item * b); -/
def functionPointer : Parser Signature := do
  let _ ← expectKeyword "virtual"
  let returns ← typeRef
  let _ ← expectOperator "("
  let _ ← expectOperator "*"
  let name ← declaredName
  let _ ← expectOperator ")"
  let list ← parameterList
  let _ ← expectOperator ";"
  return ⟨name, returns, list⟩

end Parser

end Flattener
