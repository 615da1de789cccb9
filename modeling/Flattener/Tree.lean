import Flattener.Token

/-!
# Syntax trees

A program is a `Scope`: the declarations that the grammar covers, in source
order, and between them `RawRun`s, the tokens that it passes through as they
are. Every declaration keeps the name that it declares together with where that
name stands.

Absence is a value of its own: a type that is no array has no array size, and a
struct or class that is only declared has no body.
-/

namespace Flattener

/-- A nonempty run of tokens that is passed through. -/
structure RawRun where
  first : Token
  others : List Token
  deriving DecidableEq, Repr

namespace RawRun

/-- All tokens of a raw run, of which there is at least one. -/
def tokens (r : RawRun) : List Token :=
  r.first :: r.others

/-- The spellings of the tokens, with one space between them. -/
def text (r : RawRun) : String :=
  " ".intercalate (r.tokens.map Token.text)

end RawRun

/-- A named type behind a number of pointers, or an array of it. -/
structure TypeRef where
  name : Name
  pointers : Nat
  arraySize : Option Nat
  deriving DecidableEq, Repr

/-- A type is written as its name, its stars and its array size. -/
def TypeRef.text (t : TypeRef) : String :=
  let stars := if t.pointers = 0 then "" else
    String.ofList (' ' :: List.replicate t.pointers '*')
  let suffix := match t.arraySize with
    | some size => s!"[{size}]"
    | none => ""
  t.name.text ++ stars ++ suffix

/-- A name with its type, and the tokens that it is set to. -/
structure Variable where
  name : Name
  type : TypeRef
  initial : Option RawRun
  deriving DecidableEq, Repr

/-- Who may use a member, or that it overrides one. -/
inductive Access
  | overrideAccess
  | privateAccess
  | protectedAccess
  | publicAccess
  deriving DecidableEq, Repr

/-- The access levels as keywords. -/
def Access.keyword : Access → String
  | .overrideAccess => "override"
  | .privateAccess => "private"
  | .protectedAccess => "protected"
  | .publicAccess => "public"

/-- A variable inside a struct or class. -/
structure Field where
  access : Access
  declared : Variable
  deriving DecidableEq, Repr

/-- The prototype of a function or method, or the type of a pointer to one. -/
structure Signature where
  name : Name
  returns : TypeRef
  parameters : List Variable
  deriving DecidableEq, Repr

/-- What a struct or class holds. -/
inductive Member
  | field (field : Field)
  | functionPointer (signature : Signature)
  deriving DecidableEq, Repr

/-- A struct; one that is only declared has no members to speak of. -/
structure Struct where
  name : Name
  members : Option (List Member)
  deriving DecidableEq, Repr

/-- What stands between the braces of a class, and the traits before them. -/
structure ClassBody where
  traits : List TypeRef
  members : List Member
  methods : List Signature
  deriving DecidableEq, Repr

/-- A class; one that is only declared has no body. -/
structure Class where
  name : Name
  body : Option ClassBody
  deriving DecidableEq, Repr

/-- One entry of a scope. -/
inductive Item
  | raw (run : RawRun)
  | variableDecl (declared : Variable)
  | functionDecl (declared : Signature)
  | structDecl (declared : Struct)
  | classDecl (declared : Class)
  | namespaceDecl (name : Name) (children : List Item)

namespace Item

/-- Tokens that are passed through, in front of the items behind them. They
    join a raw run that follows at once. -/
def consRaw : List Token → List Item → List Item
  | [], items => items
  | first :: others, .raw run :: items => .raw ⟨first, others ++ run.tokens⟩ :: items
  | first :: others, items => .raw ⟨first, others⟩ :: items

end Item

/-- A whole program, and where its first token stands. -/
structure Scope where
  start : Location
  children : List Item

end Flattener
