import Flattener.Grammar.Declaration

/-!
# Structs and classes

    struct ::= 'struct' NAME (';' | '{' field* '}' ';')
    class  ::= 'class' NAME (';' | (':' NAME (',' NAME)*)? '{' member* '}' ';')
    member ::= ('public' | 'private' | 'protected') ':'
             | 'override'? (pointer | declaration)
    field  ::= pointer | variable

The name of a struct or class is a type from its own declaration on, so that
its members can refer to it. The members of a class are private until a label
says otherwise; those of a struct are public.
-/

namespace Flattener

/-- A member of a class: one that holds data, or a method. -/
inductive ClassMember
  | data (member : Member)
  | method (declared : Signature)
  deriving DecidableEq, Repr

/-- The members that hold data, in order. -/
def ClassMember.data? : ClassMember → Option Member
  | .data member => some member
  | .method _ => none

/-- The methods, in order. -/
def ClassMember.method? : ClassMember → Option Signature
  | .data _ => none
  | .method declared => some declared

namespace Parser

variable {α : Type}

/-- A member of a struct or class: a pointer to a function, or what the given
    parser reads. Nothing else may be declared inside. -/
def member (p : Parser α) : Parser (Signature ⊕ α) := do
  let token ← peek
  if token.isKeyword ["namespace", "class", "struct", "trait"] then
    failAt token (.unimplemented s!"'{token.text}' declarations inside aggregates")
  else if token.isKeyword ["virtual"] then .inl <$> functionPointer
  else .inr <$> p

/-- A member of a struct. -/
def structMember : Parser Member := do
  match ← member variableDecl with
  | .inl declared => return .functionPointer declared
  | .inr declared => return .field ⟨.publicAccess, declared⟩

/-- A member of a class, with the access that it would have as a field. -/
def classMember (access : Access) : Parser ClassMember := do
  match ← member (declaration true) with
  | .inl declared => return .data (.functionPointer declared)
  | .inr (.variableDecl declared) => return .data (.field ⟨access, declared⟩)
  | .inr (.functionDecl declared) => return .method declared

/-- The access level that a label sets. -/
def labelAccess? (t : Token) : Option Access :=
  [Access.publicAccess, .privateAccess, .protectedAccess].find? fun access =>
    t.isKeyword [access.keyword]

/-- The members up to the closing brace, in so many rounds. -/
def structMembers : Nat → Parser (List Member)
  | 0 => fail (.misuse .exhausted)
  | n + 1 => do
    if ← checkOperator closeBrace then return []
    else
      let first ← structMember
      let others ← structMembers n
      return first :: others

/-- The members up to the closing brace, in so many rounds. Fields have the
    given access until a label sets another one. -/
def classMembers : Nat → Access → Parser (List ClassMember)
  | 0, _ => fail (.misuse .exhausted)
  | n + 1, access => do
    if ← checkOperator closeBrace then return []
    else
      match labelAccess? (← peek) with
      | some label =>
        let _ ← pop
        let _ ← expectOperator ":"
        classMembers n label
      | none =>
        let overrides := (← matchKeyword "override").isSome
        let first ← classMember (if overrides then .overrideAccess else access)
        let others ← classMembers n access
        return first :: others

/-- A trait of a class. It need not be a type. -/
def trait : Parser TypeRef := do
  let name ← popName "trait name"
  return ⟨name, 0, none⟩

/-- The traits behind the name of a class, if there are any. -/
def traits : Parser (List TypeRef) := do
  if (← matchOperator ":").isSome then budgeted (commaList trait) else return []

/-- The declaration of a struct. -/
def structDecl : Parser Struct := do
  let _ ← expectKeyword "struct"
  let name ← register "struct name"
  if (← matchOperator ";").isSome then return ⟨name, none⟩
  else
    let _ ← expectOperator openBrace
    let members ← budgeted structMembers
    let _ ← expectOperator closeBrace
    let _ ← expectOperator ";"
    return ⟨name, some members⟩

/-- The declaration of a class. -/
def classDecl : Parser Class := do
  let _ ← expectKeyword "class"
  let name ← register "class name"
  if (← matchOperator ";").isSome then return ⟨name, none⟩
  else
    let list ← traits
    let _ ← expectOperator openBrace
    let members ← budgeted fun n => classMembers n .privateAccess
    let _ ← expectOperator closeBrace
    let _ ← expectOperator ";"
    return ⟨name, some ⟨list, members.filterMap (·.data?), members.filterMap (·.method?)⟩⟩

end Parser

end Flattener
