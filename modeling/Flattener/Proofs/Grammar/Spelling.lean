import Flattener.Grammar.Aggregate
import Flattener.Proofs.Grammar.Brackets

/-!
# How trees are spelled

The grammar of a program as a relation between a tree and the tokens that spell
it, one rule for each form:

    scope       ::= (namespace | class | struct | declaration | raw run)*
    namespace   ::= 'namespace' NAME '{' scope '}'
    class       ::= 'class' NAME (';' | (':' NAME (',' NAME)*)? '{' member* '}' ';')
    struct      ::= 'struct' NAME (';' | '{' field* '}' ';')
    member      ::= label ':' | 'override'? (pointer | declaration)
    field       ::= pointer | variable ';'
    pointer     ::= 'virtual' type '(' '*' NAME ')' '(' parameters ')' ';'
    declaration ::= type NAME '(' parameters ')' ';' | variable ';'
    parameters  ::= ('void' | variable (',' variable)*)?
    variable    ::= type NAME ('[' UNSIGNED ']')? ('=' tokens)?
    type        ::= NAME '*'*

Every name of a tree is one of its tokens, location and all, and so is every
token of a raw run or an initializer; the other tokens leave no trace. Two raw
runs are never neighbours. Which names are types plays no part in this: that is
the scoping of a tree (`Flattener.Proofs.Grammar.Scoping`).
-/

namespace Flattener

/-- A type is spelled as its name and its stars. The size of an array stands
    behind the name of the variable. -/
inductive TypeRef.Spelled : TypeRef → List Token → Prop
  | intro {name : Name} {stars : List Token} (size : Option Nat) : name.text ∉ keywords →
    (∀ t ∈ stars, t.isOperator ["*"] = true) → Spelled ⟨name, stars.length, size⟩ (name.token :: stars)

/-- The size of an array is a positive integer in brackets. -/
inductive SizeSpelled : Option Nat → List Token → Prop
  | absent : SizeSpelled none []
  | present {opening size closing : Token} {spelling : String} {n : Nat} :
    opening.isOperator ["["] = true → size.lexeme = .integer spelling n → 0 < n →
    closing.isOperator ["]"] = true → SizeSpelled (some n) [opening, size, closing]

/-- What a variable is set to, up to a stop. -/
inductive InitialSpelled (stops : List String) : Option RawRun → List Token → Prop
  | absent : InitialSpelled stops none []
  | present {sign : Token} {run : RawRun} : sign.isOperator ["="] = true →
    Enclosed stops 0 run.tokens → InitialSpelled stops (some run) (sign :: run.tokens)

/-- A variable in front of a stop. -/
inductive Variable.Spelled (stops : List String) : Variable → List Token → Prop
  | intro {v : Variable} {lead size initial : List Token} : v.type.Spelled lead →
    v.name.text ∉ keywords → SizeSpelled v.type.arraySize size →
    InitialSpelled stops v.initial initial →
    Spelled stops v (lead ++ v.name.token :: (size ++ initial))

/-- A declaration of a variable, with its `;`. -/
inductive Variable.Declared : Variable → List Token → Prop
  | intro {v : Variable} {tokens : List Token} {stop : Token} : v.Spelled [";"] tokens →
    stop.isOperator [";"] = true → Declared v (tokens ++ [stop])

/-- One or more of something with commas between them. -/
inductive CommaSpelled {α : Type} (spelled : α → List Token → Prop) : List α → List Token → Prop
  | one {a : α} {tokens : List Token} : spelled a tokens → CommaSpelled spelled [a] tokens
  | more {a : α} {others : List α} {tokens rest : List Token} {comma : Token} :
    spelled a tokens → comma.isOperator [","] = true → CommaSpelled spelled others rest →
    CommaSpelled spelled (a :: others) (tokens ++ comma :: rest)

/-- Parameters; a sole `void` stands for none. -/
inductive ParametersSpelled : List Variable → List Token → Prop
  | none : ParametersSpelled [] []
  | void {t : Token} : t.lexeme = .identifier "void" → ParametersSpelled [] [t]
  | some {list : List Variable} {tokens : List Token} :
    CommaSpelled (Variable.Spelled [",", ")"]) list tokens → ParametersSpelled list tokens

/-- Parameters in parentheses. -/
inductive ParameterListSpelled : List Variable → List Token → Prop
  | intro {list : List Variable} {opening closing : Token} {tokens : List Token} :
    opening.isOperator ["("] = true → ParametersSpelled list tokens →
    closing.isOperator [")"] = true → ParameterListSpelled list (opening :: (tokens ++ [closing]))

namespace Signature

/-- The prototype of a function or method. -/
inductive Declared : Signature → List Token → Prop
  | intro {s : Signature} {lead list : List Token} {stop : Token} : s.returns.Spelled lead →
    s.returns.arraySize = none → s.name.text ∉ keywords →
    ParameterListSpelled s.parameters list → stop.isOperator [";"] = true →
    Declared s (lead ++ s.name.token :: (list ++ [stop]))

/-- A field that points to a function. -/
inductive PointerDeclared : Signature → List Token → Prop
  | intro {s : Signature} {keyword opening star closing stop : Token} {lead list : List Token} :
    keyword.isKeyword ["virtual"] = true → s.returns.Spelled lead → s.returns.arraySize = none →
    opening.isOperator ["("] = true → star.isOperator ["*"] = true → s.name.text ∉ keywords →
    closing.isOperator [")"] = true → ParameterListSpelled s.parameters list →
    stop.isOperator [";"] = true →
    PointerDeclared s
      (keyword :: (lead ++ opening :: star :: s.name.token :: closing :: (list ++ [stop])))

end Signature

/-- A declaration of a variable or of a function. -/
inductive Declaration.Declared : Declaration → List Token → Prop
  | variableDecl {v : Variable} {tokens : List Token} : v.Declared tokens →
    Declared (.variableDecl v) tokens
  | functionDecl {s : Signature} {tokens : List Token} : s.Declared tokens →
    Declared (.functionDecl s) tokens

/-! ## Structs and classes -/

/-- A member of a struct, which is public. -/
inductive StructMemberSpelled : Member → List Token → Prop
  | field {v : Variable} {tokens : List Token} : v.Declared tokens →
    StructMemberSpelled (.field ⟨.publicAccess, v⟩) tokens
  | pointer {s : Signature} {tokens : List Token} : s.PointerDeclared tokens →
    StructMemberSpelled (.functionPointer s) tokens

/-- The members of a struct, in order. -/
inductive StructMembersSpelled : List Member → List Token → Prop
  | nil : StructMembersSpelled [] []
  | cons {m : Member} {others : List Member} {tokens rest : List Token} :
    StructMemberSpelled m tokens → StructMembersSpelled others rest →
    StructMembersSpelled (m :: others) (tokens ++ rest)

/-- A struct, with its members or without. -/
inductive Struct.Spelled : Struct → List Token → Prop
  | forward {name : Name} {keyword stop : Token} : keyword.isKeyword ["struct"] = true →
    name.text ∉ keywords → stop.isOperator [";"] = true →
    Spelled ⟨name, none⟩ [keyword, name.token, stop]
  | whole {name : Name} {members : List Member} {keyword opening closing stop : Token}
      {inside : List Token} : keyword.isKeyword ["struct"] = true → name.text ∉ keywords →
    opening.isOperator [openBrace] = true → StructMembersSpelled members inside →
    closing.isOperator [closeBrace] = true → stop.isOperator [";"] = true →
    Spelled ⟨name, some members⟩
      (keyword :: name.token :: opening :: (inside ++ [closing, stop]))

/-- A member of a class, with the access that it has as a field. -/
inductive ClassMemberSpelled (access : Access) : ClassMember → List Token → Prop
  | field {v : Variable} {tokens : List Token} : v.Declared tokens →
    ClassMemberSpelled access (.data (.field ⟨access, v⟩)) tokens
  | pointer {s : Signature} {tokens : List Token} : s.PointerDeclared tokens →
    ClassMemberSpelled access (.data (.functionPointer s)) tokens
  | method {s : Signature} {tokens : List Token} : s.Declared tokens →
    ClassMemberSpelled access (.method s) tokens

/-- The members of a class, in order, under an access level. A label sets another
    one for all that follow, and `override` for one member only. -/
inductive ClassMembersSpelled : Access → List ClassMember → List Token → Prop
  | nil {access : Access} : ClassMembersSpelled access [] []
  | label {access access' : Access} {label colon : Token} {members : List ClassMember}
      {rest : List Token} : Parser.labelAccess? label = some access' → colon.isOperator [":"] = true →
    ClassMembersSpelled access' members rest →
    ClassMembersSpelled access members (label :: colon :: rest)
  | plain {access : Access} {m : ClassMember} {others : List ClassMember}
      {tokens rest : List Token} : ClassMemberSpelled access m tokens →
    ClassMembersSpelled access others rest →
    ClassMembersSpelled access (m :: others) (tokens ++ rest)
  | overriding {access : Access} {keyword : Token} {m : ClassMember} {others : List ClassMember}
      {tokens rest : List Token} : keyword.isKeyword ["override"] = true →
    ClassMemberSpelled .overrideAccess m tokens → ClassMembersSpelled access others rest →
    ClassMembersSpelled access (m :: others) (keyword :: (tokens ++ rest))

/-- A trait is a name, without stars and without a size. -/
inductive TraitSpelled : TypeRef → List Token → Prop
  | intro {name : Name} : name.text ∉ keywords → TraitSpelled ⟨name, 0, none⟩ [name.token]

/-- The traits of a class, behind a colon if there are any. -/
inductive TraitsSpelled : List TypeRef → List Token → Prop
  | none : TraitsSpelled [] []
  | some {traits : List TypeRef} {colon : Token} {tokens : List Token} :
    colon.isOperator [":"] = true → CommaSpelled TraitSpelled traits tokens →
    TraitsSpelled traits (colon :: tokens)

/-- A class, with its body or without. The methods are kept apart from the other
    members, each in their order. -/
inductive Class.Spelled : Class → List Token → Prop
  | forward {name : Name} {keyword stop : Token} : keyword.isKeyword ["class"] = true →
    name.text ∉ keywords → stop.isOperator [";"] = true →
    Spelled ⟨name, none⟩ [keyword, name.token, stop]
  | whole {name : Name} {traits : List TypeRef} {members : List ClassMember}
      {keyword opening closing stop : Token} {list inside : List Token} :
    keyword.isKeyword ["class"] = true → name.text ∉ keywords → TraitsSpelled traits list →
    opening.isOperator [openBrace] = true → ClassMembersSpelled .privateAccess members inside →
    closing.isOperator [closeBrace] = true → stop.isOperator [";"] = true →
    Spelled ⟨name, some ⟨traits, members.filterMap (·.data?), members.filterMap (·.method?)⟩⟩
      (keyword :: name.token :: (list ++ opening :: (inside ++ [closing, stop])))

/-! ## Scopes -/

/-- The item is a raw run. -/
def Item.isRaw : Item → Bool
  | .raw _ => true
  | _ => false

/-- The items begin with a raw run. -/
def beginsRaw (items : List Item) : Bool :=
  items.head?.any Item.isRaw

mutual

/-- An item of a scope. A raw run is spelled as itself. -/
inductive Item.Spelled : Item → List Token → Prop
  | raw (run : RawRun) : Item.Spelled (.raw run) run.tokens
  | variableDecl {v : Variable} {tokens : List Token} : v.Declared tokens →
    Item.Spelled (.variableDecl v) tokens
  | functionDecl {s : Signature} {tokens : List Token} : s.Declared tokens →
    Item.Spelled (.functionDecl s) tokens
  | structDecl {s : Struct} {tokens : List Token} : s.Spelled tokens →
    Item.Spelled (.structDecl s) tokens
  | classDecl {d : Class} {tokens : List Token} : d.Spelled tokens →
    Item.Spelled (.classDecl d) tokens
  | namespaceDecl {name : Name} {children : List Item} {keyword opening closing : Token}
      {inside : List Token} : keyword.isKeyword ["namespace"] = true → name.text ∉ keywords →
    opening.isOperator [openBrace] = true → ItemsSpelled children inside →
    closing.isOperator [closeBrace] = true →
    Item.Spelled (.namespaceDecl name children)
      (keyword :: name.token :: opening :: (inside ++ [closing]))

/-- The items of a scope, in order. No two raw runs are neighbours. -/
inductive ItemsSpelled : List Item → List Token → Prop
  | nil : ItemsSpelled [] []
  | cons {item : Item} {others : List Item} {tokens rest : List Token} : item.Spelled tokens →
    ItemsSpelled others rest → (item.isRaw = true → beginsRaw others = false) →
    ItemsSpelled (item :: others) (tokens ++ rest)

end

/-! ## No part is empty -/

theorem Variable.Declared.length_pos {v : Variable} {tokens : List Token} (h : v.Declared tokens) :
    0 < tokens.length := by
  cases h
  simp

theorem Signature.Declared.length_pos {s : Signature} {tokens : List Token}
    (h : s.Declared tokens) : 0 < tokens.length := by
  cases h
  simp only [List.length_append, List.length_cons]
  omega

theorem StructMemberSpelled.length_pos {m : Member} {tokens : List Token}
    (h : StructMemberSpelled m tokens) : 0 < tokens.length := by
  cases h with
  | field h => exact h.length_pos
  | pointer h => cases h; exact Nat.succ_pos _

theorem ClassMemberSpelled.length_pos {access : Access} {m : ClassMember} {tokens : List Token}
    (h : ClassMemberSpelled access m tokens) : 0 < tokens.length := by
  cases h with
  | field h => exact h.length_pos
  | pointer h => cases h; exact Nat.succ_pos _
  | method h => exact h.length_pos

theorem Item.Spelled.ne_nil {item : Item} {tokens : List Token} (h : item.Spelled tokens) :
    tokens ≠ [] := by
  rw [← List.length_pos_iff]
  cases h with
  | raw run => exact Nat.succ_pos _
  | variableDecl h => exact h.length_pos
  | functionDecl h => exact h.length_pos
  | structDecl h => cases h <;> exact Nat.succ_pos _
  | classDecl h => cases h <;> exact Nat.succ_pos _
  | namespaceDecl => exact Nat.succ_pos _

/-! ## How parts begin -/

/-- The tokens begin with a name. -/
def BeginsWith (n : Name) (tokens : List Token) : Prop :=
  n.text ∉ keywords ∧ ∃ rest, tokens = n.token :: rest

theorem BeginsWith.append {n : Name} {tokens : List Token} (h : BeginsWith n tokens)
    (rest : List Token) : BeginsWith n (tokens ++ rest) := by
  obtain ⟨hkey, others, rfl⟩ := h
  exact ⟨hkey, others ++ rest, rfl⟩

theorem TypeRef.Spelled.beginsWith {t : TypeRef} {tokens : List Token} (h : t.Spelled tokens) :
    BeginsWith t.name tokens := by
  cases h with
  | intro size hkey hstars => exact ⟨hkey, _, rfl⟩

/-- A declaration begins with the name of a type. -/
theorem Variable.Declared.beginsWith {v : Variable} {tokens : List Token}
    (h : v.Declared tokens) : BeginsWith v.type.name tokens := by
  obtain ⟨⟨hlead, -, -, -⟩, -⟩ := h
  exact (hlead.beginsWith.append _).append _

theorem Signature.Declared.beginsWith {s : Signature} {tokens : List Token}
    (h : s.Declared tokens) : BeginsWith s.returns.name tokens := by
  obtain ⟨hlead, -, -, -, -⟩ := h
  exact hlead.beginsWith.append _

theorem Declaration.Declared.exists_beginsWith {d : Declaration} {tokens : List Token}
    (h : d.Declared tokens) : ∃ n, BeginsWith n tokens := by
  cases h with
  | variableDecl h => exact ⟨_, h.beginsWith⟩
  | functionDecl h => exact ⟨_, h.beginsWith⟩

/-- A pointer to a function begins with its keyword. -/
theorem Signature.PointerDeclared.begins {s : Signature} {tokens : List Token}
    (h : s.PointerDeclared tokens) :
    ∃ keyword rest, keyword.isKeyword ["virtual"] = true ∧ tokens = keyword :: rest := by
  obtain ⟨hkeyword, -, -, -, -, -, -, -, -⟩ := h
  exact ⟨_, _, hkeyword, rfl⟩

theorem Struct.Spelled.begins {s : Struct} {tokens : List Token} (h : s.Spelled tokens) :
    ∃ keyword rest, keyword.isKeyword ["struct"] = true ∧ tokens = keyword :: rest := by
  cases h with
  | forward hkeyword _ _ => exact ⟨_, _, hkeyword, rfl⟩
  | whole hkeyword _ _ _ _ _ => exact ⟨_, _, hkeyword, rfl⟩

theorem Class.Spelled.begins {d : Class} {tokens : List Token} (h : d.Spelled tokens) :
    ∃ keyword rest, keyword.isKeyword ["class"] = true ∧ tokens = keyword :: rest := by
  cases h with
  | forward hkeyword _ _ => exact ⟨_, _, hkeyword, rfl⟩
  | whole hkeyword _ _ _ _ _ _ => exact ⟨_, _, hkeyword, rfl⟩

/-- A parameter begins with two tokens that do not close parentheses. -/
theorem Variable.Spelled.leads {stops : List String} {v : Variable} {tokens : List Token}
    (h : v.Spelled stops tokens) :
    ∃ first second rest, tokens = first :: second :: rest ∧
      first.isOperator [")"] = false ∧ second.isOperator [")"] = false := by
  obtain ⟨name, type, run⟩ := v
  obtain ⟨@⟨_, stars, _, -, hstars⟩, -, -, -⟩ := h
  cases stars with
  | nil => exact ⟨_, _, _, rfl, rfl, rfl⟩
  | cons star stars =>
    refine ⟨_, star, _, rfl, rfl, ?_⟩
    exact Token.isOperator_eq_false_of_stop (hstars star List.mem_cons_self) (by decide)

end Flattener
