import Flattener.Proofs.Grammar.Completeness
import Mathlib.Data.List.Forall2

/-!
# Written trees are parsed to themselves

A tree of declarations can be written down: `itemsMarks` says of each token in
turn what it has to be. Names and the tokens of initializers are given by the
tree, locations and all. Punctuation and keywords may stand anywhere, and the size
of an array may be spelled in any way.

If the tree is well formed (`ItemsWellFormed`) and well scoped behind the built-in
types, then however it is written, a parse of the tokens gives the same tree back
(`parse_of_written`).
-/

namespace Flattener

/-! ## What tokens have to be -/

/-- What a token of a written tree has to be. -/
inductive Mark
  /-- This very token. -/
  | exact (t : Token)
  | operator (spelling : String)
  /-- An identifier, which may be a keyword. -/
  | word (name : String)
  /-- An integer of a value. -/
  | size (n : Nat)
  deriving DecidableEq, Repr

/-- The token is what the mark says. -/
def Mark.Fits : Mark → Token → Prop
  | .exact t, u => u = t
  | .operator spelling, u => u.isOperator [spelling] = true
  | .word name, u => u.lexeme = .identifier name
  | .size n, u => ∃ spelling, u.lexeme = .integer spelling n

/-- The tokens are what the marks say, one by one. -/
def Written (marks : List Mark) (tokens : List Token) : Prop :=
  List.Forall₂ Mark.Fits marks tokens

/-! ## How trees are written -/

/-- A type is written as its name and its stars. -/
def TypeRef.marks (t : TypeRef) : List Mark :=
  .exact t.name.token :: List.replicate t.pointers (.operator "*")

/-- The size of an array in brackets. -/
def sizeMarks : Option Nat → List Mark
  | none => []
  | some n => [.operator "[", .size n, .operator "]"]

/-- What a variable is set to. -/
def initialMarks : Option RawRun → List Mark
  | none => []
  | some run => .operator "=" :: run.tokens.map .exact

/-- A variable without the token behind it. -/
def Variable.marks (v : Variable) : List Mark :=
  v.type.marks ++ .exact v.name.token :: (sizeMarks v.type.arraySize ++ initialMarks v.initial)

/-- Parts with commas between them. -/
def commaMarks {α : Type} (marks : α → List Mark) : List α → List Mark
  | [] => []
  | [a] => marks a
  | a :: others => marks a ++ .operator "," :: commaMarks marks others

section

/-! A signature without parameters may be written with a sole `void`. -/

variable (void : Signature → Bool)

/-- The parameters of a signature in parentheses. -/
def Signature.listMarks (s : Signature) : List Mark :=
  let inside := if s.parameters = [] ∧ void s then [.word "void"]
    else commaMarks Variable.marks s.parameters
  .operator "(" :: (inside ++ [.operator ")"])

/-- A function is written as its type, its name and its parameters. -/
def Signature.marks (s : Signature) : List Mark :=
  s.returns.marks ++ .exact s.name.token :: (s.listMarks void ++ [.operator ";"])

/-- A signature as a field. -/
def Signature.pointerMarks (s : Signature) : List Mark :=
  .word "virtual" :: (s.returns.marks ++ .operator "(" :: .operator "*" :: .exact s.name.token ::
    .operator ")" :: (s.listMarks void ++ [.operator ";"]))

/-- An access level in front of one field. -/
def Access.marks : Access → List Mark
  | .overrideAccess => [.word "override"]
  | access => [.word access.keyword, .operator ":"]

/-- A member of a struct is written without a label. -/
def Member.structMarks : Member → List Mark
  | .field f => f.declared.marks ++ [.operator ";"]
  | .functionPointer s => s.pointerMarks void

/-- A member of a class: a field is written behind its own access level. -/
def Member.classMarks : Member → List Mark
  | .field f => f.access.marks ++ (f.declared.marks ++ [.operator ";"])
  | .functionPointer s => s.pointerMarks void

/-- A struct is written with its members in braces, or as a forward declaration. -/
def Struct.marks (s : Struct) : List Mark :=
  .word "struct" :: .exact s.name.token :: match s.members with
    | none => [.operator ";"]
    | some members => .operator openBrace ::
        (members.flatMap (Member.structMarks void) ++ [.operator closeBrace, .operator ";"])

/-- Traits are written behind a colon, if there are any. -/
def traitMarks (traits : List TypeRef) : List Mark :=
  if traits = [] then [] else .operator ":" :: commaMarks TypeRef.marks traits

/-- The members of a class, and then its methods. -/
def ClassBody.marks (b : ClassBody) : List Mark :=
  b.members.flatMap (Member.classMarks void) ++ b.methods.flatMap (Signature.marks void)

/-- A class is written with its traits in front of the braces, or as a forward
    declaration. -/
def Class.marks (d : Class) : List Mark :=
  .word "class" :: .exact d.name.token :: match d.body with
    | none => [.operator ";"]
    | some body => traitMarks body.traits ++ .operator openBrace ::
        (body.marks void ++ [.operator closeBrace, .operator ";"])

mutual

/-- How an item is written; a raw run is written as it is. -/
def Item.marks : Item → List Mark
  | .raw run => run.tokens.map .exact
  | .variableDecl v => v.marks ++ [.operator ";"]
  | .functionDecl s => s.marks void
  | .structDecl s => s.marks void
  | .classDecl d => d.marks void
  | .namespaceDecl name children => .word "namespace" :: .exact name.token ::
      .operator openBrace :: (itemsMarks children ++ [.operator closeBrace])

/-- Items are written one after the other. -/
def itemsMarks : List Item → List Mark
  | [] => []
  | item :: items => item.marks ++ itemsMarks items

end

end

/-! ## Well-formed trees

Which types are known is not part of this.
-/

/-- The names are no keywords, an array has a positive size, and what the variable
    is set to is enclosed. -/
structure Variable.WellFormed (stop : String) (v : Variable) : Prop where
  type : v.type.name.text ∉ keywords
  name : v.name.text ∉ keywords
  size : ∀ n, v.type.arraySize = some n → 0 < n
  initial : ∀ run, v.initial = some run → Enclosed [stop] 0 run.tokens

/-- The same of a signature, which does not return an array. -/
structure Signature.WellFormed (s : Signature) : Prop where
  returns : s.returns.name.text ∉ keywords
  plain : s.returns.arraySize = none
  name : s.name.text ∉ keywords
  parameters : ∀ v ∈ s.parameters, v.WellFormed ","

/-- A member is well-formed if what it declares is. -/
def Member.WellFormed : Member → Prop
  | .field f => f.declared.WellFormed ";"
  | .functionPointer s => s.WellFormed

/-- The member is public, as far as it has an access level. -/
def Member.IsPublic : Member → Prop
  | .field f => f.access = .publicAccess
  | .functionPointer _ => True

/-- The members of a struct are public, as nothing in a struct says otherwise. -/
structure Struct.WellFormed (s : Struct) : Prop where
  name : s.name.text ∉ keywords
  members : ∀ members, s.members = some members → ∀ m ∈ members, m.WellFormed ∧ m.IsPublic

/-- A trait has no stars and no size. -/
structure TypeRef.IsTrait (t : TypeRef) : Prop where
  name : t.name.text ∉ keywords
  pointers : t.pointers = 0
  arraySize : t.arraySize = none

/-- All that is declared in the body of a class is well-formed. -/
structure ClassBody.WellFormed (b : ClassBody) : Prop where
  traits : ∀ t ∈ b.traits, t.IsTrait
  members : ∀ m ∈ b.members, m.WellFormed
  methods : ∀ s ∈ b.methods, s.WellFormed

/-- A class is well-formed if its body is, and its name is no keyword. -/
structure Class.WellFormed (d : Class) : Prop where
  name : d.name.text ∉ keywords
  body : ∀ body, d.body = some body → body.WellFormed

mutual

/-- There are no raw runs, and all declarations are well formed. -/
def Item.WellFormed : Item → Prop
  | .raw _ => False
  | .variableDecl v => v.WellFormed ";"
  | .functionDecl s => s.WellFormed
  | .structDecl s => s.WellFormed
  | .classDecl d => d.WellFormed
  | .namespaceDecl name children => name.text ∉ keywords ∧ ItemsWellFormed children

/-- Each of the items is well-formed. -/
def ItemsWellFormed : List Item → Prop
  | [] => True
  | item :: items => item.WellFormed ∧ ItemsWellFormed items

end

/-! ## What is written spells the tree -/

section

variable {marks first second : List Mark} {tokens : List Token} {void : Signature → Bool}

theorem written_nil : Written [] tokens ↔ tokens = [] :=
  List.forall₂_nil_left_iff

theorem written_cons {mark : Mark} :
    Written (mark :: marks) tokens ↔
      ∃ t rest, mark.Fits t ∧ Written marks rest ∧ tokens = t :: rest :=
  List.forall₂_cons_left_iff

theorem written_append :
    Written (first ++ second) tokens ↔
      ∃ front rest, Written first front ∧ Written second rest ∧ tokens = front ++ rest := by
  induction first generalizing tokens with
  | nil =>
    simp [written_nil]
  | cons mark marks ih =>
    simp only [List.cons_append, written_cons, ih]
    constructor
    · rintro ⟨t, _, ht, ⟨front, rest, hfront, hrest, rfl⟩, rfl⟩
      exact ⟨t :: front, rest, ⟨t, front, ht, hfront, rfl⟩, hrest, rfl⟩
    · rintro ⟨_, rest, ⟨t, front, ht, hfront, rfl⟩, hrest, rfl⟩
      exact ⟨t, front ++ rest, ht, ⟨front, rest, hfront, hrest, rfl⟩, rfl⟩

theorem written_singleton {mark : Mark} :
    Written [mark] tokens ↔ ∃ t, mark.Fits t ∧ tokens = [t] := by
  simp [written_cons, written_nil]

/-- Tokens that are given are written as they are. -/
theorem written_exact {given : List Token} : Written (given.map .exact) tokens ↔ tokens = given := by
  induction given generalizing tokens with
  | nil => exact written_nil
  | cons t given ih => simp [written_cons, ih, Mark.Fits]

/-- A token that a mark asks for, at a place unless the mark gives one. -/
def Mark.fill (place : Location) : Mark → Token
  | .exact t => t
  | .operator spelling => ⟨.operator spelling, place⟩
  | .word name => ⟨.identifier name, place⟩
  | .size n => ⟨.integer (toString n) n, place⟩

/-- Whatever is asked for can be written. -/
theorem written_fill (place : Location) (marks : List Mark) :
    Written marks (marks.map (Mark.fill place)) := by
  have hfits (mark : Mark) : mark.Fits (mark.fill place) := by
    cases mark with
    | exact t => rfl
    | operator spelling => exact Token.isOperator_singleton.2 rfl
    | word name => rfl
    | size n => exact ⟨_, rfl⟩
  induction marks with
  | nil => exact .nil
  | cons mark marks ih => exact .cons (hfits mark) ih

theorem isKeyword_of_fits {name : String} {t : Token} (h : (Mark.word name).Fits t)
    (hkey : name ∈ keywords) : t.isKeyword [name] = true :=
  Token.isKeyword_singleton.2 ⟨h, hkey⟩

theorem TypeRef.spelled_of_written {t : TypeRef} (hkey : t.name.text ∉ keywords)
    (h : Written t.marks tokens) : t.Spelled tokens := by
  have hstars {n : Nat} {stars : List Token} (h : Written (List.replicate n (.operator "*")) stars) :
      stars.length = n ∧ ∀ star ∈ stars, star.isOperator ["*"] = true := by
    induction n generalizing stars with
    | zero =>
      cases written_nil.1 h
      exact ⟨rfl, List.forall_mem_nil _⟩
    | succ n ih =>
      obtain ⟨star, stars, hstar, hothers, rfl⟩ := written_cons.1 h
      obtain ⟨hlength, hall⟩ := ih hothers
      exact ⟨congrArg (· + 1) hlength, List.forall_mem_cons.2 ⟨hstar, hall⟩⟩
  obtain ⟨name, pointers, size⟩ := t
  obtain ⟨_, stars, rfl, hbehind, rfl⟩ := written_cons.1 h
  obtain ⟨rfl, hall⟩ := hstars hbehind
  exact .intro size hkey hall

theorem sizeSpelled_of_written {size : Option Nat} (hpos : ∀ n, size = some n → 0 < n)
    (h : Written (sizeMarks size) tokens) : SizeSpelled size tokens := by
  cases size with
  | none =>
    cases written_nil.1 h
    exact .absent
  | some n =>
    simp only [sizeMarks, written_cons, written_nil] at h
    obtain ⟨opening, _, hopen, ⟨t, _, ⟨spelling, ht⟩, ⟨closing, _, hclose, rfl, rfl⟩, rfl⟩, rfl⟩ := h
    exact .present hopen ht (hpos n rfl) hclose

/-- Where nothing is closed that was not opened, no parenthesis closes outside of
    brackets. -/
theorem Enclosed.of_comma {depth : Int} {tokens : List Token} (h : Enclosed [","] depth tokens) :
    Enclosed [",", ")"] depth tokens := by
  induction tokens generalizing depth with
  | nil => exact enclosed_nil.2 (enclosed_nil.1 h)
  | cons t tokens ih =>
    obtain ⟨hinside, hzero, hstop, hrest⟩ := enclosed_cons.1 h
    refine enclosed_cons.2 ⟨hinside, hzero, fun hdepth => ?_, ih hrest⟩
    rw [show [",", ")"] = [","] ++ [")"] from rfl, Token.isOperator_append, hstop hdepth,
      Bool.false_or, Bool.eq_false_iff]
    -- a parenthesis that closes here would take the depth below zero
    intro hclose
    have hcloser : t.isOperator closers = true := by
      rw [Token.isOperator, Token.isOperator_singleton.1 hclose]
      rfl
    rw [hdepth, bracketStep_of_closer hcloser] at hrest
    exact not_enclosed_of_neg (by decide) tokens hrest

theorem initialSpelled_of_written {stops : List String} {initial : Option RawRun}
    (henclosed : ∀ run, initial = some run → Enclosed stops 0 run.tokens)
    (h : Written (initialMarks initial) tokens) : InitialSpelled stops initial tokens := by
  cases initial with
  | none =>
    cases written_nil.1 h
    exact .absent
  | some run =>
    obtain ⟨sign, rest, hsign, hrest, rfl⟩ := written_cons.1 h
    cases written_exact.1 hrest
    exact .present hsign (henclosed run rfl)

/-- A variable is spelled if what it is set to goes with the stops behind it. -/
theorem Variable.spelled_of_written {v : Variable} {stop : String} {stops : List String}
    (hv : v.WellFormed stop)
    (hstops : ∀ {tokens}, Enclosed [stop] 0 tokens → Enclosed stops 0 tokens)
    (h : Written v.marks tokens) : v.Spelled stops tokens := by
  obtain ⟨lead, _, hlead, hrest, rfl⟩ := written_append.1 h
  obtain ⟨_, _, rfl, htail, rfl⟩ := written_cons.1 hrest
  obtain ⟨size, initial, hsize, hinitial, rfl⟩ := written_append.1 htail
  exact .intro (TypeRef.spelled_of_written hv.type hlead) hv.name
    (sizeSpelled_of_written hv.size hsize)
    (initialSpelled_of_written (fun run hrun => hstops (hv.initial run hrun)) hinitial)

theorem Variable.declared_of_written {v : Variable} (hv : v.WellFormed ";")
    (h : Written (v.marks ++ [.operator ";"]) tokens) : v.Declared tokens := by
  obtain ⟨front, _, hfront, hrest, rfl⟩ := written_append.1 h
  obtain ⟨stop, hstop, rfl⟩ := written_singleton.1 hrest
  exact .intro (Variable.spelled_of_written hv id hfront) hstop

/-- One or more parts with commas between them. -/
theorem commaSpelled_of_written {α : Type} {write : α → List Mark} {spelled : α → List Token → Prop}
    {list : List α} (hne : list ≠ [])
    (hspelled : ∀ a ∈ list, ∀ {tokens}, Written (write a) tokens → spelled a tokens)
    (h : Written (commaMarks write list) tokens) : CommaSpelled spelled list tokens := by
  induction list generalizing tokens with
  | nil => exact absurd rfl hne
  | cons a others ih =>
    obtain ⟨hfirst, hothers⟩ := List.forall_mem_cons.1 hspelled
    cases others with
    | nil => exact .one (hfirst h)
    | cons b others =>
      obtain ⟨front, _, hfront, hrest, rfl⟩ := written_append.1 h
      obtain ⟨comma, rest, hcomma, hbehind, rfl⟩ := written_cons.1 hrest
      exact .more (hfirst hfront) hcomma (ih (List.cons_ne_nil b others) hothers hbehind)

theorem parameterListSpelled_of_written {s : Signature}
    (hs : ∀ v ∈ s.parameters, v.WellFormed ",") (h : Written (s.listMarks void) tokens) :
    ParameterListSpelled s.parameters tokens := by
  obtain ⟨opening, _, hopen, hrest, rfl⟩ := written_cons.1 h
  obtain ⟨inside, _, hinside, hend, rfl⟩ := written_append.1 hrest
  obtain ⟨closing, hclose, rfl⟩ := written_singleton.1 hend
  refine .intro hopen ?_ hclose
  split at hinside
  · next hvoid =>
    obtain ⟨t, ht, rfl⟩ := written_singleton.1 hinside
    rw [hvoid.1]
    exact .void ht
  · cases hlist : s.parameters with
    | nil =>
      rw [hlist] at hinside
      cases written_nil.1 hinside
      exact .none
    | cons v others =>
      rw [hlist] at hinside hs
      exact .some (commaSpelled_of_written (List.cons_ne_nil v others)
        (fun v hv _ h => Variable.spelled_of_written (hs v hv) Enclosed.of_comma h) hinside)

theorem Signature.declared_of_written {s : Signature} (hs : s.WellFormed)
    (h : Written (s.marks void) tokens) : s.Declared tokens := by
  obtain ⟨lead, _, hlead, hrest, rfl⟩ := written_append.1 h
  obtain ⟨_, _, rfl, htail, rfl⟩ := written_cons.1 hrest
  obtain ⟨list, _, hlist, hend, rfl⟩ := written_append.1 htail
  obtain ⟨stop, hstop, rfl⟩ := written_singleton.1 hend
  exact .intro (TypeRef.spelled_of_written hs.returns hlead) hs.plain hs.name
    (parameterListSpelled_of_written hs.parameters hlist) hstop

theorem Signature.pointerDeclared_of_written {s : Signature} (hs : s.WellFormed)
    (h : Written (s.pointerMarks void) tokens) : s.PointerDeclared tokens := by
  simp only [pointerMarks, written_cons, written_append, written_nil] at h
  obtain ⟨keyword, _, hkeyword, ⟨lead, _, hlead, ⟨opening, _, hopen, ⟨star, _, hstar, ⟨_, _, rfl,
    ⟨closing, _, hclose, ⟨list, _, hlist, ⟨stop, _, hstop, rfl, rfl⟩, rfl⟩, rfl⟩, rfl⟩, rfl⟩, rfl⟩,
    rfl⟩, rfl⟩ := h
  exact .intro (isKeyword_of_fits hkeyword (by decide))
    (TypeRef.spelled_of_written hs.returns hlead) hs.plain hopen hstar hs.name hclose
    (parameterListSpelled_of_written hs.parameters hlist) hstop

/-! ### Structs and classes -/

theorem structMembersSpelled_of_written {members : List Member}
    (hmembers : ∀ m ∈ members, m.WellFormed ∧ m.IsPublic)
    (h : Written (members.flatMap (Member.structMarks void)) tokens) :
    StructMembersSpelled members tokens := by
  induction members generalizing tokens with
  | nil =>
    cases written_nil.1 h
    exact .nil
  | cons m others ih =>
    obtain ⟨⟨hwell, hpublic⟩, hothers⟩ := List.forall_mem_cons.1 hmembers
    obtain ⟨front, rest, hfront, hrest, rfl⟩ := written_append.1 h
    refine .cons ?_ (ih hothers hrest)
    cases m with
    | field f =>
      obtain ⟨access, v⟩ := f
      cases (hpublic : access = .publicAccess)
      exact .field (Variable.declared_of_written hwell hfront)
    | functionPointer s => exact .pointer (Signature.pointerDeclared_of_written hwell hfront)

theorem Struct.spelled_of_written {s : Struct} (hs : s.WellFormed)
    (h : Written (s.marks void) tokens) : s.Spelled tokens := by
  obtain ⟨name, members⟩ := s
  obtain ⟨keyword, _, hkeyword, hrest, rfl⟩ := written_cons.1 h
  obtain ⟨_, _, rfl, htail, rfl⟩ := written_cons.1 hrest
  have hstruct := isKeyword_of_fits hkeyword (by decide)
  cases members with
  | none =>
    obtain ⟨stop, hstop, rfl⟩ := written_singleton.1 htail
    exact .forward hstruct hs.name hstop
  | some members =>
    simp only [written_cons, written_append, written_nil] at htail
    obtain ⟨opening, _, hopen, ⟨inside, _, hinside, ⟨closing, _, hclose, ⟨stop, _, hstop, rfl, rfl⟩,
      rfl⟩, rfl⟩, rfl⟩ := htail
    exact .whole hstruct hs.name hopen
      (structMembersSpelled_of_written (hs.members members rfl) hinside) hclose hstop

theorem labelAccess?_of_fits {access : Access} {t : Token} (hne : access ≠ .overrideAccess)
    (h : (Mark.word access.keyword).Fits t) : Parser.labelAccess? t = some access := by
  obtain ⟨lexeme, location⟩ := t
  cases (h : lexeme = _)
  cases access with
  | overrideAccess => exact absurd rfl hne
  | privateAccess => rfl
  | protectedAccess => rfl
  | publicAccess => rfl

/-- The methods of a class take no notice of the access level. -/
theorem methodsSpelled_of_written {methods : List Signature} {access : Access}
    (hmethods : ∀ s ∈ methods, s.WellFormed)
    (h : Written (methods.flatMap (Signature.marks void)) tokens) :
    ClassMembersSpelled access (methods.map .method) tokens := by
  induction methods generalizing tokens with
  | nil =>
    cases written_nil.1 h
    exact .nil
  | cons s others ih =>
    obtain ⟨hwell, hothers⟩ := List.forall_mem_cons.1 hmethods
    obtain ⟨front, rest, hfront, hrest, rfl⟩ := written_append.1 h
    exact .plain (.method (Signature.declared_of_written hwell hfront)) (ih hothers hrest)

/-- Whatever access level is in force, each field gets its own. -/
theorem membersSpelled_of_written {members : List Member} {methods : List ClassMember}
    {access : Access} (hmembers : ∀ m ∈ members, m.WellFormed) {rest : List Token}
    (h : Written (members.flatMap (Member.classMarks void)) tokens)
    (hrest : ∀ access, ClassMembersSpelled access methods rest) :
    ClassMembersSpelled access (members.map .data ++ methods) (tokens ++ rest) := by
  induction members generalizing tokens access with
  | nil =>
    cases written_nil.1 h
    exact hrest access
  | cons m others ih =>
    obtain ⟨hwell, hothers⟩ := List.forall_mem_cons.1 hmembers
    obtain ⟨front, behind, hfront, hbehind, rfl⟩ := written_append.1 h
    rw [List.append_assoc]
    cases m with
    | functionPointer s =>
      exact .plain (.pointer (Signature.pointerDeclared_of_written hwell hfront)) (ih hothers hbehind)
    | field f =>
      obtain ⟨level, v⟩ := f
      obtain ⟨lead, declared, hlead, hdeclared, rfl⟩ := written_append.1 hfront
      have hspelled := Variable.declared_of_written hwell hdeclared
      -- a label holds for all that follows, but every field has one of its own
      by_cases hoverride : level = .overrideAccess
      · subst hoverride
        obtain ⟨keyword, hkeyword, rfl⟩ := written_singleton.1 hlead
        exact .overriding (isKeyword_of_fits hkeyword (by decide)) (.field hspelled)
          (ih hothers hbehind)
      · have hlabel : Written [.word level.keyword, .operator ":"] lead := by
          cases level with
          | overrideAccess => exact absurd rfl hoverride
          | _ => exact hlead
        simp only [written_cons, written_nil] at hlabel
        obtain ⟨label, _, hword, ⟨colon, _, hcolon, rfl, rfl⟩, rfl⟩ := hlabel
        exact .label (labelAccess?_of_fits hoverride hword) hcolon
          (.plain (.field hspelled) (ih hothers hbehind))

theorem traitsSpelled_of_written {traits : List TypeRef} (htraits : ∀ t ∈ traits, t.IsTrait)
    (h : Written (traitMarks traits) tokens) : TraitsSpelled traits tokens := by
  rw [traitMarks] at h
  split at h
  · next hnil =>
    subst hnil
    cases written_nil.1 h
    exact .none
  · next hne =>
    obtain ⟨colon, rest, hcolon, hrest, rfl⟩ := written_cons.1 h
    refine .some hcolon (commaSpelled_of_written hne (fun t ht tokens h => ?_) hrest)
    obtain ⟨name, pointers, size⟩ := t
    obtain ⟨hkey, hpointers, hsize⟩ := htraits _ ht
    cases (hpointers : pointers = 0)
    cases (hsize : size = none)
    obtain ⟨_, rfl, rfl⟩ := written_singleton.1 h
    exact .intro hkey

theorem Class.spelled_of_written {d : Class} (hd : d.WellFormed)
    (h : Written (d.marks void) tokens) : d.Spelled tokens := by
  obtain ⟨name, body⟩ := d
  obtain ⟨keyword, _, hkeyword, hrest, rfl⟩ := written_cons.1 h
  obtain ⟨_, _, rfl, htail, rfl⟩ := written_cons.1 hrest
  have hclass := isKeyword_of_fits hkeyword (by decide)
  cases body with
  | none =>
    obtain ⟨stop, hstop, rfl⟩ := written_singleton.1 htail
    exact .forward hclass hd.name hstop
  | some body =>
    obtain ⟨traits, members, methods⟩ := body
    obtain ⟨htraits, hmembers, hmethods⟩ := hd.body _ rfl
    simp only [ClassBody.marks, written_cons, written_append, written_nil] at htail
    obtain ⟨list, _, hlist, ⟨opening, _, hopen, ⟨_, _, ⟨inside, listed, hinside, hlisted, rfl⟩,
      ⟨closing, _, hclose, ⟨stop, _, hstop, rfl, rfl⟩, rfl⟩, rfl⟩, rfl⟩, rfl⟩ := htail
    have hspelled : ClassMembersSpelled .privateAccess _ (inside ++ listed) :=
      membersSpelled_of_written hmembers hinside
        fun access => methodsSpelled_of_written hmethods hlisted
    have hwhole := Class.Spelled.whole hclass hd.name (traitsSpelled_of_written htraits hlist) hopen
      hspelled hclose hstop
    simpa [List.filterMap_append, List.filterMap_map, Function.comp_def, ClassMember.data?,
      ClassMember.method?] using hwhole

/-! ### Items -/

mutual

theorem Item.spelled_of_written : ∀ {item : Item} {tokens : List Token}, item.WellFormed →
    Written (item.marks void) tokens → item.Spelled tokens
  | .raw _, _, hwell, _ => absurd hwell id
  | .variableDecl _, _, hwell, h => .variableDecl (Variable.declared_of_written hwell h)
  | .functionDecl _, _, hwell, h => .functionDecl (Signature.declared_of_written hwell h)
  | .structDecl _, _, hwell, h => .structDecl (Struct.spelled_of_written hwell h)
  | .classDecl _, _, hwell, h => .classDecl (Class.spelled_of_written hwell h)
  | .namespaceDecl name children, _, hwell, h => by
    simp only [Item.marks, written_cons, written_append, written_nil] at h
    obtain ⟨keyword, _, hkeyword, ⟨_, _, rfl, ⟨opening, _, hopen, ⟨inside, _, hinside,
      ⟨closing, _, hclose, rfl, rfl⟩, rfl⟩, rfl⟩, rfl⟩, rfl⟩ := h
    exact .namespaceDecl (isKeyword_of_fits hkeyword (by decide)) hwell.1 hopen
      (itemsSpelled_of_written hwell.2 hinside) hclose

theorem itemsSpelled_of_written : ∀ {items : List Item} {tokens : List Token},
    ItemsWellFormed items → Written (itemsMarks void items) tokens → ItemsSpelled items tokens
  | [], _, _, h => by
    rw [itemsMarks, written_nil] at h
    cases h
    exact .nil
  | item :: items, _, hwell, h => by
    rw [itemsMarks, written_append] at h
    obtain ⟨front, rest, hfront, hrest, rfl⟩ := h
    refine .cons (Item.spelled_of_written hwell.1 hfront) (itemsSpelled_of_written hwell.2 hrest) ?_
    intro hraw
    cases item with
    | raw run => exact absurd hwell.1 id
    | _ => cases hraw

end

mutual

theorem Item.WellFormed.rawFree : ∀ {item : Item}, item.WellFormed → item.RawFree
  | .raw _, h => h
  | .variableDecl _, _ => trivial
  | .functionDecl _, _ => trivial
  | .structDecl _, _ => trivial
  | .classDecl _, _ => trivial
  | .namespaceDecl _ _, h => ItemsWellFormed.rawFree h.2

theorem ItemsWellFormed.rawFree : ∀ {items : List Item}, ItemsWellFormed items → ItemsRawFree items
  | [], _ => trivial
  | _ :: _, h => ⟨h.1.rawFree, ItemsWellFormed.rawFree h.2⟩

end

/-- However a well-formed tree is written, a parse gives it back: no declaration is
    passed through as a statement, and none is refused. -/
theorem parse_of_written {builtins lines : List String} {stop : Location} {items : List Item}
    (hwell : ItemsWellFormed items) (hscope : ItemsWellScoped builtins items)
    (h : Written (itemsMarks void items) tokens) :
    (parse builtins lines tokens stop).result =
        .ok ⟨(Parser.tokenAt ⟨stop, lines⟩ tokens 0).location, items⟩ ∧
      (parse builtins lines tokens stop).state.types.history = itemTypeNames items := by
  obtain ⟨hresult, hstate⟩ :=
    parse_of_spelled (itemsSpelled_of_written hwell h) hscope hwell.rawFree
  refine ⟨hresult, ?_⟩
  rw [hstate, TypeNames.history_registerAll]
  rfl

/-- A struct that points to its own kind, in a namespace, and a function of it
    behind the namespace:

        namespace n { struct node { node * next; }; } int length(node * first); -/
def nodeTree : List Item :=
  let node (name : String) : Variable :=
    ⟨⟨name, default⟩, ⟨⟨"node", default⟩, 1, none⟩, none⟩
  [.namespaceDecl ⟨"n", default⟩
      [.structDecl ⟨⟨"node", default⟩, some [.field ⟨.publicAccess, node "next"⟩]⟩],
    .functionDecl ⟨⟨"length", default⟩, ⟨⟨"int", default⟩, 0, none⟩, [node "first"]⟩]

theorem parse_of_written_nodeTree :
    let tokens := (itemsMarks (fun _ => true) nodeTree).map (Mark.fill default)
    (parse ["int"] [] tokens default).result = .ok ⟨default, nodeTree⟩ ∧
      (parse ["int"] [] tokens default).state.types.history = itemTypeNames nodeTree := by
  have hnode (stop name : String) (h : name ∉ keywords) :
      Variable.WellFormed stop ⟨⟨name, default⟩, ⟨⟨"node", default⟩, 1, none⟩, none⟩ :=
    ⟨show "node" ∉ keywords by decide, h, nofun, nofun⟩
  have hwell : ItemsWellFormed nodeTree := by
    refine ⟨⟨by decide, ⟨by decide, ?_⟩, trivial⟩, ⟨by decide, rfl, by decide, ?_⟩, trivial⟩
    · rintro _ ⟨⟩ m hm
      cases List.mem_singleton.1 hm
      exact ⟨hnode _ _ (by decide), rfl⟩
    · rintro v hv
      cases List.mem_singleton.1 hv
      exact hnode _ _ (by decide)
  have hscope : ItemsWellScoped ["int"] nodeTree := by
    refine ⟨⟨?_, trivial⟩, ⟨?_, ?_, ?_⟩, trivial⟩
    · rintro _ ⟨⟩ m hm
      cases List.mem_singleton.1 hm
      exact ⟨by decide, by decide⟩
    · decide
    · decide
    · rintro v hv
      cases List.mem_singleton.1 hv
      exact ⟨by decide, by decide⟩
  exact parse_of_written hwell hscope (written_fill default _)

end

end Flattener
