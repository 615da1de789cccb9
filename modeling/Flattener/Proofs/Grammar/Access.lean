import Flattener.Proofs.Grammar.Soundness
import Flattener.Proofs.Grammar.Unambiguity
import Flattener.Proofs.Tree.Blocks

/-!
# Who may use the members of a class

The body of a struct or class is a row of entries: labels, and members with or without
`override` in front of them (`Entry`, `EntriesSpelled`). Its tokens tell the entries
(`EntriesSpelled.unique`), and the entries tell the members. A field behind `override`
is one that overrides, and any other has the level of the last label in front of it, or
is private if there is none (`levelBehind`, `membersOf`); only labels change the level.

The members of a struct are fields and pointers to functions without a label and without
`override`, and all are public. Every struct and class that is read has the members that
its entries tell, and so has every struct and class of the tree that a parse comes to
(`members_of_entries`).
-/

namespace Flattener

/-! ## Entries -/

/-- One entry of the body of a struct or class: a label, or a pointer to a function or
    another declaration, with `override` in front of it or without. -/
inductive Entry
  | label (level : Access)
  | member (overrides : Bool) (declared : Signature ⊕ Declaration)

/-- `override`, or nothing. -/
inductive OverrideSpelled : Bool → List Token → Prop
  | absent : OverrideSpelled false []
  | present {keyword : Token} : keyword.isKeyword ["override"] = true →
    OverrideSpelled true [keyword]

/-- What an entry declares, apart from `override`. -/
inductive DeclaredSpelled : Signature ⊕ Declaration → List Token → Prop
  | pointer {f : Signature} {tokens : List Token} : f.PointerDeclared tokens →
    DeclaredSpelled (.inl f) tokens
  | declaration {d : Declaration} {tokens : List Token} : d.Declared tokens →
    DeclaredSpelled (.inr d) tokens

namespace Entry

/-- The level that a label sets. -/
def level? : Entry → Option Access
  | label level => some level
  | member _ _ => none

/-- The data member that an entry is under a level. -/
def data? (level : Access) : Entry → Option Member
  | member overrides (.inr (.variableDecl v)) =>
    some (.field ⟨if overrides then .overrideAccess else level, v⟩)
  | member _ (.inl f) => some (.functionPointer f)
  | _ => none

/-- The method that an entry is. -/
def method? : Entry → Option Signature
  | member _ (.inr (.functionDecl f)) => some f
  | _ => none

/-- A field or a pointer to a function, without `override`. -/
def IsPlain : Entry → Prop
  | member false (.inr (.variableDecl _)) => True
  | member false (.inl _) => True
  | _ => False

/-- A label is one of the three keywords, and a colon. -/
inductive Spelled : Entry → List Token → Prop
  | label {level : Access} {keyword colon : Token} : level ≠ .overrideAccess →
    keyword.isKeyword [level.keyword] = true → colon.isOperator [":"] = true →
    Spelled (.label level) [keyword, colon]
  | member {overrides : Bool} {declared : Signature ⊕ Declaration} {lead tokens : List Token} :
    OverrideSpelled overrides lead → DeclaredSpelled declared tokens →
    Spelled (.member overrides declared) (lead ++ tokens)

end Entry

/-- Entries in a row. -/
inductive EntriesSpelled : List Entry → List Token → Prop
  | nil : EntriesSpelled [] []
  | cons {e : Entry} {others : List Entry} {tokens rest : List Token} : e.Spelled tokens →
    EntriesSpelled others rest → EntriesSpelled (e :: others) (tokens ++ rest)

/-- The level behind some entries: the one that the last label among them sets. -/
def levelBehind (entries : List Entry) : Access :=
  ((entries.filterMap (·.level?)).getLast?).getD .privateAccess

/-- The data members of a class, each with the level behind the entries in front of it. -/
def membersOf (entries : List Entry) : List Member :=
  entries.zipIdx.filterMap fun (e, i) => e.data? (levelBehind (entries.take i))

/-! ## Tokens tell the entries -/

variable {rest rest' : List Token}

/-- A member of a class is what an entry declares. -/
theorem exists_classMemberSpelled {declared : Signature ⊕ Declaration} {tokens : List Token}
    (h : DeclaredSpelled declared tokens) :
    ∃ m, ClassMemberSpelled .publicAccess m tokens := by
  cases h with
  | pointer h => exact ⟨_, .pointer h⟩
  | declaration h =>
    cases h with
    | variableDecl h => exact ⟨_, .field h⟩
    | functionDecl h => exact ⟨_, .method h⟩

/-- What an entry declares begins neither with a brace nor with a label or `override`. -/
theorem DeclaredSpelled.begins {declared : Signature ⊕ Declaration} {tokens : List Token}
    (h : DeclaredSpelled declared tokens) :
    ∃ first others, tokens = first :: others ∧ first.isOperator [closeBrace] = false ∧
      Parser.labelAccess? first = none ∧ first.isKeyword ["override"] = false := by
  obtain ⟨m, hm⟩ := exists_classMemberSpelled h
  exact Parser.begins_of_classMember hm

/-- A pointer begins with a keyword, and any other declaration with a name. -/
theorem DeclaredSpelled.unambiguous : Unambiguous Anywhere DeclaredSpelled := by
  have hdiffers {f : Signature} {d : Declaration} {tokens tokens' rest rest' : List Token}
      (hf : f.PointerDeclared tokens) (hd : d.Declared tokens') :
      tokens ++ rest ≠ tokens' ++ rest' := fun heq => by
    obtain ⟨keyword, others, hkeyword, rfl⟩ := hf.begins
    obtain ⟨n, hkey, others', rfl⟩ := hd.exists_beginsWith
    rw [(List.cons.inj heq).1, Token.isKeyword_name hkey] at hkeyword
    cases hkeyword
  rintro _ _ tokens tokens' rest rest' (hf | hd) (hf' | hd') - - heq
  · obtain ⟨rfl, hrest⟩ := Signature.PointerDeclared.unambiguous hf hf' trivial trivial heq
    exact ⟨rfl, hrest⟩
  · exact absurd heq (hdiffers hf hd')
  · exact absurd heq.symm (hdiffers hf' hd)
  · obtain ⟨rfl, hrest⟩ := Declaration.Declared.unambiguous hd hd' trivial trivial heq
    exact ⟨rfl, hrest⟩

/-- What an entry declares is not taken for `override`. -/
theorem DeclaredSpelled.ne_override {declared : Signature ⊕ Declaration} {tokens : List Token}
    {keyword : Token} (h : DeclaredSpelled declared tokens)
    (hkeyword : keyword.isKeyword ["override"] = true) : tokens ++ rest ≠ keyword :: rest' :=
  fun heq => by
    obtain ⟨first, others, rfl, -, -, hfirst⟩ := h.begins
    rw [(List.cons.inj heq).1, hkeyword] at hfirst
    cases hfirst

/-- A label is found again by its keyword. -/
theorem labelAccess?_of_keyword {level : Access} {t : Token} (hlevel : level ≠ .overrideAccess)
    (h : t.isKeyword [level.keyword] = true) : Parser.labelAccess? t = some level := by
  obtain ⟨lexeme, location⟩ := t
  obtain ⟨hlexeme, -⟩ := Token.isKeyword_singleton.1 h
  cases (hlexeme : lexeme = _)
  cases level with
  | overrideAccess => exact absurd rfl hlevel
  | privateAccess => rfl
  | protectedAccess => rfl
  | publicAccess => rfl

/-- The first token of an entry tells whether it is a label, and of which level. -/
theorem Entry.Spelled.begins {e : Entry} {tokens : List Token} (h : e.Spelled tokens) :
    ∃ first others, tokens = first :: others ∧ first.isOperator [closeBrace] = false ∧
      Parser.labelAccess? first = e.level? := by
  cases h with
  | label hlevel hkeyword hcolon =>
    exact ⟨_, _, rfl, Token.isOperator_of_isKeyword hkeyword _,
      labelAccess?_of_keyword hlevel hkeyword⟩
  | member hlead hdeclared =>
    cases hlead with
    | absent =>
      obtain ⟨first, others, rfl, hbrace, hlabel, -⟩ := hdeclared.begins
      exact ⟨first, others, rfl, hbrace, hlabel⟩
    | present hkeyword =>
      exact ⟨_, _, rfl, Token.isOperator_of_isKeyword hkeyword _,
        Parser.labelAccess?_eq_none (Token.isKeyword_eq_false_of_ne hkeyword (by decide))⟩

theorem Entry.Spelled.unambiguous : Unambiguous Anywhere Entry.Spelled := by
  intro e e' tokens tokens' rest rest' h h' _ _ heq
  have hlevel : e.level? = e'.level? := by
    obtain ⟨first, others, rfl, -, hfirst⟩ := h.begins
    obtain ⟨first', others', rfl, -, hfirst'⟩ := h'.begins
    rw [← hfirst, ← hfirst', (List.cons.inj heq).1]
  cases h with
  | label _ _ _ =>
    cases h' with
    | label _ _ _ =>
      cases hlevel
      exact ⟨rfl, (List.cons.inj (List.cons.inj heq).2).2⟩
    | member _ _ => cases hlevel
  | member hlead hdeclared =>
    cases h' with
    | label _ _ _ => cases hlevel
    | member hlead' hdeclared' =>
      cases hlead with
      | absent =>
        cases hlead' with
        | absent =>
          obtain ⟨rfl, hrest⟩ :=
            DeclaredSpelled.unambiguous hdeclared hdeclared' trivial trivial heq
          exact ⟨rfl, hrest⟩
        | present hkeyword' => exact absurd heq (hdeclared.ne_override hkeyword')
      | present hkeyword =>
        cases hlead' with
        | absent => exact absurd heq.symm (hdeclared'.ne_override hkeyword)
        | present _ =>
          obtain ⟨rfl, hrest⟩ :=
            DeclaredSpelled.unambiguous hdeclared hdeclared' trivial trivial (List.cons.inj heq).2
          exact ⟨rfl, hrest⟩

/-- Entries go on up to the closing brace. -/
theorem EntriesSpelled.unambiguous : Unambiguous (Before [closeBrace]) EntriesSpelled := by
  intro entries entries' tokens tokens' rest rest' h h' hclose hclose' heq
  have hends {e : Entry} {tokens rest rest' : List Token} (h : e.Spelled tokens)
      (hclose : Before [closeBrace] rest') : tokens ++ rest ≠ rest' := fun heq => by
    obtain ⟨first, others, rfl, hfirst, -⟩ := h.begins
    obtain ⟨closing, _, rfl, hclosing⟩ := hclose
    rw [(List.cons.inj heq).1, hclosing] at hfirst
    cases hfirst
  induction h generalizing entries' tokens' with
  | nil =>
    cases h' with
    | nil => exact ⟨rfl, heq⟩
    | cons he' _ =>
      rw [List.append_assoc] at heq
      exact absurd heq.symm (hends he' hclose)
  | cons he _ ih =>
    rw [List.append_assoc] at heq
    cases h' with
    | nil => exact absurd heq (hends he hclose')
    | cons he' hothers' =>
      rw [List.append_assoc] at heq
      obtain ⟨rfl, heq⟩ := Entry.Spelled.unambiguous he he' trivial trivial heq
      obtain ⟨rfl, hrest⟩ := ih hothers' heq
      exact ⟨rfl, hrest⟩

/-- The tokens between the braces of a body tell its entries. -/
theorem EntriesSpelled.unique {entries entries' : List Entry} {inside : List Token}
    (h : EntriesSpelled entries inside) (h' : EntriesSpelled entries' inside) :
    entries = entries' := by
  let closing : Token := ⟨.operator closeBrace, default⟩
  have hclose : Before [closeBrace] [closing] := before_cons rfl []
  exact (EntriesSpelled.unambiguous h h' hclose hclose rfl).1

/-! ## Entries tell the members -/

/-- The data members that entries are, under a level that labels change. -/
def membersUnder (level : Access) : List Entry → List Member
  | [] => []
  | e :: entries => (e.data? level).toList ++ membersUnder (e.level?.getD level) entries

theorem levelBehind_concat (entries : List Entry) (e : Entry) :
    levelBehind (entries ++ [e]) = e.level?.getD (levelBehind entries) := by
  rw [levelBehind, levelBehind, List.filterMap_append, List.filterMap_cons, List.filterMap_nil]
  cases e.level? <;> simp

/-- To keep track of the level is to look for the last label. -/
theorem membersOf_eq (entries : List Entry) : membersOf entries =
    membersUnder .privateAccess entries := by
  have hbehind (front entries : List Entry) : (entries.zipIdx front.length).filterMap
      (fun (e, i) => e.data? (levelBehind ((front ++ entries).take i))) =
        membersUnder (levelBehind front) entries := by
    induction entries generalizing front with
    | nil => rfl
    | cons e entries ih =>
      have hrest := ih (front ++ [e])
      rw [List.length_append, List.length_singleton, List.append_assoc, List.singleton_append,
        levelBehind_concat] at hrest
      have hfront : (front ++ e :: entries).take front.length = front := List.take_left' rfl
      rw [List.zipIdx_cons, List.filterMap_cons, membersUnder, ← hrest]
      dsimp only
      rw [hfront]
      cases e.data? (levelBehind front) <;> rfl
  exact hbehind [] entries

theorem exists_entry_of_classMember {access : Access} {m : ClassMember} {tokens : List Token}
    (h : ClassMemberSpelled access m tokens) : ∃ declared, DeclaredSpelled declared tokens ∧
      ∀ overrides level, (if overrides then .overrideAccess else level) = access →
        m.data? = (Entry.member overrides declared).data? level ∧
          m.method? = (Entry.member overrides declared).method? := by
  cases h with
  | field h =>
    exact ⟨_, .declaration (.variableDecl h), fun _ _ hlevel => by rw [← hlevel]; exact ⟨rfl, rfl⟩⟩
  | pointer h => exact ⟨_, .pointer h, fun _ _ _ => ⟨rfl, rfl⟩⟩
  | method h => exact ⟨_, .declaration (.functionDecl h), fun _ _ _ => ⟨rfl, rfl⟩⟩

/-- The members of a class that are spelled under a level are those that entries tell. -/
theorem ClassMembersSpelled.exists_entries {level : Access} {members : List ClassMember}
    {inside : List Token} (h : ClassMembersSpelled level members inside) :
    ∃ entries, EntriesSpelled entries inside ∧
      members.filterMap (·.data?) = membersUnder level entries ∧
      members.filterMap (·.method?) = entries.filterMap (·.method?) := by
  have hmember {level : Access} {m : ClassMember} {members : List ClassMember}
      {declared : Signature ⊕ Declaration} {overrides : Bool} {entries : List Entry}
      (hm : m.data? = (Entry.member overrides declared).data? level ∧
        m.method? = (Entry.member overrides declared).method?)
      (hdata : members.filterMap (·.data?) = membersUnder level entries)
      (hmethods : members.filterMap (·.method?) = entries.filterMap (·.method?)) :
      (m :: members).filterMap (·.data?) =
          membersUnder level (.member overrides declared :: entries) ∧
        (m :: members).filterMap (·.method?) =
          (Entry.member overrides declared :: entries).filterMap (·.method?) := by
    rw [List.filterMap_cons, List.filterMap_cons, List.filterMap_cons, membersUnder, hm.1, hm.2,
      hdata, hmethods]
    refine ⟨?_, rfl⟩
    cases (Entry.member overrides declared).data? level <;> rfl
  induction h with
  | nil => exact ⟨[], .nil, rfl, rfl⟩
  | @label level level' keyword colon members rest hlabel hcolon _ ih =>
    obtain ⟨entries, hentries, hdata, hmethods⟩ := ih
    have hlevel : level' ≠ .overrideAccess := by
      rintro rfl
      exact absurd (List.mem_of_find?_eq_some hlabel) (by decide)
    exact ⟨.label level' :: entries,
      .cons (.label hlevel (Parser.isKeyword_of_label hlabel) hcolon) hentries, hdata, hmethods⟩
  | plain hm _ ih =>
    obtain ⟨entries, hentries, hdata, hmethods⟩ := ih
    obtain ⟨declared, hdeclared, hentry⟩ := exists_entry_of_classMember hm
    exact ⟨.member false declared :: entries, .cons (.member .absent hdeclared) hentries,
      hmember (hentry false _ rfl) hdata hmethods⟩
  | overriding hkeyword hm _ ih =>
    obtain ⟨entries, hentries, hdata, hmethods⟩ := ih
    obtain ⟨declared, hdeclared, hentry⟩ := exists_entry_of_classMember hm
    exact ⟨.member true declared :: entries, .cons (.member (.present hkeyword) hdeclared) hentries,
      hmember (hentry true _ rfl) hdata hmethods⟩

/-- The members of a struct are those that plain entries tell, all of them public. -/
theorem StructMembersSpelled.exists_entries {members : List Member} {inside : List Token}
    (h : StructMembersSpelled members inside) : ∃ entries, EntriesSpelled entries inside ∧
      (∀ e ∈ entries, e.IsPlain) ∧ members = entries.filterMap (·.data? .publicAccess) := by
  induction h with
  | nil => exact ⟨[], .nil, List.forall_mem_nil _, rfl⟩
  | cons hm _ ih =>
    obtain ⟨entries, hentries, hplain, rfl⟩ := ih
    cases hm with
    | field h =>
      exact ⟨_, .cons (.member .absent (.declaration (.variableDecl h))) hentries,
        List.forall_mem_cons.2 ⟨trivial, hplain⟩, rfl⟩
    | pointer h =>
      exact ⟨_, .cons (.member .absent (.pointer h)) hentries,
        List.forall_mem_cons.2 ⟨trivial, hplain⟩, rfl⟩

/-! ## Structs and classes -/

/-- The members of a class, if it has a body among the tokens, are those that the entries
    there tell, and it does not matter who takes the tokens for which entries. -/
def Class.ToldByEntries (d : Class) (tokens : List Token) : Prop :=
  ∀ body, d.body = some body → ∃ keyword listed opening inside closing stop,
    tokens = keyword :: d.name.token :: (listed ++ opening :: (inside ++ [closing, stop])) ∧
    TraitsSpelled body.traits listed ∧ opening.isOperator [openBrace] = true ∧
    closing.isOperator [closeBrace] = true ∧ (∃ entries, EntriesSpelled entries inside) ∧
    ∀ entries, EntriesSpelled entries inside → body.members = membersOf entries ∧
      body.methods = entries.filterMap (·.method?)

/-- So are those of a struct, where the entries are plain and the members are public. -/
def Struct.ToldByEntries (d : Struct) (tokens : List Token) : Prop :=
  ∀ members, d.members = some members → ∃ keyword opening inside closing stop,
    tokens = keyword :: d.name.token :: opening :: (inside ++ [closing, stop]) ∧
    opening.isOperator [openBrace] = true ∧ closing.isOperator [closeBrace] = true ∧
    (∃ entries, EntriesSpelled entries inside) ∧
    ∀ entries, EntriesSpelled entries inside → (∀ e ∈ entries, e.IsPlain) ∧
      members = entries.filterMap (·.data? .publicAccess)

theorem Class.Spelled.toldByEntries {d : Class} {tokens : List Token} (h : d.Spelled tokens) :
    d.ToldByEntries tokens := by
  cases h with
  | forward _ _ _ => exact nofun
  | @whole name traits members keyword opening closing stop listed inside _ _ hlisted hopen hmembers
      hclose hstop =>
    rintro _ ⟨⟩
    obtain ⟨entries, hentries, hdata, hmethods⟩ := hmembers.exists_entries
    refine ⟨keyword, listed, opening, inside, closing, stop, rfl, hlisted, hopen, hclose,
      ⟨entries, hentries⟩, fun others hothers => ?_⟩
    obtain rfl := hentries.unique hothers
    exact ⟨hdata.trans (membersOf_eq entries).symm, hmethods⟩

theorem Struct.Spelled.toldByEntries {d : Struct} {tokens : List Token} (h : d.Spelled tokens) :
    d.ToldByEntries tokens := by
  cases h with
  | forward _ _ _ => exact nofun
  | @whole name members keyword opening closing stop inside _ _ hopen hmembers hclose hstop =>
    rintro _ ⟨⟩
    obtain ⟨entries, hentries, hplain, hpublic⟩ := hmembers.exists_entries
    refine ⟨keyword, opening, inside, closing, stop, rfl, hopen, hclose, ⟨entries, hentries⟩,
      fun others hothers => ?_⟩
    obtain rfl := hentries.unique hothers
    exact ⟨hplain, hpublic⟩

/-! ## Blocks of a tree that is read -/

theorem ItemsSpelled.exists_infix {items : List Item} {tokens : List Token}
    (h : ItemsSpelled items tokens) {item : Item} (hitem : item ∈ items) :
    ∃ inside, inside <:+: tokens ∧ item.Spelled inside := by
  induction items generalizing tokens with
  | nil => cases hitem
  | cons first items ih =>
    cases h with
    | cons hfirst hothers _ =>
      rcases List.mem_cons.1 hitem with rfl | hitem
      · exact ⟨_, List.infix_append' [] _ _, hfirst⟩
      · obtain ⟨inside, hinside, hspelled⟩ := ih hothers hitem
        exact ⟨inside, hinside.trans (List.suffix_append _ _).isInfix, hspelled⟩

/-- The items of a block are spelled in a row. -/
theorem ItemsSpelled.exists_infix_block {items children : List Item} {path : Path}
    (hblock : Block items path children) {tokens : List Token} (h : ItemsSpelled items tokens) :
    ∃ inside, inside <:+: tokens ∧ ItemsSpelled children inside := by
  induction hblock generalizing tokens with
  | whole => exact ⟨tokens, List.infix_refl tokens, h⟩
  | inside hmem _ ih =>
    obtain ⟨around, haround, hspelled⟩ := h.exists_infix hmem
    cases hspelled with
    | @namespaceDecl _ _ keyword opening closing within _ _ _ hchildren _ =>
      obtain ⟨inside, hinside, hspelled⟩ := ih hchildren
      refine ⟨inside, hinside.trans (.trans ?_ haround), hspelled⟩
      exact ⟨[keyword, _, opening], [closing], rfl⟩

/-- The members of every struct and class that is read, and of those in the tree that a
    parse comes to, are told by the entries of the body. A field is one that overrides if
    `override` stands in front of it, and has the level of the last label in front of it
    otherwise, or is private without one; pointers to functions are members like fields,
    and methods are kept apart, all of them in their order. In a struct there are fields
    and pointers only, and they are public. -/
theorem members_of_entries :
    (∀ (c : Context) (s s' : State), s.types.Consistent →
      (∀ d, Parser.classDecl.Reads c s d s' →
        ∃ tokens, s.rest = tokens ++ s'.rest ∧ d.ToldByEntries tokens) ∧
      ∀ d, Parser.structDecl.Reads c s d s' →
        ∃ tokens, s.rest = tokens ++ s'.rest ∧ d.ToldByEntries tokens) ∧
    ∀ (builtins lines : List String) (tokens : List Token) (stop : Location) (tree : Scope),
      (parse builtins lines tokens stop).result = .ok tree →
      ∀ path children, Block tree.children path children →
        (∀ d, .classDecl d ∈ children → ∃ inside, inside <:+: tokens ∧ d.ToldByEntries inside) ∧
        ∀ d, .structDecl d ∈ children → ∃ inside, inside <:+: tokens ∧ d.ToldByEntries inside := by
  refine ⟨fun c s s' hs => ⟨fun d h => ?_, fun d h => ?_⟩, ?_⟩
  · obtain ⟨tokens, hspelled, -, hrest, -⟩ := (Parser.reads_classDecl hs).1 h
    exact ⟨tokens, hrest, hspelled.toldByEntries⟩
  · obtain ⟨tokens, hspelled, -, hrest, -⟩ := (Parser.reads_structDecl hs).1 h
    exact ⟨tokens, hrest, hspelled.toldByEntries⟩
  · intro builtins lines tokens stop tree h path children hblock
    obtain ⟨s, ⟨⟨read, hspelled, hrest⟩, -, -⟩, -, -, -⟩ := itemsRead_of_parse h
    have hread : read <:+: tokens := ⟨[], s.rest, hrest.symm⟩
    obtain ⟨around, haround, hchildren⟩ := hspelled.exists_infix_block hblock
    have hitem {item : Item} (hmem : item ∈ children) :
        ∃ inside, inside <:+: tokens ∧ item.Spelled inside := by
      obtain ⟨inside, hinside, hspelled⟩ := hchildren.exists_infix hmem
      exact ⟨inside, hinside.trans (haround.trans hread), hspelled⟩
    refine ⟨fun d hd => ?_, fun d hd => ?_⟩
    · obtain ⟨inside, hinside, hspelled⟩ := hitem hd
      cases hspelled with
      | classDecl hspelled => exact ⟨inside, hinside, hspelled.toldByEntries⟩
    · obtain ⟨inside, hinside, hspelled⟩ := hitem hd
      cases hspelled with
      | structDecl hspelled => exact ⟨inside, hinside, hspelled.toldByEntries⟩

/-- A struct with a pointer to a function, and a class with each of the labels:

        struct p { int x; virtual int (*f)(); };
        class a { int b; public: override int c; int d; int m(); protected: int e; }; -/
def labelledClass : List Token :=
  [Lexeme.identifier "struct", .identifier "p", .operator openBrace, .identifier "int",
    .identifier "x", .operator ";", .identifier "virtual", .identifier "int", .operator "(",
    .operator "*", .identifier "f", .operator ")", .operator "(", .operator ")", .operator ";",
    .operator closeBrace, .operator ";", .identifier "class", .identifier "a",
    .operator openBrace, .identifier "int", .identifier "b", .operator ";", .identifier "public",
    .operator ":", .identifier "override", .identifier "int", .identifier "c", .operator ";",
    .identifier "int", .identifier "d", .operator ";", .identifier "int", .identifier "m",
    .operator "(", .operator ")", .operator ";", .identifier "protected", .operator ":",
    .identifier "int", .identifier "e", .operator ";", .operator closeBrace,
    .operator ";"].map (Token.mk · default)

/-- The access of a field. -/
def Member.access? : Member → Option Access
  | .field f => some f.access
  | .functionPointer _ => none

/-- The field behind the one that overrides is public again. -/
theorem members_of_entries_labelledClass : ∃ tree declared members d body,
    (parse ["int"] [] labelledClass default).result = .ok tree ∧
    tree.children = [.structDecl declared, .classDecl d] ∧ declared.members = some members ∧
    d.body = some body ∧ members.map (·.access?) = [some .publicAccess, none] ∧
    body.members.map (·.access?) = [some .privateAccess, some .overrideAccess,
      some .publicAccess, some .protectedAccess] ∧
    body.methods.map (·.name.text) = ["m"] ∧
    (∃ inside, inside <:+: labelledClass ∧ declared.ToldByEntries inside) ∧
    ∃ inside, inside <:+: labelledClass ∧ d.ToldByEntries inside := by
  obtain ⟨tree, declared, members, d, body, hparse, hchildren, hmembers, hbody, hpublic, haccess,
      hmethods⟩ : ∃ tree declared members d body,
      (parse ["int"] [] labelledClass default).result = .ok tree ∧
      tree.children = [.structDecl declared, .classDecl d] ∧ declared.members = some members ∧
      d.body = some body ∧ members.map (·.access?) = [some .publicAccess, none] ∧
      body.members.map (·.access?) = [some .privateAccess, some .overrideAccess,
        some .publicAccess, some .protectedAccess] ∧
      body.methods.map (·.name.text) = ["m"] := ⟨_, _, _, _, _, rfl, rfl, rfl, rfl, rfl, rfl, rfl⟩
  obtain ⟨hclasses, hstructs⟩ :=
    members_of_entries.2 ["int"] [] labelledClass default tree hparse [] tree.children .whole
  exact ⟨tree, declared, members, d, body, hparse, hchildren, hmembers, hbody, hpublic, haccess,
    hmethods, hstructs declared (by simp [hchildren]), hclasses d (by simp [hchildren])⟩

end Flattener
