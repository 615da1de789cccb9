import Flattener.Flattening.Source
import Flattener.Proofs.Flattening.Lexemes
import Flattener.Proofs.Flattening.Pages
import Flattener.Proofs.Flattening.Words
import Flattener.Proofs.Grammar.Keeping
import Flattener.Proofs.Grammar.Soundness

/-!
# Flattened texts are read back

However the tree of a source is laid out, its text is read as exactly the lexemes
that the tree stands for (`lexemes_of_render`). Every name and token that the tree
keeps was read of the source, so that it can be read again in front of a delimiter.
What is left is to see that each form puts one there: stars are followed by a name,
and names and literals by a space, a bracket, a comma or a semicolon.
-/

namespace Flattener

/-! ## Tokens that are passed through -/

/-- All of the tokens can be read. -/
def Legible (tokens : List Token) : Prop :=
  ∀ t ∈ tokens, t.lexeme.Readable

theorem legible_cons {t : Token} {tokens : List Token} :
    Legible (t :: tokens) ↔ t.lexeme.Readable ∧ Legible tokens :=
  List.forall_mem_cons

theorem legible_append {tokens rest : List Token} :
    Legible (tokens ++ rest) ↔ Legible tokens ∧ Legible rest :=
  List.forall_mem_append

theorem Legible.flatMap {α : Type} {kept : α → List Token} {list : List α}
    (h : Legible (list.flatMap kept)) : ∀ x ∈ list, Legible (kept x) :=
  fun x hx t ht => h t (List.mem_flatMap.2 ⟨x, hx, ht⟩)

namespace Naming

variable {n : Naming}

/-- The tokens of an initializer, with a space between two of them. -/
theorem adds_initializer {run : RawRun} (h : Legible run.tokens) :
    Adds Anything (n.initializer run) run.lexemes Delimited := by
  obtain ⟨hfirst, hothers⟩ := legible_cons.1 h
  have hrest := Adds.flatMap (a := Delimited) fun t ht =>
    adds_gap.append ((hothers t ht).adds (n.tokenStyle t))
  have hall := (hfirst.adds (n.tokenStyle run.first)).append hrest
  have hlexemes : run.others.flatMap (fun t => [] ++ [t.lexeme]) = run.others.map (·.lexeme) :=
    List.map_eq_flatMap.symm
  rw [hlexemes] at hall
  exact hall

/-- What has to be allowed in front of tokens: a gap can be made behind others. -/
def before (behind : Bool) : Follower :=
  if behind then Delimited else Anything

theorem adds_leadOf (behind : Bool) (depth : Nat) (t : Token) :
    Adds (before behind) (leadOf depth t) [] (before behind) := by
  rw [leadOf]
  split
  · cases behind with
    | false => exact (adds_freshLine.append adds_dedent).ofAnything
    | true => exact (adds_freshLine.append adds_dedent).toAny
  · exact .nil

theorem adds_separation (behind : Bool) :
    Adds (before behind) (if behind then [.gap] else []) [] Anything := by
  cases behind with
  | false => exact .nil
  | true => exact adds_gap

theorem adds_trailOf (depth : Nat) (t : Token) :
    Adds Delimited (trailOf depth t) [] Delimited := by
  have hline : Adds Delimited [.newline] [] Anything :=
    adds_newline (delimited_cons (by decide))
  rw [trailOf]
  split
  · split
    · exact (hline.append adds_indent).toAny
    · exact hline.toAny
  · exact .nil

/-- The tokens of a raw run, at any depth. -/
theorem adds_lines {tokens : List Token} (h : Legible tokens) (depth : Nat) :
    Adds Delimited (n.lines depth true tokens) (tokens.map (·.lexeme)) Delimited := by
  induction tokens generalizing depth with
  | nil => exact .nil
  | cons t tokens ih =>
    obtain ⟨ht, htokens⟩ := legible_cons.1 h
    exact (((adds_leadOf true depth t).append (adds_separation true)).append
      ((ht.adds _).append (adds_trailOf depth t))).append (ih htokens _)

/-- A raw run begins and ends at the start of a line. -/
theorem adds_rawRun {run : RawRun} (h : Legible run.tokens) :
    Adds Anything (n.rawRun run) run.lexemes Anything := by
  obtain ⟨hfirst, hothers⟩ := legible_cons.1 h
  have hlines := (((adds_leadOf false 0 run.first).append (adds_separation false)).append
    ((hfirst.adds (n.tokenStyle run.first)).append (adds_trailOf 0 run.first))).append
      (adds_lines (n := n) hothers (parenDepth 0 run.first))
  have hall := hlines.append adds_freshLine
  rw [List.append_nil] at hall
  exact hall

/-! ## Declarations -/

theorem adds_terminator : Adds Delimited terminator [.operator ";"] Anything :=
  (adds_punctuation (c := ';') (by decide) .operator).append
    (adds_newline (delimited_cons (by decide))).ofAnything

/-- Lists with an element between them are the first one, and each other one behind
    the element. -/
theorem intercalate_cons {α : Type} (separator : α) (first : List α) (others : List (List α)) :
    [separator].intercalate (first :: others) = first ++ others.flatMap (separator :: ·) := by
  induction others generalizing first with
  | nil => rw [List.intercalate_singleton, List.flatMap_nil, List.append_nil]
  | cons second others ih =>
    rw [List.intercalate_cons_cons, ih, List.flatMap_cons, List.append_assoc]
    rfl

section

variable {path : Path} (hsep : ContinuesWord n.separator.toList) (hpath : path.Legible)
include hsep hpath

/-- A type ends in stars or in a space, so that a name can follow. -/
theorem adds_typeLead {t : TypeRef} (h : t.name.token.lexeme.Readable) :
    Adds Anything (n.typeLead path t) (n.typeLexemes path t) Unassigned := by
  have hname : Adds Anything [n.typeName path t] [.identifier (n.resolved path t.name.text)]
      Delimited := ((isWord_resolved hsep hpath h.isWord).adds _).ofAnything
  have hlead := hname.append (adds_space .plain)
  -- without stars, the space is in front of the name
  have hstars : Adds Anything (if t.pointers = 0 then []
      else [.write (String.ofList (List.replicate t.pointers '*')) .operator])
      (List.replicate t.pointers (.operator "*")) Unassigned := by
    split
    · next hzero =>
      rw [hzero]
      exact Adds.nil.toAny
    · next hne => exact adds_stars hne .operator
  exact hlead.append hstars

theorem adds_variableAs {v : Variable} (h : Legible v.kept) {name : String}
    (hname : IsWord name.toList) :
    Adds Anything (n.variableAs path name v) (n.variableLexemes path name v) Delimited := by
  obtain ⟨htype, hrest⟩ := legible_cons.1 h
  obtain ⟨-, hinitial⟩ := legible_cons.1 hrest
  have hlead := adds_typeLead hsep hpath htype
  have hsize : Adds Delimited (arraySuffix v.type) (sizeLexemes v.type.arraySize) Delimited := by
    rw [arraySuffix]
    cases v.type.arraySize with
    | none => exact .nil
    | some size =>
      have hopening := adds_punctuation (c := '[') (by decide) .operator
      have hsize := (readable_toString size).adds .number
      have hclosing := adds_punctuation (c := ']') (by decide) .operator
      exact hopening.append (hsize.append hclosing.toAny)
  have hinitial : Adds Delimited (n.initialSuffix v) (initialLexemes v.initial) Delimited := by
    rw [initialSuffix]
    cases hrun : v.initial with
    | none => exact .nil
    | some run =>
      rw [hrun] at hinitial
      have hsign : (Lexeme.operator "=").Readable := ⟨'=', [], [], rfl⟩
      have hequals := ((adds_space .plain).append (hsign.adds .operator)).append (adds_space .plain)
      exact hequals.append (adds_initializer hinitial)
  exact (hlead.append ((hname.adds .identifier).append hsize)).append hinitial

/-- A variable under its own name. -/
theorem adds_ownVariable {v : Variable} (h : Legible v.kept) :
    Adds Anything (n.variableAs path v.name.text v) (n.variableLexemes path v.name.text v)
      Delimited :=
  adds_variableAs hsep hpath h (legible_cons.1 (legible_cons.1 h).2).1.isWord

theorem adds_parameters {list : List Variable} (h : Legible (list.flatMap Variable.kept)) :
    Adds Delimited (n.parameters path list) (n.parameterLexemes path list) Anything := by
  have hopening := adds_punctuation (c := '(') (by decide) .operator
  have hclosing := adds_punctuation (c := ')') (by decide) .operator
  unfold parameters parameterLexemes
  cases list with
  | nil =>
    have hvoid : IsWord "void".toList := ⟨'v', ['o', 'i', 'd'], rfl, rfl, List.all_eq_true.1 rfl⟩
    exact (hopening.append (hvoid.adds .keyword).ofAnything).append hclosing
  | cons first others =>
    obtain ⟨hfirst, hothers⟩ := List.forall_mem_cons.1 h.flatMap
    have hcomma := (adds_punctuation (c := ',') (by decide) .operator).append
      (adds_space .plain).ofAnything
    have hrest := Adds.flatMap fun v hv =>
      hcomma.append (adds_ownVariable hsep hpath (hothers v hv))
    rw [List.map_cons, intercalate_cons, List.flatMap_map]
    exact (hopening.append ((adds_ownVariable hsep hpath hfirst).append hrest)).append hclosing

theorem adds_functionDecl {s : Signature} (h : Legible s.kept) :
    Adds Anything (n.functionDecl path s) (n.prototypeLexemes path s) Anything := by
  obtain ⟨hreturns, hrest⟩ := legible_cons.1 h
  obtain ⟨hname, hparameters⟩ := legible_cons.1 hrest
  have hqualified := (isWord_qualified hsep hpath hname.isWord).adds .identifier
  exact ((adds_typeLead hsep hpath hreturns).append
    (hqualified.append (adds_parameters hsep hpath hparameters))).append adds_terminator.ofAnything

theorem adds_functionPointer {s : Signature} (h : Legible s.kept) :
    Adds Anything (n.functionPointer path s) (n.pointerLexemes path s) Anything := by
  obtain ⟨hreturns, hrest⟩ := legible_cons.1 h
  obtain ⟨hname, hparameters⟩ := legible_cons.1 hrest
  -- a parenthesis is no sign, so it may follow the stars of the type
  have hopening := (adds_pointerOpening .operator).mono unassigned_of_delimited id
  have hclosing := adds_punctuation (c := ')') (by decide) .operator
  have hpointer := hopening.append ((hname.isWord.adds .identifier).append hclosing)
  exact (((adds_typeLead hsep hpath hreturns).append hpointer).append
    (adds_parameters hsep hpath hparameters).ofAnything).append adds_terminator.ofAnything

theorem adds_member {m : Member} (h : Legible m.kept) :
    Adds Anything (n.member path m) (n.memberLexemes path m) Anything := by
  cases m with
  | field f => exact (adds_ownVariable hsep hpath h).append adds_terminator
  | functionPointer s => exact adds_functionPointer hsep hpath h

theorem adds_structLead {name : Name} (h : name.token.lexeme.Readable) :
    Adds Anything (n.structLead path name)
      [.identifier "struct", .identifier (n.qualified path name.text)] Delimited := by
  have hkeyword : IsWord "struct".toList := ⟨'s', ['t', 'r', 'u', 'c', 't'], rfl, rfl, List.all_eq_true.1 rfl⟩
  have hname := (isWord_qualified hsep hpath h.isWord).adds .identifier
  exact (hkeyword.adds .keyword).ofAnything.append ((adds_space .plain).append hname.ofAnything)

/-- A struct that is only declared. -/
theorem adds_forward {name : Name} (h : name.token.lexeme.Readable) :
    Adds Anything (n.structLead path name ++ terminator) (n.forwardLexemes path name) Anything :=
  (adds_structLead hsep hpath h).append adds_terminator

/-- A struct around its members, which a comment may stand in front of. -/
theorem adds_structAround {name : Name} {comment : List Directive} {members : List Member}
    (h : name.token.lexeme.Readable) (hcomment : Adds Anything comment [] Anything)
    (hmembers : Legible (members.flatMap Member.kept)) :
    Adds Anything (n.structAround path name (comment ++ members.flatMap (n.member path)))
      (n.bodyLexemes path name members) Anything := by
  have hline : Adds Delimited [.newline] [] Anything := adds_newline (delimited_cons (by decide))
  have hopening := (adds_space .plain).append
    ((adds_punctuation (c := '\x7b') (by decide) .operator).ofAnything.append
      (hline.ofAnything.append adds_indent))
  have hinside := hcomment.append
    (Adds.flatMap fun m hm => adds_member hsep hpath (hmembers.flatMap m hm))
  have hclosing := adds_dedent.append ((adds_structEnd .operator).append hline.ofAnything)
  exact (((adds_structLead hsep hpath h).append hopening).append hinside).append hclosing

theorem adds_structDecl {s : Struct} (h : Legible s.kept) :
    Adds Anything (n.structDecl path s) (n.structLexemes path s) Anything := by
  obtain ⟨hname, hmembers⟩ := legible_cons.1 h
  rw [structDecl, structLexemes]
  cases hs : s.members with
  | none => exact adds_forward hsep hpath hname
  | some members =>
    rw [hs] at hmembers
    exact adds_structAround hsep hpath hname Adds.nil hmembers

/-- No name of a trait breaks the line of the comment. -/
theorem adds_traitComment {traits : List TypeRef} (h : Legible (traits.map (·.name.token))) :
    Adds Anything (n.traitComment path traits) [] Anything := by
  rw [traitComment]
  split
  · exact .nil
  · have hnames : '\n' ∉ (", ".intercalate
        (traits.map fun trait => n.resolved path trait.name.text)).toList := by
      refine not_mem_intercalate (by decide) fun name hname => ?_
      obtain ⟨trait, htrait, rfl⟩ := List.mem_map.1 hname
      have hword : IsWord trait.name.text.toList := (h _ (List.mem_map_of_mem htrait)).isWord
      exact (isWord_resolved hsep hpath hword).not_mem (by decide)
    have hbody : '\n' ∉ (" traits: " ++ ", ".intercalate
        (traits.map fun trait => n.resolved path trait.name.text)).toList := by
      rw [String.toList_append, List.mem_append]
      exact not_or.2 ⟨by decide, hnames⟩
    have hcomment := adds_comment hbody .comment
    rw [← String.append_assoc] at hcomment
    exact hcomment

/-- A class and its methods, which stand under its name. -/
theorem adds_classDecl {d : Class} (h : Legible d.kept) :
    Adds Anything ((n.classDecl path d).flatMap (·.directives)) (n.classLexemes path d)
      Anything := by
  obtain ⟨hname, hbody⟩ := legible_cons.1 h
  rw [classDecl, classLexemes]
  cases hd : d.body with
  | none => exact (adds_forward hsep hpath hname).append .nil
  | some body =>
    rw [hd] at hbody
    obtain ⟨htraits, hrest⟩ := legible_append.1 hbody
    obtain ⟨hmembers, hmethods⟩ := legible_append.1 hrest
    have hstruct := adds_structAround hsep hpath hname (adds_traitComment hsep hpath htraits) hmembers
    -- the methods are written as if the class were a namespace
    have hinner := hpath.snoc hname.isWord
    simp only [List.flatMap_cons, List.flatMap_nil, List.append_nil]
    exact hstruct.append
      (Adds.flatMap fun s hs => adds_functionDecl hsep hinner (hmethods.flatMap s hs))

end

/-! ## Whole trees -/

mutual

theorem adds_item (hsep : ContinuesWord n.separator.toList) : ∀ (item : Item) {path : Path},
    path.Legible → Legible item.kept →
    Adds Anything ((n.item path item).flatMap (·.directives)) (n.itemLexemes path item) Anything
  | .raw run, path, _, h => by
    rw [item, itemLexemes, List.flatMap_singleton]
    exact adds_rawRun h
  | .variableDecl v, path, hpath, h => by
    obtain ⟨-, hrest⟩ := legible_cons.1 h
    obtain ⟨hname, -⟩ := legible_cons.1 hrest
    have hqualified := isWord_qualified hsep hpath hname.isWord
    rw [item, itemLexemes, List.flatMap_singleton]
    exact (adds_variableAs hsep hpath h hqualified).append adds_terminator
  | .functionDecl s, path, hpath, h => by
    rw [item, itemLexemes, List.flatMap_singleton]
    exact adds_functionDecl hsep hpath h
  | .structDecl s, path, hpath, h => by
    rw [item, itemLexemes, List.flatMap_singleton]
    exact adds_structDecl hsep hpath h
  | .classDecl d, path, hpath, h => by
    rw [item, itemLexemes]
    exact adds_classDecl hsep hpath h
  | .namespaceDecl name children, path, hpath, h => by
    obtain ⟨hname, hchildren⟩ := legible_cons.1 h
    rw [item, itemLexemes]
    exact adds_items hsep children (hpath.snoc hname.isWord) hchildren

theorem adds_items (hsep : ContinuesWord n.separator.toList) : ∀ (items : List Item) {path : Path},
    path.Legible → Legible (itemsKept items) →
    Adds Anything ((n.items path items).flatMap (·.directives)) (n.itemsLexemes path items) Anything
  | [], path, _, _ => by
    rw [items, itemsLexemes]
    exact .nil
  | item :: items, path, hpath, h => by
    obtain ⟨hitem, hitems⟩ := legible_append.1 h
    rw [Naming.items, itemsLexemes, List.flatMap_append]
    exact (adds_item hsep item hpath hitem).append (adds_items hsep items hpath hitems)

end

end Naming

/-- A tree of legible tokens is rendered as a text that spells its lexemes. -/
theorem Scope.spells_of_render {s : Scope} {settings : PageSettings} {separator output : String}
    {builtins : List String} (hplain : settings.color = false)
    (hsep : ContinuesWord separator.toList) (hkept : Legible (itemsKept s.children))
    (h : s.render settings separator builtins = .ok output) :
    Spells output.toList (s.lexemes separator builtins) := by
  have hadds := Naming.adds_items (n := ⟨separator, builtins, typePathsOf [] s.children⟩) hsep
    s.children (List.forall_mem_nil _) hkept
  rw [output_of_render h]
  exact (hadds _ _ (Page.opens_empty hplain)).spells_text

/-- The tree of a source is parsed of its tokens. -/
theorem exists_parse_of_parseSource {options : Options} {source file : String} {tree : Scope}
    {count : Nat} (h : (parseSource options source file).result = .ok (tree, count)) :
    ∃ stop, (parse options.builtins (Text.splitLines source) (lex source file 1).tokens stop).result =
      .ok tree := by
  rw [parseSource] at h
  split at h
  · cases h
  · next tokens stop hlex =>
    have htokens : (lex source file 1).tokens = tokens := by
      rw [Lexing.toExcept] at hlex
      cases houtcome : (lex source file 1).outcome with
      | error error =>
        rw [houtcome] at hlex
        cases hlex
      | ok stop' =>
        rw [houtcome] at hlex
        cases hlex
        rfl
    refine ⟨stop, ?_⟩
    dsimp only at h
    split at h
    · cases h
    · next scope hscope =>
      cases h
      rw [htokens]
      exact hscope

/-- What can be read off a result, if there is one. -/
theorem exists_ok {ε α β : Type} {result : Except ε α} {view : α → β} {b : β}
    (h : result.toOption.map view = some b) : ∃ a, result = .ok a ∧ view a = b := by
  cases result with
  | error failure => cases h
  | ok a => exact ⟨a, rfl, Option.some.inj h⟩

/-- What can be read off the tree of a source. -/
theorem exists_tree {α : Type} {options : Options} {source file : String} {view : Scope × Nat → α}
    {a : α} (h : (parseSource options source file).result.toOption.map view = some a) :
    ∃ tree count, (parseSource options source file).result = .ok (tree, count) ∧
      view (tree, count) = a := by
  obtain ⟨parsed, hparsed, hview⟩ := exists_ok h
  exact ⟨parsed.1, parsed.2, hparsed, hview⟩

/-- What the tree of a source keeps was read of the source. -/
theorem legible_of_parseSource {options : Options} {source file : String} {tree : Scope}
    {count : Nat} (h : (parseSource options source file).result = .ok (tree, count)) :
    Legible (itemsKept tree.children) := by
  obtain ⟨stop, hparse⟩ := exists_parse_of_parseSource h
  obtain ⟨s, ⟨⟨tokens, hspelled, hrest⟩, -, -⟩, -⟩ := itemsRead_of_parse hparse
  intro t ht
  -- the tree is spelled by the first tokens, those that it keeps among them
  have hmem : t ∈ (lex source file 1).tokens := by
    rw [show (lex source file 1).tokens = tokens ++ s.rest from hrest]
    exact List.mem_append_left _ (hspelled.kept_subset ht)
  exact readable_of_mem_lexFrom _ t hmem

section

variable {options : Options} {source file : String} {tree : Scope} {count : Nat}
  {settings : PageSettings} {separator : String} {builtins : List String}

/-- However a tree is laid out, its text has no flaw, and its tokens are those that
    the tree stands for. There is a text if the indentation fits at the level of every
    line, and none if it does not. -/
theorem lexemes_of_render
    (hparse : (parseSource options source file).result = .ok (tree, count))
    (hplain : settings.color = false) (hsep : ∀ c ∈ separator.toList, isNameChar c = true) :
    (∀ output, tree.render settings separator builtins = .ok output → ∀ outputFile line,
      (lex output outputFile line).tokens.map (·.lexeme) = tree.lexemes separator builtins ∧
        ∃ stop, (lex output outputFile line).outcome = .ok stop) ∧
      (Text.Fits (tree.levels separator builtins) settings.indentWidth →
        ∃ output, tree.render settings separator builtins = .ok output) ∧
      (¬Text.Fits (tree.levels separator builtins) settings.indentWidth →
        tree.render settings separator builtins = .error .tooWide) := by
  refine ⟨fun output hrender outputFile line => ?_, fun h => ⟨_, Scope.render_eq_ok h⟩,
    Scope.render_eq_error⟩
  have hspells := Scope.spells_of_render hplain hsep (legible_of_parseSource hparse) hrender
  exact lexemes_of_spells hspells (.start output.toList outputFile line) rfl

end

/-- A class with a trait, an array and a method in a namespace, and a raw run. -/
def traitedClass : String :=
  "namespace n \x7b class a; class b : a \x7b int *x[3] = \x7b 1.5, 'c' \x7d; a m(b *k, int l); " ++
    "virtual void (*f)(); \x7d; \x7d x = y / 2;"

/-- Its text is read as its lexemes. -/
theorem lexemes_of_render_traitedClass :
    ∃ tree count output, (parseSource .standard traitedClass "in").result = .ok (tree, count) ∧
      tree.render .standard "_" standardTypes = .ok output ∧
      (lex output "out" 1).tokens.map (·.lexeme) = tree.lexemes "_" standardTypes ∧
      ∃ stop, (lex output "out" 1).outcome = .ok stop := by
  obtain ⟨tree, count, hparse, hlevels⟩ := @exists_tree _ .standard traitedClass "in"
    (fun parsed => parsed.1.levels "_" standardTypes) [0, 0, 1, 1, 1, 0, 0, 0] (by decide +kernel)
  obtain ⟨hread, hwrite, -⟩ :=
    @lexemes_of_render _ _ _ _ _ .standard "_" standardTypes hparse rfl (List.all_eq_true.1 rfl)
  have hfits : Text.Fits (tree.levels "_" standardTypes) 4 := by
    rw [hlevels]
    decide
  obtain ⟨output, houtput⟩ := hwrite hfits
  exact ⟨tree, count, output, hparse, houtput, hread output houtput "out" 1⟩

/-- An indentation that is not a number of characters is not written, also where it
    would be none. -/
theorem render_fails_of_vast_width :
    ∃ tree count,
      (parseSource .standard "struct A \x7b int x; \x7d;" "in").result = .ok (tree, count) ∧
      tree.render ⟨-100000000000000000000, false⟩ "_" standardTypes = .error .tooWide :=
  @exists_tree _ .standard "struct A \x7b int x; \x7d;" "in"
    (fun parsed => parsed.1.render ⟨-100000000000000000000, false⟩ "_" standardTypes)
    (.error .tooWide) (by decide +kernel)

end Flattener
