import Flattener.Proofs.Flattening.References
import Flattener.Proofs.Tree.Blocks

/-!
# What references are written as

Each reference of a tree is written once, in preorder, and what is written in its place
is the name that it resolves to under the names around it (`Scope.writes_resolved`). Outside
of methods these are the namespaces around it, so the innermost of them that declares the
name gives it its prefix (`Innermost`, `Scope.writes_innermost`).

A method is written as if its class were a namespace, and its references are looked up in
that way too. So they mean what a field of the class would, unless a namespace of the
name of the class stands next to it and declares the name (`Scope.writes_method`).
-/

namespace Flattener

/-! ## References among pieces -/

/-- The names under which the type of a reference is looked up. The class of a method
    is one of them. -/
def Reference.lookup (r : Reference) : Path :=
  r.around ++ r.class?.toList

/-- What is written for a reference depends on where it is looked up and on its type. -/
def Reference.mention (r : Reference) : Path × TypeRef :=
  (r.lookup, r.type)

/-- The types that a piece is about, and where they are looked up. -/
def Piece.mentions : Piece → List (Path × TypeRef)
  | traits path types => types.map (path, ·)
  | reference path type => [(path, type)]
  | _ => []

/-- The types that pieces are about, and where they are looked up. -/
def mentionsOf (pieces : List Piece) : List (Path × TypeRef) :=
  pieces.flatMap (·.mentions)

theorem mentionsOf_append (front behind : List Piece) :
    mentionsOf (front ++ behind) = mentionsOf front ++ mentionsOf behind :=
  List.flatMap_append

theorem mentionsOf_flatMap {α : Type} {pieces : α → List Piece} {path : Path}
    {types : α → List TypeRef} (h : ∀ a, mentionsOf (pieces a) = (types a).map (path, ·))
    (list : List α) : mentionsOf (list.flatMap pieces) = (list.flatMap types).map (path, ·) := by
  rw [mentionsOf, List.flatMap_assoc, List.map_flatMap]
  exact congrArg list.flatMap (funext h)

theorem map_mentionsOf (pieces : List Piece) :
    (mentionsOf pieces).map (·.2) = pieces.flatMap (·.types) := by
  rw [mentionsOf, List.map_flatMap]
  refine congrArg pieces.flatMap (funext fun piece => ?_)
  cases piece with
  | traits path types => exact List.map_map.trans (List.map_id types)
  | _ => rfl

/-- References outside of methods are looked up under the namespaces around them. -/
theorem map_mention (around : Path) (types : List TypeRef) :
    (types.map (⟨around, none, ·⟩)).map Reference.mention = types.map (around, ·) := by
  rw [List.map_map]
  refine List.map_congr_left fun type _ => ?_
  show (around ++ [], type) = _
  rw [List.append_nil]

namespace Naming

section

variable (n : Naming) (path : Path)

theorem mentions_parameters (list : List Variable) :
    mentionsOf (n.parameterPieces path list) = (list.map (·.type)).map (path, ·) := by
  cases list with
  | nil => rfl
  | cons first others =>
    have hothers : mentionsOf (others.flatMap fun v =>
        .plain [.write "," .operator, .write " " .plain] :: n.variablePieces path v.name.text v) =
        (others.flatMap fun v => [v.type]).map (path, ·) :=
      mentionsOf_flatMap (fun _ => rfl) others
    have htypes : others.flatMap (fun v => [v.type]) = others.map (·.type) :=
      List.map_eq_flatMap.symm
    rw [List.map_cons, List.map_cons, ← htypes, ← hothers]
    show (path, first.type) :: mentionsOf (_ ++ [.plain _]) = _
    rw [mentionsOf_append]
    exact congrArg _ (List.append_nil _)

theorem mentions_signature (name : List Directive) (s : Signature) :
    mentionsOf (n.signaturePieces path name s) = s.types.map (path, ·) := by
  show (path, s.returns) :: mentionsOf (n.parameterPieces path s.parameters ++ [.plain _]) = _
  rw [mentionsOf_append, mentions_parameters]
  exact congrArg _ (List.append_nil _)

theorem mentions_member (m : Member) :
    mentionsOf (n.memberPieces path m) = m.types.map (path, ·) := by
  cases m with
  | field f => rfl
  | functionPointer s => exact mentions_signature n path _ s

theorem mentions_body (name : Name) (inside : List Piece) :
    mentionsOf (bodyPieces path name inside) = mentionsOf inside := by
  show mentionsOf (inside ++ [.plain _]) = _
  rw [mentionsOf_append]
  exact List.append_nil _

theorem mentions_struct (s : Struct) : mentionsOf (n.structPieces path s) =
    ((s.members.getD []).flatMap (·.types)).map (path, ·) := by
  rw [structPieces]
  cases s.members with
  | none => rfl
  | some members => rw [mentions_body, mentionsOf_flatMap (mentions_member n path)]; rfl

/-- The references of methods are looked up under the name of the class. -/
theorem mentions_class (c : Class) : mentionsOf (n.classPieces path c) =
    ((Item.classDecl c).references path).map (·.mention) := by
  rw [classPieces, Item.references]
  cases c.body with
  | none => rfl
  | some body =>
    have hmethods : mentionsOf (body.methods.flatMap (n.functionPieces (path ++ [c.name.text]))) =
        (body.methods.flatMap (·.types)).map (path ++ [c.name.text], ·) :=
      mentionsOf_flatMap (fun s => mentions_signature n _ _ s) body.methods
    have hmembers := mentionsOf_flatMap (mentions_member n path) body.members
    rw [mentionsOf_append, mentions_body, hmethods, List.map_append, map_mention, ClassBody.types,
      List.map_append, ← hmembers, List.map_map]
    rfl

end

mutual

theorem mentions_item {n : Naming} : ∀ (item : Item) {path : Path},
    mentionsOf (n.itemPieces path item) = (item.references path).map (·.mention)
  | .raw run, path => by
    rw [itemPieces, Item.references]
    rfl
  | .variableDecl v, path => by
    rw [itemPieces, Item.references]
    exact (map_mention path [v.type]).symm
  | .functionDecl s, path => by
    rw [itemPieces, Item.references, map_mention]
    exact mentions_signature n path _ s
  | .structDecl s, path => by
    rw [itemPieces, Item.references, map_mention]
    exact mentions_struct n path s
  | .classDecl c, path => by
    rw [itemPieces]
    exact mentions_class n path c
  | .namespaceDecl name children, path => by
    rw [itemPieces, Item.references]
    exact mentions_items children

/-- The pieces of a tree are about its references, in order. -/
theorem mentions_items {n : Naming} : ∀ (items : List Item) {path : Path},
    mentionsOf (n.pieces path items) = (referencesOf path items).map (·.mention)
  | [], path => by
    rw [pieces, referencesOf]
    rfl
  | item :: items, path => by
    rw [pieces, referencesOf, mentionsOf_append, List.map_append, mentions_item item,
      mentions_items items]

end

end Naming

/-! ## Places in the text -/

/-- What is in a list of parts is in one of the parts. -/
theorem exists_part_of_flatMap_eq {α β : Type} {parts : α → List β} {list : List α}
    {front behind : List β} {b : β} (h : list.flatMap parts = front ++ b :: behind) :
    ∃ before a after earlier later, list = before ++ a :: after ∧
      parts a = earlier ++ b :: later ∧ front = before.flatMap parts ++ earlier := by
  induction list generalizing front with
  | nil => simp at h
  | cons a list ih =>
    rw [List.flatMap_cons] at h
    have hlater {rest : List β} (hfront : front = parts a ++ rest)
        (hrest : list.flatMap parts = rest ++ b :: behind) :
        ∃ before a' after earlier later, a :: list = before ++ a' :: after ∧
          parts a' = earlier ++ b :: later ∧ front = before.flatMap parts ++ earlier := by
      obtain ⟨before, a', after, earlier, later, rfl, hpart, rfl⟩ := ih hrest
      refine ⟨a :: before, a', after, earlier, later, rfl, hpart, ?_⟩
      rw [hfront, List.flatMap_cons, List.append_assoc]
    rcases List.append_eq_append_iff.1 h with ⟨rest, hfront, hrest⟩ | ⟨rest, hpart, hrest⟩
    · exact hlater hfront hrest
    · cases rest with
      | nil =>
        have hfront : front = parts a ++ [] := by rw [hpart, List.append_nil, List.append_nil]
        exact hlater hfront hrest.symm
      | cons b' later =>
        obtain ⟨rfl, -⟩ := List.cons.inj hrest
        exact ⟨[], a, list, front, later, rfl, hpart, rfl⟩

/-- Behind the text in front, another one is written: behind indentation, and in a color
    where colors are shown. -/
def PageSettings.Puts (settings : PageSettings) (front text output : String) : Prop :=
  ∃ width codes after, (settings.color = false → codes = []) ∧
    output = front ++ String.ofList (List.replicate width ' ') ++ Text.rendition codes ++ text ++ after

/-- A comment that names traits. -/
def traitsNamed (names : List String) : String :=
  "// traits: " ++ ", ".intercalate names

/-- The reference, behind those in front of it, is written as the name: as a type name
    of its own, or in the comment that names the traits of a class. -/
inductive Scope.Writes (s : Scope) (options : Options) (output : String) (front : List Reference)
    (r : Reference) (written : String) : Prop
  | typeName {before behind : List Piece} {style : Style} :
    s.pieces options = before ++ .reference r.lookup r.type :: behind →
    mentionsOf before = front.map (·.mention) →
    (s.naming options).typeName r.lookup r.type = .write written style →
    options.page.Puts ((s.naming options).textOf options.page before) written output →
    Writes s options output front r written
  | trait {before behind : List Piece} {earlier later : List TypeRef} {names others : List String} :
    s.pieces options = before ++ .traits r.lookup (earlier ++ r.type :: later) :: behind →
    mentionsOf before ++ earlier.map (r.lookup, ·) = front.map (·.mention) →
    names = earlier.map (fun t => (s.naming options).resolved r.lookup t.name.text) →
    others = later.map (fun t => (s.naming options).resolved r.lookup t.name.text) →
    (s.naming options).traitComment r.lookup (earlier ++ r.type :: later) =
      [.write (traitsNamed (names ++ written :: others)) .comment, .newline] →
    options.page.Puts ((s.naming options).textOf options.page before)
      (traitsNamed (names ++ written :: others)) output →
    Writes s options output front r written

section

variable {settings : PageSettings} {front text output : String}

theorem Page.puts_write (p : Page) (text : String) (style : Style) :
    p.settings.Puts p.text text (p.write text style).text := by
  rw [write]
  split
  · next hempty =>
    refine ⟨0, [], "", fun _ => rfl, ?_⟩
    rw [hempty]
    simp [Text.rendition]
  · obtain ⟨width, hwidth⟩ : ∃ width, (if p.atLineStart then p.indentation else "") =
        String.ofList (List.replicate width ' ') := by
      split
      · exact ⟨_, rfl⟩
      · exact ⟨0, rfl⟩
    dsimp only
    rw [hwidth, shown]
    split
    · next hcolor =>
      refine ⟨width, style.codes, Text.rendition [0], fun hplain => ?_, ?_⟩
      · rw [hplain, Bool.false_and] at hcolor
        cases hcolor
      · rw [Text.styled, ← String.append_assoc, ← String.append_assoc]
    · exact ⟨width, [], "", fun _ => rfl, by simp [Text.rendition]⟩

/-- Text is put behind what the directives in front of it wrote. -/
theorem Page.puts_performAll (settings : PageSettings) (front behind : List Directive)
    (text : String) (style : Style) :
    settings.Puts ((Page.empty settings).performAll front).text text
      ((Page.empty settings).performAll (front ++ .write text style :: behind)).text := by
  have hput := Page.puts_write ((Page.empty settings).performAll front) text style
  rw [Page.settings_performAll] at hput
  obtain ⟨width, codes, after, hcodes, htext⟩ := hput
  obtain ⟨added, hadded⟩ := Page.exists_text_performAll
    (((Page.empty settings).performAll front).write text style) behind
  refine ⟨width, codes, after ++ added, hcodes, ?_⟩
  rw [Page.performAll_append]
  show (Page.performAll (Page.write _ text style) _).text = _
  rw [hadded, htext, String.append_assoc]

/-- A piece puts the text that it begins with behind the pieces in front of it. -/
theorem Naming.puts_textOf {n : Naming} {piece : Piece} {style : Style} {others : List Directive}
    (h : piece.directives n = .write text style :: others) (before behind : List Piece) :
    settings.Puts (n.textOf settings before) text
      (n.textOf settings (before ++ piece :: behind)) := by
  have hput := Page.puts_performAll settings (before.flatMap (·.directives n))
    (others ++ behind.flatMap (·.directives n)) text style
  rwa [← List.cons_append, ← h, ← List.flatMap_cons, ← List.flatMap_append] at hput

end

theorem Naming.traitComment_append (n : Naming) (path : Path) (earlier : List TypeRef)
    (type : TypeRef) (later : List TypeRef) :
    n.traitComment path (earlier ++ type :: later) =
      [.write (traitsNamed (earlier.map (fun t => n.resolved path t.name.text) ++
        n.resolved path type.name.text :: later.map (fun t => n.resolved path t.name.text)))
        .comment, .newline] := by
  have hsome : ¬(earlier ++ type :: later).isEmpty = true := by simp
  rw [traitComment, if_neg hsome, List.map_append, List.map_cons]
  rfl

namespace Scope

variable {s : Scope} {options : Options} {output : String}

/-- Each reference is written as the name that it resolves to where it is looked up. -/
theorem writes_resolved
    (hrender : s.render options.page options.separator options.builtins = .ok output)
    {front behind : List Reference} {r : Reference} (hsplit : s.references = front ++ r :: behind) :
    s.Writes options output front r
      ((s.naming options).resolved r.lookup r.type.name.text) := by
  have hmentions : mentionsOf (s.pieces options) =
      front.map (·.mention) ++ r.mention :: behind.map (·.mention) := by
    rw [pieces, Naming.mentions_items, ← references, hsplit, List.map_append, List.map_cons]
  obtain ⟨before, piece, after, earlier, later, hpieces, hpiece, hfront⟩ :=
    exists_part_of_flatMap_eq hmentions
  have htext := text_of_render hrender
  rw [hpieces] at htext
  cases piece with
  | plain directives => simp [Piece.mentions] at hpiece
  | header path name => simp [Piece.mentions] at hpiece
  | reference path type =>
    -- the piece is about one reference only
    obtain ⟨rfl, hmention⟩ : earlier = [] ∧ (path, type) = r.mention := by
      cases earlier with
      | nil => exact ⟨rfl, (List.cons.inj hpiece).1⟩
      | cons first earlier => simp [Piece.mentions] at hpiece
    obtain ⟨rfl, rfl⟩ := Prod.mk.inj hmention
    rw [List.append_nil] at hfront
    refine .typeName hpieces hfront.symm rfl ?_
    rw [htext]
    exact Naming.puts_textOf rfl before after
  | traits path types =>
    obtain ⟨earlier', rest, rfl, rfl, hrest⟩ := List.map_eq_append_iff.1 hpiece
    obtain ⟨type, later', rfl, hmention, -⟩ := List.map_eq_cons_iff.1 hrest
    obtain ⟨rfl, rfl⟩ := Prod.mk.inj hmention
    have hcomment := (s.naming options).traitComment_append r.lookup earlier' r.type later'
    have hpiece : (Piece.traits r.lookup (earlier' ++ r.type :: later')).directives
        (s.naming options) = _ := hcomment
    refine .trait hpieces hfront.symm rfl rfl hcomment ?_
    rw [htext]
    exact Naming.puts_textOf hpiece before after

end Scope

/-! ## The innermost declaration -/

/-- What a name is written as under namespaces: behind the names of as many of them as can be,
    counted from the outermost one, such that they declare it, or else as it is. -/
inductive Innermost (items : List Item) (separator : String) (path : Path) (name : String) :
    String → Prop
  | declared {depth : Nat} : depth ≤ path.length → Declares items (path.take depth) name →
    (∀ deeper, depth < deeper → deeper ≤ path.length → ¬Declares items (path.take deeper) name) →
    Innermost items separator path name (separator.intercalate (path.take depth ++ [name]))
  | undeclared : (∀ depth ≤ path.length, ¬Declares items (path.take depth) name) →
    Innermost items separator path name name

/-- Under the same namespaces, a name is written in one way only. -/
theorem Innermost.unique {items : List Item} {separator : String} {path : Path}
    {name written written' : String} (h : Innermost items separator path name written)
    (h' : Innermost items separator path name written') : written = written' := by
  cases h with
  | @declared depth hdepth hdeclares hinner =>
    cases h' with
    | @declared depth' hdepth' hdeclares' hinner' =>
      obtain hless | rfl | hless := Nat.lt_trichotomy depth depth'
      · exact absurd hdeclares' (hinner depth' hless hdepth')
      · rfl
      · exact absurd hdeclares (hinner' depth hless hdepth)
    | undeclared hnone => exact absurd hdeclares (hnone depth hdepth)
  | undeclared hnone =>
    cases h' with
    | @declared depth' hdepth' hdeclares' _ => exact absurd hdeclares' (hnone depth' hdepth')
    | undeclared _ => rfl

section

variable {items : List Item} {separator : String} {path : Path} {last name written : String}

/-- What the innermost namespace declares is meant. -/
theorem innermost_of_declares (separator : String) (h : Declares items path name) :
    Innermost items separator path name (separator.intercalate (path ++ [name])) := by
  have hwhole : Declares items (path.take path.length) name := by rwa [List.take_length]
  have hinner := @Innermost.declared items separator path name _ le_rfl hwhole
    fun deeper hdeeper hlength => absurd hlength (Nat.not_le_of_lt hdeeper)
  rwa [List.take_length] at hinner

/-- A namespace that does not declare the name makes no difference to it. -/
theorem Innermost.of_snoc (h : Innermost items separator (path ++ [last]) name written)
    (hlast : ¬Declares items (path ++ [last]) name) :
    Innermost items separator path name written := by
  have htake {depth : Nat} (hdepth : depth ≤ path.length) :
      (path ++ [last]).take depth = path.take depth := List.take_append_of_le_length hdepth
  have hlength : path.length ≤ (path ++ [last]).length := by simp
  cases h with
  | @declared depth hdepth hdeclares hinner =>
    have hshort : depth ≤ path.length := by
      refine Nat.le_of_not_lt fun hless => hlast ?_
      have hall : (path ++ [last]).length ≤ depth := by
        rw [List.length_append]
        exact hless
      rwa [List.take_of_length_le hall] at hdeclares
    rw [htake hshort] at hdeclares ⊢
    refine .declared hshort hdeclares fun deeper hdeeper hle => ?_
    rw [← htake hle]
    exact hinner deeper hdeeper (hle.trans hlength)
  | undeclared hnone =>
    refine .undeclared fun depth hdepth => ?_
    rw [← htake hdepth]
    exact hnone depth (hdepth.trans hlength)

end

namespace Scope

variable {s : Scope} {options : Options} {output : String}

/-- A type is declared for references if it stands in a block. -/
theorem mem_declared_naming {path : Path} {name : String} :
    path ++ [name] ∈ (s.naming options).declared ↔ Declares s.children path name :=
  declares_iff.symm

/-- A name resolves to the innermost declaration under the names it is looked up under. -/
theorem innermost_resolved (s : Scope) (options : Options) (path : Path) (name : String) :
    Innermost s.children options.separator path name ((s.naming options).resolved path name) := by
  rcases (s.naming options).resolved_cases path name with ⟨outer, hmeans, hwritten⟩ | ⟨hnone, hwritten⟩
  · have houter : path.take outer.length = outer := (List.prefix_iff_eq_take.1 hmeans.around).symm
    have hdeclared : Innermost s.children options.separator path name
        (options.separator.intercalate (path.take outer.length ++ [name])) := by
      refine .declared hmeans.around.length_le ?_ fun deeper hdeeper hlength hdeclares => ?_
      · rw [houter]
        exact mem_declared_naming.1 hmeans.declared
      · have hprefix := hmeans.innermost _ (List.take_prefix deeper path)
          (mem_declared_naming.2 hdeclares)
        have hle := hprefix.length_le
        rw [List.length_take] at hle
        omega
    rw [houter] at hdeclared
    rw [hwritten]
    exact hdeclared
  · rw [hwritten]
    exact .undeclared fun depth _ hdeclares =>
      hnone _ (List.take_prefix depth path) (mem_declared_naming.2 hdeclares)

theorem writes_of_innermost
    (hrender : s.render options.page options.separator options.builtins = .ok output)
    {front behind : List Reference} {r : Reference} {written : String}
    (hsplit : s.references = front ++ r :: behind)
    (hinner : Innermost s.children options.separator r.lookup r.type.name.text written) :
    s.Writes options output front r written := by
  rw [hinner.unique (innermost_resolved s options r.lookup r.type.name.text)]
  exact writes_resolved hrender hsplit

/-- The references of a tree are its types, in preorder. -/
theorem map_type_references (s : Scope) :
    s.references.map (·.type) = s.nodes.filterMap (·.typeRef?) := by
  have hmentions := @Naming.mentions_items (s.naming .standard) s.children []
  have htypes : ((s.naming .standard).pieces [] s.children).flatMap (·.types) =
      s.nodes.filterMap (·.typeRef?) := (Naming.composes_items s.children).types
  rw [← htypes, ← map_mentionsOf, hmentions, List.map_map]
  rfl

/-- A tree is rendered if the indentation fits at the level of every line, and its
    references are its types in preorder. Each of them that is in no method is written as
    the name of the innermost declaration around it. -/
theorem writes_innermost (tree : Scope) (options : Options) :
    tree.references.map (·.type) = tree.nodes.filterMap (·.typeRef?) ∧
      (Text.Fits (tree.levels options.separator options.builtins) options.page.indentWidth →
        ∃ output, tree.render options.page options.separator options.builtins = .ok output) ∧
      ∀ output, tree.render options.page options.separator options.builtins = .ok output →
        ∀ front r behind, tree.references = front ++ r :: behind → r.class? = none →
          ∃ written, tree.Writes options output front r written ∧
            Innermost tree.children options.separator r.around r.type.name.text written := by
  refine ⟨tree.map_type_references, fun hfits => ⟨_, render_eq_ok hfits⟩, ?_⟩
  intro output hrender front r behind hsplit hclass
  refine ⟨_, writes_resolved hrender hsplit, ?_⟩
  have hlookup : r.lookup = r.around := by
    rw [Reference.lookup, hclass]
    exact List.append_nil _
  rw [hlookup]
  exact innermost_resolved tree options r.around r.type.name.text

/-- A source is flattened to what its tree is written as, with the references and the
    paths of that tree. -/
theorem exists_written {source output : String} {references : List Reference} {paths : List Path}
    (h : (parseSource .standard source "in").result.toOption.map (fun parsed =>
      (parsed.1.references, typePathsOf [] parsed.1.children,
        parsed.1.render .standard "_" standardTypes)) = some (references, paths, .ok output)) :
    ∃ tree count, (parseSource .standard source "in").result = .ok (tree, count) ∧
      (flatten .standard source "in").result = .ok ⟨"in", tree, output, count⟩ ∧
      tree.render Options.standard.page "_" standardTypes = .ok output ∧
      tree.references = references ∧ typePathsOf [] tree.children = paths := by
  obtain ⟨tree, count, hparse, hview⟩ := exists_tree h
  obtain ⟨hreferences, hview⟩ := Prod.mk.inj hview
  obtain ⟨hpaths, hrender⟩ := Prod.mk.inj hview
  exact ⟨tree, count, hparse, result_flatten_of_render hparse hrender, hrender, hreferences, hpaths⟩

/-- A type of one name in two namespaces, one of which declares it only where it is opened
    again. -/
def reopenedNamespace : String :=
  "struct T; namespace a \x7b namespace b \x7b T *p; \x7d \x7d namespace b \x7b namespace a \x7b T *q; " ++
    "\x7d \x7d namespace a \x7b namespace b \x7b class T : T \x7b T *next; \x7d; \x7d \x7d"

/-- The name means that type in both of the blocks, and the outer one where the namespaces
    are the other way round. -/
theorem writes_innermost_reopenedNamespace :
    ∃ tree count output, (parseSource .standard reopenedNamespace "in").result = .ok (tree, count) ∧
      (flatten .standard reopenedNamespace "in").result = .ok ⟨"in", tree, output, count⟩ ∧
      output = "struct T;\na_b_T *a_b_p;\nT *b_a_q;\nstruct a_b_T \x7b\n" ++
        "    // traits: a_b_T\n    a_b_T *next;\n\x7d;\n" ∧
      ∃ p q trait next, tree.references = [p, q, trait, next] ∧
        tree.Writes .standard output [] p "a_b_T" ∧ tree.Writes .standard output [p] q "T" ∧
        tree.Writes .standard output [p, q] trait "a_b_T" := by
  obtain ⟨tree, count, hparse, hflatten, hrender, hreferences, hpaths⟩ := @exists_written
    reopenedNamespace ("struct T;\na_b_T *a_b_p;\nT *b_a_q;\nstruct a_b_T \x7b\n" ++
      "    // traits: a_b_T\n    a_b_T *next;\n\x7d;\n")
    [⟨["a", "b"], none, ⟨⟨"T", "in", 1, 39⟩, 1, none⟩⟩,
      ⟨["b", "a"], none, ⟨⟨"T", "in", 1, 77⟩, 1, none⟩⟩,
      ⟨["a", "b"], none, ⟨⟨"T", "in", 1, 125⟩, 0, none⟩⟩,
      ⟨["a", "b"], none, ⟨⟨"T", "in", 1, 129⟩, 1, none⟩⟩]
    [["T"], ["a", "b", "T"]] (by decide +kernel)
  obtain ⟨-, -, hwritten⟩ := writes_innermost tree .standard
  have hinner : Innermost tree.children "_" ["a", "b"] "T" "a_b_T" :=
    innermost_of_declares "_" (declares_iff.2 (by rw [hpaths]; decide))
  have houter : Innermost tree.children "_" ["b", "a"] "T" "T" := by
    refine @Innermost.declared _ _ _ _ 0 (by decide) (declares_iff.2 (by rw [hpaths]; decide)) ?_
    intro deeper hdeeper hlength hdeclares
    rw [declares_iff, hpaths] at hdeclares
    obtain rfl | rfl : deeper = 1 ∨ deeper = 2 := by
      have : deeper ≤ 2 := hlength
      omega
    · exact absurd hdeclares (by decide)
    · exact absurd hdeclares (by decide)
  refine ⟨tree, count, _, hparse, hflatten, rfl, _, _, _, _, hreferences, ?_, ?_, ?_⟩
  · obtain ⟨written, hwrites, hmeans⟩ := hwritten _ hrender [] _ _ hreferences rfl
    rwa [hmeans.unique hinner] at hwrites
  · obtain ⟨written, hwrites, hmeans⟩ := hwritten _ hrender [_] _ _ hreferences rfl
    rwa [hmeans.unique houter] at hwrites
  · obtain ⟨written, hwrites, hmeans⟩ := hwritten _ hrender [_, _] _ _ hreferences rfl
    rwa [hmeans.unique hinner] at hwrites

/-- A type in a method is written as it would be in a field of the class, unless a
    namespace of the name of the class, next to it, declares the type. Then it is taken for
    the type of that namespace. -/
theorem writes_method {tree : Scope} {options : Options} {output : String}
    (hrender : tree.render options.page options.separator options.builtins = .ok output)
    {front behind : List Reference} {r : Reference} {aggregate : String}
    (hsplit : tree.references = front ++ r :: behind) (hclass : r.class? = some aggregate) :
    ∃ written, tree.Writes options output front r written ∧
      (¬Declares tree.children (r.around ++ [aggregate]) r.type.name.text →
        Innermost tree.children options.separator r.around r.type.name.text written ∧
        ∀ field : Field, field.declared.type.name.text = r.type.name.text → ∃ style others,
          (tree.naming options).fieldDecl r.around field = .write written style :: others) ∧
      (Declares tree.children (r.around ++ [aggregate]) r.type.name.text →
        written = options.separator.intercalate (r.around ++ [aggregate, r.type.name.text])) := by
  have hlookup : r.lookup = r.around ++ [aggregate] := by
    rw [Reference.lookup, hclass]
    rfl
  have hresolved := innermost_resolved tree options r.lookup r.type.name.text
  refine ⟨_, writes_resolved hrender hsplit, fun hnone => ?_, fun hdeclares => ?_⟩
  · rw [hlookup] at hresolved ⊢
    have hinner := hresolved.of_snoc hnone
    refine ⟨hinner, fun field hfield => ?_⟩
    have hsame := (innermost_resolved tree options r.around r.type.name.text).unique hinner
    rw [← hsame, ← hfield]
    exact ⟨_, _, rfl⟩
  · rw [hlookup] at hresolved ⊢
    rw [hresolved.unique (innermost_of_declares _ hdeclares), List.append_assoc]
    rfl

/-- Two classes, one of which has its name in common with a namespace. -/
def sisterClasses : String :=
  "struct T; class C \x7b T f(); \x7d; class D \x7b T f(); \x7d; namespace C \x7b struct T; \x7d"

/-- Only the method of that one returns the type of the namespace. -/
theorem writes_method_sisterClasses :
    ∃ tree count output, (parseSource .standard sisterClasses "in").result = .ok (tree, count) ∧
      (flatten .standard sisterClasses "in").result = .ok ⟨"in", tree, output, count⟩ ∧
      output = "struct T;\nstruct C \x7b\n\x7d;\nC_T C_f(void);\nstruct D \x7b\n\x7d;\n" ++
        "T D_f(void);\nstruct C_T;\n" ∧
      ∃ first second, tree.references = [first, second] ∧
        first.class? = some "C" ∧ second.class? = some "D" ∧
        tree.Writes .standard output [] first "C_T" ∧
        tree.Writes .standard output [first] second "T" := by
  obtain ⟨tree, count, hparse, hflatten, hrender, hreferences, hpaths⟩ := @exists_written
    sisterClasses ("struct T;\nstruct C \x7b\n\x7d;\nC_T C_f(void);\nstruct D \x7b\n\x7d;\n" ++
      "T D_f(void);\nstruct C_T;\n")
    [⟨[], some "C", ⟨⟨"T", "in", 1, 21⟩, 0, none⟩⟩, ⟨[], some "D", ⟨⟨"T", "in", 1, 41⟩, 0, none⟩⟩]
    [["T"], ["C"], ["D"], ["C", "T"]] (by decide +kernel)
  have houter : Innermost tree.children "_" [] "T" "T" :=
    innermost_of_declares "_" (declares_iff.2 (by rw [hpaths]; decide))
  refine ⟨tree, count, _, hparse, hflatten, rfl, _, _, hreferences, rfl, rfl, ?_, ?_⟩
  · obtain ⟨written, hwrites, -, htaken⟩ :=
      @writes_method _ .standard _ hrender [] _ _ _ hreferences rfl
    rwa [htaken (declares_iff.2 (by rw [hpaths]; decide))] at hwrites
  · obtain ⟨written, hwrites, hmeans, -⟩ :=
      @writes_method _ .standard _ hrender [_] _ _ _ hreferences rfl
    have hnone : ¬Declares tree.children ["D"] "T" := fun hdeclares =>
      absurd (declares_iff.1 hdeclares) (by rw [hpaths]; decide)
    rwa [(hmeans hnone).1.unique houter] at hwrites

/-- A class with its name in common with a namespace, and a type in a method and a field. -/
def namesakeClass : String :=
  "struct T; class C \x7b T f(); T g; \x7d; namespace C \x7b struct T; \x7d"

/-- The method and the field refer to different types by the same name. -/
theorem method_unlike_field_namesakeClass :
    ∃ tree count output, (parseSource .standard namesakeClass "in").result = .ok (tree, count) ∧
      (flatten .standard namesakeClass "in").result = .ok ⟨"in", tree, output, count⟩ ∧
      output = "struct T;\nstruct C \x7b\n    T g;\n\x7d;\nC_T C_f(void);\nstruct C_T;\n" ∧
      ∃ field method, tree.references = [field, method] ∧
        field.type.name.text = method.type.name.text ∧ field.around = method.around ∧
        field.class? = none ∧ method.class? = some "C" ∧
        tree.Writes .standard output [] field "T" ∧
        tree.Writes .standard output [field] method "C_T" ∧
        ¬Innermost tree.children "_" method.around method.type.name.text "C_T" := by
  obtain ⟨tree, count, hparse, hflatten, hrender, hreferences, hpaths⟩ := @exists_written
    namesakeClass "struct T;\nstruct C \x7b\n    T g;\n\x7d;\nC_T C_f(void);\nstruct C_T;\n"
    [⟨[], none, ⟨⟨"T", "in", 1, 28⟩, 0, none⟩⟩, ⟨[], some "C", ⟨⟨"T", "in", 1, 21⟩, 0, none⟩⟩]
    [["T"], ["C"], ["C", "T"]] (by decide +kernel)
  have houter : Innermost tree.children "_" [] "T" "T" :=
    innermost_of_declares "_" (declares_iff.2 (by rw [hpaths]; decide))
  have hinside : Innermost tree.children "_" ["C"] "T" "C_T" :=
    innermost_of_declares "_" (declares_iff.2 (by rw [hpaths]; decide))
  have hfield := @writes_of_innermost _ .standard _ hrender [] _ _ _ hreferences houter
  have hmethod := @writes_of_innermost _ .standard _ hrender [_] _ _ _ hreferences hinside
  exact ⟨tree, count, _, hparse, hflatten, rfl, _, _, hreferences, rfl, rfl, rfl, rfl, hfield,
    hmethod, fun hinner => absurd (hinner.unique houter) (by decide)⟩

end Scope

end Flattener
