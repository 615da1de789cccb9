import Flattener.Proofs.Flattening.Lookup
import Flattener.Proofs.Text.Stretch

/-!
# Flattened names tell their paths apart

The *titles* of a tree are the names that are written flattened: those of structs and
classes, of the variables and functions that namespaces hold, and of methods. What is
written for a tree falls into its titles, in order, and the text between them
(`Naming.divides_items`), so that each of them is written once
(`Scope.exists_writesTitle`).

A separator that has no character in common with the names keeps their paths apart
(`intercalate_inj`). Titles are then written alike only if they have one path, and a
reference is written like the structs and classes that it means, and like no others
(`Scope.titles_told_apart`).
-/

namespace Flattener

/-! ## Joined names -/

/-- A separator keeps names apart if it is not empty and has no character of theirs. -/
def KeepsApart (separator : String) (names : List String) : Prop :=
  separator ≠ "" ∧ ∀ name ∈ names, ∀ c ∈ name.toList, c ∉ separator.toList

instance (separator : String) (names : List String) : Decidable (KeepsApart separator names) :=
  decidable_of_iff (separator ≠ "" ∧
      names.all (fun name => name.toList.all fun c => !separator.toList.contains c) = true)
    (and_congr_right' (by simp))

section

variable {separator : String} {name name' : String} {names names' : List String}

theorem KeepsApart.tail (h : KeepsApart separator (name :: names)) : KeepsApart separator names :=
  ⟨h.1, fun other hother => h.2 other (List.mem_cons_of_mem _ hother)⟩

theorem KeepsApart.exists_first (h : KeepsApart separator names) :
    ∃ first others, separator.toList = first :: others :=
  List.exists_cons_of_ne_nil fun hnil => h.1 (String.toList_eq_nil_iff.1 hnil)

/-- What is behind the separator does not change where the name in front of it ends. -/
theorem KeepsApart.append_inj {rest rest' : String} (h : KeepsApart separator (name :: names))
    (h' : KeepsApart separator (name' :: names'))
    (heq : name ++ separator ++ rest = name' ++ separator ++ rest') :
    name = name' ∧ rest = rest' := by
  obtain ⟨first, others, hseparator⟩ := h.exists_first
  have hname (c : Char) (hc : c ∈ name.toList) : decide (c ∉ separator.toList) = true :=
    decide_eq_true (h.2 name List.mem_cons_self c hc)
  have hname' (c : Char) (hc : c ∈ name'.toList) : decide (c ∉ separator.toList) = true :=
    decide_eq_true (h'.2 name' List.mem_cons_self c hc)
  have hfirst : decide (first ∉ separator.toList) = false := by simp [hseparator]
  have hlist := congrArg String.toList heq
  simp only [String.toList_append, List.append_assoc, hseparator, List.cons_append] at hlist
  obtain ⟨hnames, -, hrest⟩ := append_cons_inj hname hname' hfirst hfirst hlist
  exact ⟨String.toList_inj.1 hnames, String.toList_inj.1 (List.append_cancel_left hrest)⟩

/-- A separator is part of no name. -/
theorem KeepsApart.ne_append {rest : String} (h : KeepsApart separator (name :: names)) :
    name ≠ name' ++ separator ++ rest := by
  intro heq
  obtain ⟨first, others, hseparator⟩ := h.exists_first
  have hfirst : first ∈ separator.toList := hseparator ▸ List.mem_cons_self
  refine h.2 name List.mem_cons_self first ?_ hfirst
  rw [heq, String.toList_append, String.toList_append]
  exact List.mem_append_left _ (List.mem_append_right _ hfirst)

/-- Names that are kept apart can be told from what they are joined to. -/
theorem intercalate_inj (hnames : names ≠ []) (hnames' : names' ≠ [])
    (h : KeepsApart separator names) (h' : KeepsApart separator names')
    (heq : separator.intercalate names = separator.intercalate names') : names = names' := by
  induction names generalizing names' with
  | nil => exact absurd rfl hnames
  | cons name names ih =>
    obtain ⟨name', names', rfl⟩ := List.exists_cons_of_ne_nil hnames'
    by_cases hlast : names = [] <;> by_cases hlast' : names' = []
    · rw [hlast, hlast', String.intercalate_singleton, String.intercalate_singleton] at heq
      rw [hlast, hlast', heq]
    · rw [hlast, String.intercalate_singleton, String.intercalate_cons_of_ne_nil hlast'] at heq
      exact absurd heq h.ne_append
    · rw [hlast', String.intercalate_singleton, String.intercalate_cons_of_ne_nil hlast] at heq
      exact absurd heq.symm h'.ne_append
    · rw [String.intercalate_cons_of_ne_nil hlast, String.intercalate_cons_of_ne_nil hlast'] at heq
      obtain ⟨rfl, hrest⟩ := h.append_inj h' heq
      rw [ih hlast hlast' h.tail h'.tail hrest]

end

/-- Names that have the separator in them may be joined to one name. -/
example : "_".intercalate ["a", "b_c"] = "_".intercalate ["a_b", "c"] := by decide

/-! ## Titles -/

/-- What is written under a flattened name. -/
inductive TitleKind
  /-- The header of a struct or class. -/
  | aggregate
  /-- A variable that a namespace holds. -/
  | variable
  /-- A function that a namespace holds. -/
  | prototype
  | method
  deriving DecidableEq, Repr

/-- A declared name that is written flattened. -/
structure Title where
  kind : TitleKind
  /-- The namespaces around the name, and behind them the class of a method. -/
  around : Path
  name : Name
  deriving DecidableEq, Repr

/-- The names around a title and its own. -/
def Title.path (t : Title) : Path :=
  t.around ++ [t.name.text]

theorem Title.path_ne_nil (t : Title) : t.path ≠ [] :=
  List.append_ne_nil_of_right_ne_nil _ (List.cons_ne_nil _ _)

mutual

/-- The titles of an item, in the order in which they are written. -/
def Item.titles (path : Path) : Item → List Title
  | .raw _ => []
  | .variableDecl declared => [⟨.variable, path, declared.name⟩]
  | .functionDecl declared => [⟨.prototype, path, declared.name⟩]
  | .structDecl declared => [⟨.aggregate, path, declared.name⟩]
  | .classDecl declared =>
    ⟨.aggregate, path, declared.name⟩ ::
      ((declared.body.map (·.methods)).getD []).map fun method =>
        ⟨.method, path ++ [declared.name.text], method.name⟩
  | .namespaceDecl name children => titlesOf (path ++ [name.text]) children

/-- The titles of items, in the order in which they are written. -/
def titlesOf (path : Path) : List Item → List Title
  | [] => []
  | item :: items => item.titles path ++ titlesOf path items

end

/-- The titles of a tree, in the order in which they are written. -/
def Scope.titles (s : Scope) : List Title :=
  titlesOf [] s.children

/-! ## The text between titles -/

/-- A title, or what is written between two of them. -/
inductive TitlePiece
  | between (directives : List Directive)
  | title (title : Title)

namespace TitlePiece

/-- The directives that a piece stands for. -/
def directives (n : Naming) : TitlePiece → List Directive
  | between directives => directives
  | title t => [.write (n.qualified t.around t.name.text) .identifier]

/-- The title that a piece is, if it is one. -/
def title? : TitlePiece → Option Title
  | between _ => none
  | title t => some t

end TitlePiece

namespace Naming

/-- A title in the middle of its declaration. -/
def entitled (lead : List Directive) (t : Title) (behind : List Directive) : List TitlePiece :=
  [.between lead, .title t, .between behind]

/-- The pieces of a function or a method. -/
def functionTitles (n : Naming) (kind : TitleKind) (path : Path) (s : Signature) :
    List TitlePiece :=
  entitled (n.typeLead path s.returns) ⟨kind, path, s.name⟩
    (n.parameters path s.parameters ++ terminator)

/-- The header of a struct or class, in front of the rest of it. -/
def headerTitles (path : Path) (name : Name) (behind : List Directive) : List TitlePiece :=
  entitled [.write "struct" .keyword, .write " " .plain] ⟨.aggregate, path, name⟩ behind

/-- What a struct holds, in braces. -/
def braced (inside : List Directive) : List Directive :=
  [.write " " .plain, .write openBrace .operator, .newline, .indent] ++ inside ++
    [.dedent, .write (closeBrace ++ ";") .operator, .newline]

/-- The pieces of a struct, or of a forward declaration of it. -/
def structTitles (n : Naming) (path : Path) (s : Struct) : List TitlePiece :=
  headerTitles path s.name <|
    match s.members with
    | none => terminator
    | some members => braced (members.flatMap (n.member path))

/-- The pieces of a class, whose methods are behind its members. -/
def classTitles (n : Naming) (path : Path) (c : Class) : List TitlePiece :=
  match c.body with
  | none => headerTitles path c.name terminator
  | some body =>
    headerTitles path c.name
        (braced (n.traitComment path body.traits ++ body.members.flatMap (n.member path))) ++
      body.methods.flatMap (n.functionTitles .method (path ++ [c.name.text]))

mutual

/-- The titles of an item, and the text between them. -/
def itemTitles (n : Naming) (path : Path) : Item → List TitlePiece
  | .raw run => [.between (n.rawRun run)]
  | .variableDecl v =>
    entitled (n.typeLead path v.type) ⟨.variable, path, v.name⟩
      (arraySuffix v.type ++ n.initialSuffix v ++ terminator)
  | .functionDecl s => n.functionTitles .prototype path s
  | .structDecl s => n.structTitles path s
  | .classDecl c => n.classTitles path c
  | .namespaceDecl name children => n.titlePieces (path ++ [name.text]) children

/-- The titles of items, and the text between them. -/
def titlePieces (n : Naming) (path : Path) : List Item → List TitlePiece
  | [] => []
  | item :: items => n.itemTitles path item ++ n.titlePieces path items

end

/-- The pieces are written as the directives, and the titles are among them. -/
structure Divides (n : Naming) (pieces : List TitlePiece) (directives : List Directive)
    (titles : List Title) : Prop where
  directives : pieces.flatMap (·.directives n) = directives
  titles : pieces.filterMap (·.title?) = titles

section

variable {n : Naming}

theorem divides_nil : n.Divides [] [] [] :=
  ⟨rfl, rfl⟩

theorem Divides.append {ps ps' : List TitlePiece} {ds ds' : List Directive} {ts ts' : List Title}
    (h : n.Divides ps ds ts) (h' : n.Divides ps' ds' ts') :
    n.Divides (ps ++ ps') (ds ++ ds') (ts ++ ts') := by
  constructor
  · rw [List.flatMap_append, h.directives, h'.directives]
  · rw [List.filterMap_append, h.titles, h'.titles]

theorem divides_flatMap {α : Type} {pieces : α → List TitlePiece} {directives : α → List Directive}
    {title : α → Title} (h : ∀ a, n.Divides (pieces a) (directives a) [title a]) (list : List α) :
    n.Divides (list.flatMap pieces) (list.flatMap directives) (list.map title) := by
  induction list with
  | nil => exact divides_nil
  | cons a list ih => exact (h a).append ih

theorem divides_entitled (n : Naming) (lead : List Directive) (t : Title)
    (behind : List Directive) :
    n.Divides (entitled lead t behind)
      (lead ++ .write (n.qualified t.around t.name.text) .identifier :: behind) [t] :=
  ⟨by simp [entitled, TitlePiece.directives], rfl⟩

variable (n) (path : Path)

theorem divides_variable (v : Variable) :
    n.Divides (n.itemTitles path (.variableDecl v)) (n.variableDecl path v)
      [⟨.variable, path, v.name⟩] := by
  have hall := divides_entitled n (n.typeLead path v.type) ⟨.variable, path, v.name⟩
    (arraySuffix v.type ++ n.initialSuffix v ++ terminator)
  rw [itemTitles, variableDecl, variableAs, List.append_assoc (n.typeLead path v.type),
    List.append_assoc (n.typeLead path v.type)]
  exact hall

theorem divides_function (kind : TitleKind) (s : Signature) :
    n.Divides (n.functionTitles kind path s) (n.functionDecl path s) [⟨kind, path, s.name⟩] := by
  have hall := divides_entitled n (n.typeLead path s.returns) ⟨kind, path, s.name⟩
    (n.parameters path s.parameters ++ terminator)
  rw [functionDecl, List.append_assoc]
  exact hall

theorem divides_header (name : Name) (behind : List Directive) :
    n.Divides (headerTitles path name behind) (n.structLead path name ++ behind)
      [⟨.aggregate, path, name⟩] :=
  divides_entitled n _ _ behind

theorem structAround_eq (name : Name) (inside : List Directive) :
    n.structAround path name inside = n.structLead path name ++ braced inside := by
  rw [structAround, braced, List.append_assoc, List.append_assoc, List.append_assoc]

theorem divides_struct (s : Struct) :
    n.Divides (n.structTitles path s) (n.structDecl path s) [⟨.aggregate, path, s.name⟩] := by
  have hall := divides_header n path s.name
  rw [structTitles, structDecl]
  cases s.members with
  | none => exact hall terminator
  | some members =>
    dsimp only
    rw [structAround_eq]
    exact hall _

/-- The methods of a class are titled behind it. -/
theorem divides_class (c : Class) :
    n.Divides (n.classTitles path c) ((n.classDecl path c).flatMap (·.directives))
      ((Item.classDecl c).titles path) := by
  rw [classTitles, classDecl, Item.titles]
  cases c.body with
  | none => exact divides_header n path c.name terminator
  | some body =>
    have hmethods := divides_flatMap
      (divides_function n (path ++ [c.name.text]) .method) body.methods
    simp only [List.flatMap_cons, List.flatMap_nil, List.append_nil]
    rw [structAround_eq]
    exact (divides_header n path c.name _).append hmethods

end

mutual

theorem divides_item {n : Naming} : ∀ (item : Item) {path : Path},
    n.Divides (n.itemTitles path item) ((n.item path item).flatMap (·.directives))
      (item.titles path)
  | .raw run, path => by
    rw [itemTitles, Naming.item, Item.titles, List.flatMap_singleton]
    exact ⟨List.append_nil _, rfl⟩
  | .variableDecl v, path => by
    rw [Naming.item, Item.titles, List.flatMap_singleton]
    exact divides_variable n path v
  | .functionDecl s, path => by
    rw [itemTitles, Naming.item, Item.titles, List.flatMap_singleton]
    exact divides_function n path .prototype s
  | .structDecl s, path => by
    rw [itemTitles, Naming.item, Item.titles, List.flatMap_singleton]
    exact divides_struct n path s
  | .classDecl c, path => by
    rw [itemTitles, Naming.item]
    exact divides_class n path c
  | .namespaceDecl name children, path => by
    rw [itemTitles, Naming.item, Item.titles]
    exact divides_items children

/-- What is written for a tree are its titles, in order, and the text between them. -/
theorem divides_items {n : Naming} : ∀ (items : List Item) {path : Path},
    n.Divides (n.titlePieces path items) ((n.items path items).flatMap (·.directives))
      (titlesOf path items)
  | [], path => by
    rw [titlePieces, Naming.items, titlesOf]
    exact divides_nil
  | item :: items, path => by
    rw [titlePieces, Naming.items, titlesOf, List.flatMap_append]
    exact (divides_item item).append (divides_items items)

end

end Naming

/-! ## The paths of types -/

/-- The titles of structs and classes. -/
def aggregatesOf (titles : List Title) : List Title :=
  titles.filter (·.kind = .aggregate)

theorem aggregatesOf_methods (path : Path) (methods : List Signature) :
    aggregatesOf (methods.map fun method => ⟨.method, path, method.name⟩) = [] := by
  refine List.filter_eq_nil_iff.2 fun t ht => ?_
  obtain ⟨method, -, rfl⟩ := List.mem_map.1 ht
  exact Bool.false_ne_true

mutual

theorem typePaths_eq_aggregates : ∀ (item : Item) (path : Path),
    item.typePaths path = (aggregatesOf (item.titles path)).map (·.path)
  | .raw run, path => by
    rw [Item.typePaths, Item.titles]
    · rfl
    all_goals nofun
  | .variableDecl v, path => by
    rw [Item.typePaths, Item.titles]
    · rfl
    all_goals nofun
  | .functionDecl s, path => by
    rw [Item.typePaths, Item.titles]
    · rfl
    all_goals nofun
  | .structDecl s, path => by
    rw [Item.typePaths, Item.titles]
    rfl
  | .classDecl c, path => by
    rw [Item.typePaths, Item.titles, aggregatesOf, List.filter_cons_of_pos (by rfl)]
    have hmethods := aggregatesOf_methods (path ++ [c.name.text])
      ((c.body.map (·.methods)).getD [])
    rw [aggregatesOf] at hmethods
    rw [hmethods]
    rfl
  | .namespaceDecl name children, path => by
    rw [Item.typePaths, Item.titles]
    exact typePathsOf_eq_aggregates children (path ++ [name.text])

/-- The paths that a reference can mean are those of the structs and classes among the
    titles. -/
theorem typePathsOf_eq_aggregates : ∀ (items : List Item) (path : Path),
    typePathsOf path items = (aggregatesOf (titlesOf path items)).map (·.path)
  | [], path => by
    rw [typePathsOf, titlesOf]
    rfl
  | item :: items, path => by
    rw [typePathsOf, titlesOf, aggregatesOf, List.filter_append, List.map_append,
      typePaths_eq_aggregates item path, typePathsOf_eq_aggregates items path]
    rfl

end

/-! ## Titles in the text -/

namespace Scope

/-- What is written for a tree, as its titles and the text between them. -/
def titlePieces (s : Scope) (options : Options) : List TitlePiece :=
  (s.naming options).titlePieces [] s.children

/-- The title, behind those in front of it, is written as the name: as an identifier of
    its own, behind what is written in front of it. -/
def WritesTitle (s : Scope) (options : Options) (output : String) (front : List Title) (t : Title)
    (written : String) : Prop :=
  ∃ before behind, s.titlePieces options = before ++ .title t :: behind ∧
    before.filterMap (·.title?) = front ∧
    (TitlePiece.title t).directives (s.naming options) = [.write written .identifier] ∧
    options.page.Puts ((Page.empty options.page).performAll
      (before.flatMap (·.directives (s.naming options)))).text written output

variable {s : Scope} {options : Options} {output written : String}

theorem WritesTitle.eq_intercalate {front : List Title} {t : Title}
    (h : s.WritesTitle options output front t written) :
    written = options.separator.intercalate t.path := by
  obtain ⟨-, -, -, -, hdirectives, -⟩ := h
  cases hdirectives
  rfl

/-- Each title is written as the names of its path, joined. -/
theorem writesTitle_intercalate
    (hrender : s.render options.page options.separator options.builtins = .ok output)
    {front behind : List Title} {t : Title} (hsplit : s.titles = front ++ t :: behind) :
    s.WritesTitle options output front t (options.separator.intercalate t.path) := by
  have hdivides : (s.naming options).Divides (s.titlePieces options) _ s.titles :=
    Naming.divides_items s.children
  have htitles := hdivides.titles
  rw [hsplit] at htitles
  obtain ⟨before, rest, hpieces, hbefore, hrest⟩ := List.filterMap_eq_append_iff.1 htitles
  obtain ⟨between, piece, after, rfl, hbetween, hpiece, -⟩ := List.filterMap_eq_cons_iff.1 hrest
  obtain rfl : piece = .title t := by
    cases piece with
    | between directives => cases hpiece
    | title other => exact congrArg TitlePiece.title (Option.some.inj hpiece)
  rw [← List.append_assoc] at hpieces
  refine ⟨before ++ between, after, hpieces, ?_, rfl, ?_⟩
  · rw [List.filterMap_append, hbefore, List.filterMap_eq_nil_iff.2 hbetween, List.append_nil]
  · have htext := text_of_render hrender
    rw [Naming.textOf, pieces, (Naming.composes_items s.children).directives,
      ← hdivides.directives, hpieces, List.flatMap_append, List.flatMap_cons] at htext
    rw [htext]
    exact Page.puts_performAll _ _ _ _ _

/-- A name means a type if a struct or class is titled with the path of that type. -/
theorem exists_aggregate_of_means {path outer : Path} {name : String}
    (h : (s.naming options).Means path name outer) :
    ∃ t ∈ s.titles, t.kind = .aggregate ∧ t.path = outer ++ [name] := by
  have hdeclared : outer ++ [name] ∈ typePathsOf [] s.children := h.declared
  rw [typePathsOf_eq_aggregates, List.mem_map] at hdeclared
  obtain ⟨t, ht, hpath⟩ := hdeclared
  obtain ⟨hmem, hkind⟩ := List.mem_filter.1 ht
  exact ⟨t, hmem, of_decide_eq_true hkind, hpath⟩

/-- Joined names are told apart if the separator has no character of the names of
    titles. Then a tree is rendered, if the indentation fits at the level of every line, in
    such a way that each title is written once, those of different paths differently, and a
    reference that means a declared type like the headers of that type and no others. -/
theorem titles_told_apart (tree : Scope) (options : Options)
    (hapart : ∀ t ∈ tree.titles, KeepsApart options.separator t.path) :
    (Text.Fits (tree.levels options.separator options.builtins) options.page.indentWidth →
        ∃ output, tree.render options.page options.separator options.builtins = .ok output) ∧
      ∀ output, tree.render options.page options.separator options.builtins = .ok output →
        (∀ front t behind, tree.titles = front ++ t :: behind →
          ∃ written, tree.WritesTitle options output front t written) ∧
        (∀ front t behind front' t' behind' written, tree.titles = front ++ t :: behind →
          tree.titles = front' ++ t' :: behind' → tree.WritesTitle options output front t written →
          tree.WritesTitle options output front' t' written → t.path = t'.path) ∧
        ∀ front r behind outer, tree.references = front ++ r :: behind →
          (tree.naming options).Means r.lookup r.type.name.text outer →
          ∃ written, tree.Writes options output front r written ∧
            (∃ t ∈ tree.titles, t.kind = .aggregate ∧ t.path = outer ++ [r.type.name.text]) ∧
            ∀ front' t behind', tree.titles = front' ++ t :: behind' → t.kind = .aggregate →
              (tree.WritesTitle options output front' t written ↔
                t.path = outer ++ [r.type.name.text]) := by
  have hinj {t t' : Title} (ht : t ∈ tree.titles) (ht' : t' ∈ tree.titles)
      (heq : options.separator.intercalate t.path = options.separator.intercalate t'.path) :
      t.path = t'.path :=
    intercalate_inj t.path_ne_nil t'.path_ne_nil (hapart t ht) (hapart t' ht') heq
  have hmem {front behind : List Title} {t : Title} (hsplit : tree.titles = front ++ t :: behind) :
      t ∈ tree.titles :=
    hsplit ▸ List.mem_append_right front List.mem_cons_self
  refine ⟨fun hfits => ⟨_, render_eq_ok hfits⟩, fun output hrender => ⟨?_, ?_, ?_⟩⟩
  · exact fun front t behind hsplit => ⟨_, writesTitle_intercalate hrender hsplit⟩
  · intro front t behind front' t' behind' written hsplit hsplit' hwritten hwritten'
    exact hinj (hmem hsplit) (hmem hsplit')
      (hwritten.eq_intercalate.symm.trans hwritten'.eq_intercalate)
  · intro front r behind outer hsplit hmeans
    obtain ⟨meant, hmeant, hkind, hpath⟩ := exists_aggregate_of_means hmeans
    have hwrites : tree.Writes options output front r _ := writes_resolved hrender hsplit
    rw [Naming.resolved_of_means hmeans] at hwrites
    refine ⟨_, hwrites, ⟨meant, hmeant, hkind, hpath⟩, ?_⟩
    intro front' t behind' hsplit' _
    constructor
    · intro hwritten
      rw [← hpath]
      refine hinj (hmem hsplit') hmeant ?_
      rw [← hwritten.eq_intercalate, hpath]
      rfl
    · intro hsame
      have hwritten : tree.WritesTitle options output front' t _ :=
        writesTitle_intercalate hrender hsplit'
      rw [hsame] at hwritten
      exact hwritten

/-- Two types and two functions that the standard separator would give the same names. -/
def underscoredNames : String :=
  "namespace a \x7b struct b_c; class b \x7b b_c *d(); \x7d; \x7d " ++
    "namespace a_b \x7b struct c; c *d(); \x7d"

/-- Names that are joined by colons. -/
def colonsBetween : Options :=
  { Options.standard with separator := "::" }

/-- With colons between the names, only the header of the type that a method returns is
    written like the reference to it. -/
theorem titles_told_apart_underscoredNames :
    ∃ tree count output, (parseSource colonsBetween underscoredNames "in").result = .ok (tree, count) ∧
      (flatten colonsBetween underscoredNames "in").result = .ok ⟨"in", tree, output, count⟩ ∧
      output = "struct a::b_c;\nstruct a::b \x7b\n\x7d;\na::b_c *a::b::d(void);\n" ++
        "struct a_b::c;\na_b::c *a_b::d(void);\n" ∧
      (∀ t ∈ tree.titles, KeepsApart "::" t.path) ∧
      ∃ meant body method other r behind behind' written,
        tree.titles = meant :: body :: method :: other :: behind ∧
        tree.references = r :: behind' ∧ r.class? = some "b" ∧
        tree.Writes colonsBetween output [] r written ∧
        tree.WritesTitle colonsBetween output [] meant written ∧
        ¬tree.WritesTitle colonsBetween output [meant, body, method] other written := by
  obtain ⟨tree, count, hparse, hview⟩ := @exists_tree _ colonsBetween underscoredNames "in"
    (fun parsed => (parsed.1.titles, parsed.1.references, typePathsOf [] parsed.1.children,
      parsed.1.render .standard "::" standardTypes))
    ([⟨.aggregate, ["a"], ⟨"b_c", "in", 1, 22⟩⟩, ⟨.aggregate, ["a"], ⟨"b", "in", 1, 33⟩⟩,
        ⟨.method, ["a", "b"], ⟨"d", "in", 1, 42⟩⟩, ⟨.aggregate, ["a_b"], ⟨"c", "in", 1, 75⟩⟩,
        ⟨.prototype, ["a_b"], ⟨"d", "in", 1, 81⟩⟩],
      [⟨["a"], some "b", ⟨⟨"b_c", "in", 1, 37⟩, 1, none⟩⟩,
        ⟨["a_b"], none, ⟨⟨"c", "in", 1, 78⟩, 1, none⟩⟩],
      [["a", "b_c"], ["a", "b"], ["a_b", "c"]],
      .ok ("struct a::b_c;\nstruct a::b \x7b\n\x7d;\na::b_c *a::b::d(void);\n" ++
        "struct a_b::c;\na_b::c *a_b::d(void);\n")) (by decide +kernel)
  obtain ⟨htitles, hview⟩ := Prod.mk.inj hview
  obtain ⟨hreferences, hview⟩ := Prod.mk.inj hview
  obtain ⟨hpaths, hrender⟩ := Prod.mk.inj hview
  dsimp only at htitles hreferences hpaths hrender
  have hapart : ∀ t ∈ tree.titles, KeepsApart colonsBetween.separator t.path := by
    rw [htitles]
    decide
  obtain ⟨-, hrendered⟩ := titles_told_apart tree colonsBetween hapart
  obtain ⟨-, -, hmeant⟩ := hrendered _ hrender
  have hmeans : (tree.naming colonsBetween).Means ["a", "b"] "b_c" ["a"] := by
    rw [naming, hpaths]
    decide
  obtain ⟨written, hwrites, -, honly⟩ := hmeant [] _ _ _ hreferences hmeans
  refine ⟨tree, count, _, hparse, result_flatten_of_render hparse hrender, rfl, hapart,
    _, _, _, _, _, _, _, written, htitles, hreferences, rfl, hwrites, ?_, ?_⟩
  · exact (honly [] _ _ htitles rfl).2 rfl
  · exact fun hother => absurd ((honly [_, _, _] _ _ htitles rfl).1 hother) (by decide)

end Scope

end Flattener
