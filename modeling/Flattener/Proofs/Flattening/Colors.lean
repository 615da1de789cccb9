import Flattener.Proofs.Flattening.Rendering
import Flattener.Proofs.Text.Sequences
import Flattener.Proofs.Token.Tiling

/-!
# Colors can be taken off

Where nothing that is written has an escape character, a colored page is a plain
one with control sequences in it: taking these out gives the text of the plain
page, whatever follows (`Page.Colors`). Directives preserve this, and succeed or
fail on both pages alike, because a style changes neither how deep a page is
indented nor where its lines begin (`Page.Colors.perform`).

Nothing else is written for a tree than its names, its tokens, the separator and
punctuation (`Naming.unescaped_items`). So a source without escape characters is
flattened to the same text in color and without (`stripSequences_render`).
-/

namespace Flattener

/-! ## Directives without escapes -/

/-- What a directive writes. -/
def Directive.text : Directive → String
  | .write text _ => text
  | _ => ""

/-- No escape character is written. -/
def Unescaped (directives : List Directive) : Prop :=
  ∀ d ∈ directives, Text.escape ∉ d.text.toList

instance (directives : List Directive) : Decidable (Unescaped directives) :=
  inferInstanceAs (Decidable (∀ d ∈ directives, Text.escape ∉ d.text.toList))

section

variable {d : Directive} {directives others : List Directive}

theorem unescaped_nil : Unescaped [] := List.forall_mem_nil _

theorem unescaped_cons :
    Unescaped (d :: directives) ↔ Text.escape ∉ d.text.toList ∧ Unescaped directives :=
  List.forall_mem_cons

/-- A text in front of other directives. -/
theorem Unescaped.write (h : Unescaped directives) {text : String}
    (htext : Text.escape ∉ text.toList) {style : Style} :
    Unescaped (.write text style :: directives) :=
  unescaped_cons.2 ⟨htext, h⟩

theorem Unescaped.append (h : Unescaped directives) (h' : Unescaped others) :
    Unescaped (directives ++ others) :=
  List.forall_mem_append.2 ⟨h, h'⟩

theorem unescaped_flatMap {α : Type} {f : α → List Directive} {list : List α}
    (h : ∀ a ∈ list, Unescaped (f a)) : Unescaped (list.flatMap f) := by
  intro d hd
  obtain ⟨a, ha, hd⟩ := List.mem_flatMap.1 hd
  exact h a ha d hd

end

/-! ## Pages in color and without -/

namespace Page

variable {p q : Page} {text : String}

/-- Without its control sequences, the first page is the second one. -/
structure Colors (p q : Page) : Prop where
  width : p.settings.indentWidth = q.settings.indentWidth
  plain : q.settings.color = false
  level : p.level = q.level
  lineStart : p.atLineStart = q.atLineStart
  strips : ∀ rest, Text.stripChars (p.text.toList ++ rest) = q.text.toList ++ Text.stripChars rest

theorem colors_empty (width : Int) (color : Bool) :
    (empty ⟨width, color⟩).Colors (empty ⟨width, false⟩) :=
  ⟨rfl, rfl, rfl, rfl, fun _ => rfl⟩

/-- Text is shown in some style or in none, which makes no difference. -/
theorem stripChars_shown (p : Page) (h : Text.escape ∉ text.toList) (style : Style)
    (rest : List Char) :
    Text.stripChars ((p.shown text style).toList ++ rest) = text.toList ++ Text.stripChars rest := by
  rw [shown]
  split
  · exact Text.stripChars_styled h _ rest
  · exact Text.stripChars_append h rest

theorem escape_not_mem_indentation (p : Page) : Text.escape ∉ p.indentation.toList := by
  rw [indentation, String.toList_ofList]
  intro hmem
  exact absurd (List.eq_of_mem_replicate hmem) (by decide)

namespace Colors

theorem stripSequences_text (h : p.Colors q) : Text.stripSequences p.text = q.text := by
  have hstrips := h.strips []
  rw [List.append_nil, Text.stripChars, List.append_nil] at hstrips
  rw [Text.stripSequences, hstrips, String.ofList_toList]

theorem write (h : p.Colors q) (htext : Text.escape ∉ text.toList) (style : Style) :
    (p.write text style).Colors (q.write text style) := by
  rw [Page.write, Page.write]
  split
  · exact h
  refine ⟨h.width, h.plain, h.level, rfl, fun rest => ?_⟩
  have hindentation : p.indentation = q.indentation := by
    rw [indentation, indentation, h.level, h.width]
  have hlead : Text.escape ∉ (if q.atLineStart then q.indentation else "").toList := by
    split
    · exact q.escape_not_mem_indentation
    · exact List.not_mem_nil
  dsimp only
  rw [shown_of_plain h.plain, h.lineStart, hindentation]
  simp only [String.toList_append, List.append_assoc]
  rw [h.strips, Text.stripChars_append hlead, p.stripChars_shown htext]

theorem newline (h : p.Colors q) : p.newline.Colors q.newline := by
  refine ⟨h.width, h.plain, h.level, rfl, fun rest => ?_⟩
  have hline : Text.escape ∉ "\n".toList := by decide
  show Text.stripChars ((p.text ++ "\n").toList ++ rest) = (q.text ++ "\n").toList ++ _
  rw [String.toList_append, String.toList_append, List.append_assoc, List.append_assoc, h.strips,
    Text.stripChars_append hline]

/-- One directive does the same to both pages. -/
theorem perform (h : p.Colors q) {d : Directive} (hd : Text.escape ∉ d.text.toList) :
    (p.perform d).Colors (q.perform d) := by
  cases d with
  | write text style => exact h.write hd style
  | gap =>
    rw [Page.perform, Page.perform, h.lineStart]
    split
    · exact h
    · exact h.write (by decide) .plain
  | newline => exact h.newline
  | freshLine =>
    rw [Page.perform, Page.perform, h.lineStart]
    split
    · exact h
    · exact h.newline
  | indent => exact ⟨h.width, h.plain, congrArg (· + 1) h.level, h.lineStart, h.strips⟩
  | dedent => exact ⟨h.width, h.plain, congrArg (· - 1) h.level, h.lineStart, h.strips⟩

theorem fault?_eq (h : p.Colors q) (d : Directive) : p.fault? d = q.fault? d := by
  cases d with
  | write text style => rw [fault?, fault?, h.lineStart, h.level, h.width]
  | _ => rfl

/-- Directives come as far on both pages. -/
theorem attemptAll {directives : List Directive} (h : p.Colors q) (hd : Unescaped directives) :
    (p.attemptAll directives).1 = (q.attemptAll directives).1 ∧
      (p.attemptAll directives).2.Colors (q.attemptAll directives).2 := by
  induction directives generalizing p q with
  | nil => exact ⟨rfl, h⟩
  | cons d directives ih =>
    obtain ⟨hfirst, hothers⟩ := unescaped_cons.1 hd
    rw [Page.attemptAll, Page.attemptAll, h.fault?_eq d]
    split
    · exact ⟨rfl, h⟩
    · exact ih (h.perform hfirst) hothers

theorem attemptPassages {passages : List Passage} (h : p.Colors q)
    (hpassages : ∀ passage ∈ passages, Unescaped passage.directives) :
    (p.attemptPassages passages).1 = (q.attemptPassages passages).1 ∧
      (p.attemptPassages passages).2.Colors (q.attemptPassages passages).2 := by
  induction passages generalizing p q with
  | nil => exact ⟨rfl, h⟩
  | cons passage passages ih =>
    obtain ⟨hfirst, hothers⟩ := List.forall_mem_cons.1 hpassages
    obtain ⟨hresult, hpages⟩ := h.attemptAll hfirst
    rw [Page.attemptPassages, Page.attemptPassages]
    rcases hp : p.attemptAll passage.directives with ⟨result, page⟩
    rcases hq : q.attemptAll passage.directives with ⟨result', page'⟩
    rw [hp, hq] at hresult hpages
    cases hresult
    cases result with
    | ok _ => exact ih hpages hothers
    | error fault => exact ⟨rfl, hpages⟩

end Colors

end Page

/-! ## What is written for a tree -/

/-- None of the tokens is spelled with an escape character. -/
def Escapeless (tokens : List Token) : Prop :=
  ∀ t ∈ tokens, Text.escape ∉ t.text.toList

theorem escapeless_cons {t : Token} {tokens : List Token} :
    Escapeless (t :: tokens) ↔ Text.escape ∉ t.text.toList ∧ Escapeless tokens :=
  List.forall_mem_cons

theorem escapeless_append {tokens rest : List Token} :
    Escapeless (tokens ++ rest) ↔ Escapeless tokens ∧ Escapeless rest :=
  List.forall_mem_append

theorem Escapeless.flatMap {α : Type} {kept : α → List Token} {list : List α}
    (h : Escapeless (list.flatMap kept)) : ∀ x ∈ list, Escapeless (kept x) :=
  fun x hx t ht => h t (List.mem_flatMap.2 ⟨x, hx, ht⟩)

/-- The names of a path have no escape characters. -/
def Path.Escapeless (path : Path) : Prop :=
  ∀ name ∈ path, Text.escape ∉ name.toList

theorem Path.Escapeless.snoc {path : Path} (h : path.Escapeless) {name : String}
    (hname : Text.escape ∉ name.toList) : Path.Escapeless (path ++ [name]) :=
  List.forall_mem_append.2 ⟨h, List.forall_mem_singleton.2 hname⟩

namespace Naming

variable {n : Naming}

theorem unescaped_initializer {run : RawRun} (h : Escapeless run.tokens) :
    Unescaped (n.initializer run) := by
  obtain ⟨hfirst, hothers⟩ := escapeless_cons.1 h
  refine Unescaped.write (unescaped_flatMap fun t ht => ?_) hfirst
  exact unescaped_cons.2 ⟨List.not_mem_nil, unescaped_nil.write (hothers t ht)⟩

theorem unescaped_lines {tokens : List Token} (h : Escapeless tokens) (depth : Nat)
    (behind : Bool) : Unescaped (n.lines depth behind tokens) := by
  induction tokens generalizing depth behind with
  | nil => exact unescaped_nil
  | cons t tokens ih =>
    obtain ⟨hfirst, hothers⟩ := escapeless_cons.1 h
    have hlead : Unescaped (leadOf depth t) := by
      rw [leadOf]
      split <;> decide
    have hgap : Unescaped (if behind then [.gap] else []) := by
      split <;> decide
    have htrail : Unescaped (trailOf depth t) := by
      rw [trailOf]
      repeat' split
      all_goals decide
    rw [lines]
    exact ((hlead.append hgap).append (htrail.write hfirst)).append (ih hothers _ _)

theorem unescaped_rawRun {run : RawRun} (h : Escapeless run.tokens) : Unescaped (n.rawRun run) :=
  (unescaped_lines h 0 false).append (by decide)

theorem unescaped_terminator : Unescaped terminator := by decide

theorem unescaped_arraySuffix (t : TypeRef) : Unescaped (arraySuffix t) := by
  rw [arraySuffix]
  split
  · next size hsize =>
    refine ((unescaped_nil.write ?_).write ?_).write ?_
    · decide
    · rw [Nat.toString_eq_ofList_toDigits, String.toList_ofList]
      intro hmem
      exact absurd (Nat.isDigit_of_mem_toDigits (by decide) (by decide) hmem) (by decide)
    · decide
  · exact unescaped_nil

section

variable (hsep : Text.escape ∉ n.separator.toList) {path : Path} (hpath : path.Escapeless)
  {name : String}
include hsep hpath

theorem escape_not_mem_qualified (hname : Text.escape ∉ name.toList) :
    Text.escape ∉ (n.qualified path name).toList :=
  not_mem_intercalate hsep (hpath.snoc hname)

theorem escape_not_mem_resolved (hname : Text.escape ∉ name.toList) :
    Text.escape ∉ (n.resolved path name).toList := by
  rcases n.resolved_cases path name with ⟨outer, hmeans, hwritten⟩ | ⟨-, hwritten⟩
  · rw [hwritten]
    exact escape_not_mem_qualified hsep (fun name hmem => hpath name (hmeans.around.subset hmem))
      hname
  · rwa [hwritten]

theorem unescaped_typeLead {t : TypeRef} (h : Text.escape ∉ t.name.text.toList) :
    Unescaped (n.typeLead path t) := by
  refine Unescaped.write (.write ?_ (by decide)) (escape_not_mem_resolved hsep hpath h)
  split
  · exact unescaped_nil
  · refine unescaped_nil.write fun hmem => ?_
    rw [String.toList_ofList] at hmem
    exact absurd (List.eq_of_mem_replicate hmem) (by decide)

/-- A variable under a name. -/
theorem unescaped_variableAs {v : Variable} (h : Escapeless v.kept)
    (hname : Text.escape ∉ name.toList) : Unescaped (n.variableAs path name v) := by
  obtain ⟨htype, hrest⟩ := escapeless_cons.1 h
  obtain ⟨-, hinitial⟩ := escapeless_cons.1 hrest
  have hsuffix : Unescaped (n.initialSuffix v) := by
    rw [initialSuffix]
    cases hrun : v.initial with
    | none => exact unescaped_nil
    | some run =>
      rw [hrun] at hinitial
      exact (((unescaped_initializer hinitial).write (by decide)).write (by decide)).write (by decide)
  exact ((unescaped_typeLead hsep hpath htype).append
    ((unescaped_arraySuffix v.type).write hname)).append hsuffix

/-- A variable under its own name. -/
theorem unescaped_ownVariable {v : Variable} (h : Escapeless v.kept) :
    Unescaped (n.variableAs path v.name.text v) :=
  unescaped_variableAs hsep hpath h (escapeless_cons.1 (escapeless_cons.1 h).2).1

theorem unescaped_parameters {list : List Variable} (h : Escapeless (list.flatMap Variable.kept)) :
    Unescaped (n.parameters path list) := by
  unfold parameters
  refine Unescaped.append (.write ?_ (by decide)) (by decide)
  cases list with
  | nil => exact unescaped_nil.write (by decide)
  | cons first others =>
    obtain ⟨hfirst, hothers⟩ := List.forall_mem_cons.1 h.flatMap
    exact (unescaped_ownVariable hsep hpath hfirst).append (unescaped_flatMap fun v hv =>
      ((unescaped_ownVariable hsep hpath (hothers v hv)).write (by decide)).write (by decide))

theorem unescaped_functionDecl {s : Signature} (h : Escapeless s.kept) :
    Unescaped (n.functionDecl path s) := by
  obtain ⟨hreturns, hrest⟩ := escapeless_cons.1 h
  obtain ⟨hname, hparameters⟩ := escapeless_cons.1 hrest
  exact ((unescaped_typeLead hsep hpath hreturns).append
    ((unescaped_parameters hsep hpath hparameters).write
      (escape_not_mem_qualified hsep hpath hname))).append unescaped_terminator

theorem unescaped_functionPointer {s : Signature} (h : Escapeless s.kept) :
    Unescaped (n.functionPointer path s) := by
  obtain ⟨hreturns, hrest⟩ := escapeless_cons.1 h
  obtain ⟨hname, hparameters⟩ := escapeless_cons.1 hrest
  have hpointer : Unescaped
      [.write "(*" .operator, .write s.name.text .identifier, .write ")" .operator] :=
    ((unescaped_nil.write (by decide)).write hname).write (by decide)
  exact (((unescaped_typeLead hsep hpath hreturns).append hpointer).append
    (unescaped_parameters hsep hpath hparameters)).append unescaped_terminator

theorem unescaped_member {m : Member} (h : Escapeless m.kept) : Unescaped (n.member path m) := by
  cases m with
  | field f => exact (unescaped_ownVariable hsep hpath h).append unescaped_terminator
  | functionPointer s => exact unescaped_functionPointer hsep hpath h

theorem unescaped_structLead {name : Name} (h : Text.escape ∉ name.text.toList) :
    Unescaped (n.structLead path name) :=
  ((unescaped_nil.write (escape_not_mem_qualified hsep hpath h)).write (by decide)).write (by decide)

/-- A struct around what it holds. -/
theorem unescaped_structAround {name : Name} {inside : List Directive}
    (h : Text.escape ∉ name.text.toList) (hinside : Unescaped inside) :
    Unescaped (n.structAround path name inside) :=
  (((unescaped_structLead hsep hpath h).append (by decide)).append hinside).append (by decide)

theorem unescaped_structDecl {s : Struct} (h : Escapeless s.kept) :
    Unescaped (n.structDecl path s) := by
  obtain ⟨hname, hmembers⟩ := escapeless_cons.1 h
  rw [structDecl]
  cases hs : s.members with
  | none => exact (unescaped_structLead hsep hpath hname).append unescaped_terminator
  | some members =>
    rw [hs] at hmembers
    exact unescaped_structAround hsep hpath hname
      (unescaped_flatMap fun m hm => unescaped_member hsep hpath (hmembers.flatMap m hm))

theorem unescaped_traitComment {traits : List TypeRef}
    (h : Escapeless (traits.map (·.name.token))) : Unescaped (n.traitComment path traits) := by
  rw [traitComment]
  split
  · exact unescaped_nil
  · have hnames : Text.escape ∉ (", ".intercalate
        (traits.map fun trait => n.resolved path trait.name.text)).toList := by
      refine not_mem_intercalate (by decide) fun name hname => ?_
      obtain ⟨trait, htrait, rfl⟩ := List.mem_map.1 hname
      exact escape_not_mem_resolved hsep hpath (h _ (List.mem_map_of_mem htrait))
    refine Unescaped.write (by decide) ?_
    rw [String.toList_append, List.mem_append]
    exact not_or.2 ⟨by decide, hnames⟩

/-- A class and its methods, which stand under its name. -/
theorem unescaped_classDecl {d : Class} (h : Escapeless d.kept) :
    ∀ passage ∈ n.classDecl path d, Unescaped passage.directives := by
  obtain ⟨hname, hbody⟩ := escapeless_cons.1 h
  rw [classDecl]
  cases hd : d.body with
  | none =>
    exact List.forall_mem_singleton.2
      ((unescaped_structLead hsep hpath hname).append unescaped_terminator)
  | some body =>
    rw [hd] at hbody
    obtain ⟨htraits, hrest⟩ := escapeless_append.1 hbody
    obtain ⟨hmembers, hmethods⟩ := escapeless_append.1 hrest
    refine List.forall_mem_cons.2 ⟨?_, List.forall_mem_singleton.2 ?_⟩
    · exact unescaped_structAround hsep hpath hname
        ((unescaped_traitComment hsep hpath htraits).append
          (unescaped_flatMap fun m hm => unescaped_member hsep hpath (hmembers.flatMap m hm)))
    · exact unescaped_flatMap fun s hs =>
        unescaped_functionDecl hsep (hpath.snoc hname) (hmethods.flatMap s hs)

end

mutual

theorem unescaped_item (hsep : Text.escape ∉ n.separator.toList) : ∀ (item : Item) {path : Path},
    path.Escapeless → Escapeless item.kept →
    ∀ passage ∈ n.item path item, Unescaped passage.directives
  | .raw run, path, _, h => by
    rw [item]
    exact List.forall_mem_singleton.2 (unescaped_rawRun h)
  | .variableDecl v, path, hpath, h => by
    obtain ⟨-, hrest⟩ := escapeless_cons.1 h
    have hname := escape_not_mem_qualified hsep hpath (escapeless_cons.1 hrest).1
    rw [item]
    exact List.forall_mem_singleton.2
      ((unescaped_variableAs hsep hpath h hname).append unescaped_terminator)
  | .functionDecl s, path, hpath, h => by
    rw [item]
    exact List.forall_mem_singleton.2 (unescaped_functionDecl hsep hpath h)
  | .structDecl s, path, hpath, h => by
    rw [item]
    exact List.forall_mem_singleton.2 (unescaped_structDecl hsep hpath h)
  | .classDecl d, path, hpath, h => by
    rw [item]
    exact unescaped_classDecl hsep hpath h
  | .namespaceDecl name children, path, hpath, h => by
    obtain ⟨hname, hchildren⟩ := escapeless_cons.1 h
    rw [item]
    exact unescaped_items hsep children (hpath.snoc hname) hchildren

theorem unescaped_items (hsep : Text.escape ∉ n.separator.toList) : ∀ (items : List Item)
    {path : Path}, path.Escapeless → Escapeless (itemsKept items) →
    ∀ passage ∈ n.items path items, Unescaped passage.directives
  | [], path, _, _ => by
    rw [items]
    exact List.forall_mem_nil _
  | item :: items, path, hpath, h => by
    obtain ⟨hitem, hitems⟩ := escapeless_append.1 h
    rw [Naming.items]
    exact List.forall_mem_append.2
      ⟨unescaped_item hsep item hpath hitem, unescaped_items hsep items hpath hitems⟩

end

end Naming

/-! ## Whole trees -/

/-- What the tree of a source keeps is spelled with characters of the source. -/
theorem escapeless_of_parseSource {options : Options} {source file : String} {tree : Scope}
    {count : Nat} (h : (parseSource options source file).result = .ok (tree, count))
    (hsource : Text.escape ∉ source.toList) : Escapeless (itemsKept tree.children) := by
  obtain ⟨stop, hparse⟩ := exists_parse_of_parseSource h
  obtain ⟨s, ⟨⟨tokens, hspelled, hrest⟩, -, -⟩, -⟩ := itemsRead_of_parse hparse
  intro t ht hmem
  have ht' : t ∈ (lex source file 1).tokens := by
    rw [show (lex source file 1).tokens = tokens ++ s.rest from hrest]
    exact List.mem_append_left _ (hspelled.kept_subset ht)
  exact hsource (text_subset_of_mem_lexFrom _ t ht' hmem)

/-- Whether a tree is rendered in color or not, without control sequences its text is
    the one in no color, or both fail alike. -/
theorem Scope.stripSequences_render {s : Scope} {separator : String}
    (hkept : Escapeless (itemsKept s.children)) (hsep : Text.escape ∉ separator.toList)
    (width : Int) (color : Bool) (builtins : List String) :
    (s.render ⟨width, color⟩ separator builtins).map Text.stripSequences =
      s.render ⟨width, false⟩ separator builtins := by
  have hpassages := Naming.unescaped_items (n := ⟨separator, builtins, typePathsOf [] s.children⟩)
    hsep s.children (List.forall_mem_nil _) hkept
  obtain ⟨hresult, hpages⟩ := (Page.colors_empty width color).attemptPassages hpassages
  rw [render, render]
  rcases hp : (Page.empty ⟨width, color⟩).attemptPassages _ with ⟨result, page⟩
  rcases hq : (Page.empty ⟨width, false⟩).attemptPassages _ with ⟨result', page'⟩
  rw [hp, hq] at hresult hpages
  cases hresult
  cases result with
  | ok _ => exact congrArg Except.ok hpages.stripSequences_text
  | error _ => rfl

end Flattener
