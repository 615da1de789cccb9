import Flattener.Proofs.Flattening.Visiting
import Flattener.Proofs.Grammar.WayOut
import Flattener.Proofs.Tree.Blocks

/-!
# Items leave the page as they found it

Whatever is written for an item, it ends its line, and what it indents it dedents again.
Declarations indent the members of a struct only (`Framed`). A raw run indents the insides
of braces that stand outside all parentheses; if its brackets are properly nested, each of
its closing braces stands outside of them exactly if the opening one does, and so the
level behind the run is that in front of it (`Nested.levelThrough_append`).

So an item that is visited at the start of a line leaves the page at the start of a line,
at the same level, and in the same namespace, unless it stops at an indentation that does
not fit (`visit_frames`).
-/

namespace Flattener

/-! ## Levels -/

namespace Page

variable {first second : List Directive}

/-- The directives leave the level as it is. -/
def Keeps (directives : List Directive) : Prop :=
  ∀ p : Page, (p.performAll directives).level = p.level

/-- At the start of a line, the directives lead to the start of a line, at the same
    level. -/
def Framed (directives : List Directive) : Prop :=
  Keeps directives ∧
    ∀ p : Page, p.atLineStart = true → (p.performAll directives).atLineStart = true

theorem keeps_nil : Keeps [] := fun _ => rfl

theorem Keeps.append (h : Keeps first) (h' : Keeps second) : Keeps (first ++ second) := fun p => by
  rw [performAll_append, h', h]

/-- Only two directives change the level. -/
theorem keeps_of_steady {directives : List Directive} (h : Steady directives) :
    Keeps directives := by
  induction directives with
  | nil => exact keeps_nil
  | cons directive others ih =>
    obtain ⟨hindent, hdedent⟩ := h
    rw [List.mem_cons, not_or] at hindent hdedent
    intro p
    have hlevel : (p.perform directive).level = p.level := by
      cases directive with
      | write text style => simp only [perform, write]; split <;> rfl
      | gap => simp only [perform, write]; split <;> rfl
      | newline => rfl
      | freshLine => simp only [perform]; split <;> rfl
      | indent => exact absurd rfl hindent.1
      | dedent => exact absurd rfl hdedent.1
    exact (ih ⟨hindent.2, hdedent.2⟩ _).trans hlevel

/-- What is indented is dedented behind it. -/
theorem Keeps.between (h : Keeps first) : Keeps (.indent :: (first ++ [.dedent])) := fun p => by
  show ((({ p with level := p.level + 1 } : Page).performAll (first ++ [.dedent])).level) = _
  rw [performAll_append]
  show (Page.performAll _ first).level - 1 = p.level
  rw [h]
  rfl

theorem framed_nil : Framed [] := ⟨keeps_nil, fun _ h => h⟩

theorem Framed.append (h : Framed first) (h' : Framed second) : Framed (first ++ second) := by
  refine ⟨h.1.append h'.1, fun p hp => ?_⟩
  rw [performAll_append]
  exact h'.2 _ (h.2 p hp)

theorem framed_flatMap {α : Type} {directives : α → List Directive} {list : List α}
    (h : ∀ x ∈ list, Framed (directives x)) : Framed (list.flatMap directives) := by
  induction list with
  | nil => exact framed_nil
  | cons x others ih =>
    obtain ⟨hx, hothers⟩ := List.forall_mem_cons.1 h
    exact hx.append (ih hothers)

/-- Behind a newline, a line begins. -/
theorem Keeps.newline (h : Keeps first) : Framed (first ++ [.newline]) := by
  refine ⟨h.append (keeps_of_steady (by decide)), fun p _ => ?_⟩
  rw [performAll_append]
  rfl

theorem Keeps.freshLine (h : Keeps first) : Framed (first ++ [.freshLine]) := by
  refine ⟨h.append (keeps_of_steady (by decide)), fun p _ => ?_⟩
  rw [performAll_append]
  show ((p.performAll first).perform .freshLine).atLineStart = true
  rw [perform]
  split
  · next hline => exact hline
  · rfl

end Page

/-! ## Declarations -/

namespace Naming

open Page

variable (n : Naming) (path : Path)

/-- A declaration ends with its line. -/
theorem framed_terminator {directives : List Directive} (h : Steady directives) :
    Framed (directives ++ terminator) := by
  have hline := (keeps_of_steady (h.append (steady_write ";" .operator))).newline
  rwa [List.append_assoc] at hline

theorem framed_variableDecl (v : Variable) : Framed (n.variableDecl path v) :=
  framed_terminator (n.steady_variableAs path (n.qualified path v.name.text) v)

theorem framed_functionDecl (f : Signature) : Framed (n.functionDecl path f) :=
  framed_terminator (n.steady_prototype path f)

/-- The members of a struct are indented, and what is behind them is not. -/
theorem framed_structAround (name : Name) {inside : List Directive} (h : Steady inside) :
    Framed (n.structAround path name inside) := by
  have hopen : Steady [.write " " .plain, .write openBrace .operator, .newline] := by decide
  have hlead := keeps_of_steady ((n.steady_structLead path name).append hopen)
  have hend := keeps_of_steady (steady_write (closeBrace ++ ";") .operator)
  have hline := ((hlead.append (keeps_of_steady h).between).append hend).newline
  simpa [structAround] using hline

theorem framed_structDecl (d : Struct) : Framed (n.structDecl path d) := by
  unfold structDecl
  split
  · exact framed_terminator (n.steady_structLead path d.name)
  · exact n.framed_structAround path d.name (steady_flatMap fun m _ => n.steady_member path m)

theorem framed_classDecl (d : Class) : Framed (directivesOf (n.classDecl path d)) := by
  unfold classDecl
  split
  · exact (framed_terminator (n.steady_structLead path d.name)).append framed_nil
  · next body _ =>
    have hinside := (n.steady_traitComment path body.traits).append
      (steady_flatMap fun m (_ : m ∈ body.members) => n.steady_member path m)
    have hmethods := framed_flatMap fun f (_ : f ∈ body.methods) =>
      n.framed_functionDecl (path ++ [d.name.text]) f
    exact (n.framed_structAround path d.name hinside).append (hmethods.append framed_nil)

end Naming

/-! ## Raw runs -/

/-- Every bracket is closed by one of its kind, behind all that are opened inside. -/
inductive Nested : List Token → Prop
  | nil : Nested []
  | plain {t : Token} {rest : List Token} : t.isOperator (openers ++ closers) = false →
    Nested rest → Nested (t :: rest)
  | group {opening closing : Token} {left right : String} {inside rest : List Token} :
    (left, right) ∈ [("(", ")"), ("[", "]"), (openBrace, closeBrace)] →
    opening.isOperator [left] = true → Nested inside → closing.isOperator [right] = true →
    Nested rest → Nested (opening :: (inside ++ closing :: rest))

/-- The level behind a token of a raw run: braces outside all parentheses change it. -/
def levelAt (depth level : Nat) (t : Token) : Nat :=
  if depth = 0 ∧ t.isOperator [closeBrace] then level - 1
  else if depth = 0 ∧ t.isOperator [openBrace] then level + 1
  else level

/-- The level behind tokens of a raw run, with so many parentheses open in front. -/
def levelThrough (depth level : Nat) : List Token → Nat
  | [] => level
  | t :: rest => levelThrough (parenDepth depth t) (levelAt depth level t) rest

namespace Page

theorem level_leadOf (p : Page) (depth : Nat) (t : Token) :
    (p.performAll (leadOf depth t)).level =
      if depth = 0 ∧ t.isOperator [closeBrace] then p.level - 1 else p.level := by
  unfold leadOf
  split
  · have hline : Keeps [.freshLine] := keeps_of_steady (by decide)
    exact congrArg (· - 1) (hline p)
  · rfl

theorem level_trailOf (p : Page) (depth : Nat) (t : Token) :
    (p.performAll (trailOf depth t)).level =
      if depth = 0 ∧ t.isOperator [openBrace] then p.level + 1 else p.level := by
  unfold trailOf
  by_cases hopen : t.isOperator [openBrace] = true
  · have hends : t.isOperator [";", openBrace, closeBrace] = true :=
      Token.isOperator_mono (by decide) hopen
    simp only [hopen, hends, and_true, if_true]
    split <;> rfl
  · simp only [hopen, and_false, if_false, Bool.false_eq_true]
    split <;> rfl

/-- What is written for a token of a raw run changes the level as its braces do. -/
theorem level_lines (n : Naming) (tokens : List Token) (p : Page) (depth : Nat) (behind : Bool) :
    (p.performAll (n.lines depth behind tokens)).level = levelThrough depth p.level tokens := by
  induction tokens generalizing p depth behind with
  | nil => rfl
  | cons t tokens ih =>
    have htext : Keeps ((if behind then [.gap] else []) ++ [.write t.text (n.tokenStyle t)]) := by
      cases behind <;> exact keeps_of_steady (by simp [Steady])
    have hsplit : n.lines depth behind (t :: tokens) = leadOf depth t ++
        (((if behind then [.gap] else []) ++ [.write t.text (n.tokenStyle t)]) ++
          (trailOf depth t ++ n.lines (parenDepth depth t) true tokens)) := by
      simp [Naming.lines]
    rw [hsplit, performAll_append, performAll_append, performAll_append, ih, level_trailOf, htext,
      level_leadOf, levelThrough, levelAt]
    -- a brace is either a closing or an opening one
    by_cases hclose : t.isOperator [closeBrace] = true
    · have hopen : t.isOperator [openBrace] = false :=
        Token.isOperator_eq_false_of_stop hclose (by decide)
      simp [hclose, hopen]
    · simp [hclose]

end Page

/-- A token that is neither a parenthesis nor a brace changes nothing. -/
theorem levelThrough_of_plain {t : Token} (h : t.isOperator (openers ++ closers) = false)
    (depth level : Nat) (rest : List Token) :
    levelThrough depth level (t :: rest) = levelThrough depth level rest := by
  have hnone {spellings : List String} (hsubset : spellings ⊆ openers ++ closers) :
      ¬t.isOperator spellings = true := fun hsome => by
    rw [Token.isOperator_mono hsubset hsome] at h
    cases h
  have hdepth : parenDepth depth t = depth := by
    rw [parenDepth, if_neg (hnone (by decide)), if_neg (hnone (by decide))]
  have hlevel : levelAt depth level t = level := by
    rw [levelAt, if_neg fun hclose => hnone (by decide) hclose.2,
      if_neg fun hopen => hnone (by decide) hopen.2]
  rw [levelThrough, hdepth, hlevel]

/-- Behind properly nested brackets, the level is what it was in front of them, and so is
    the number of open parentheses. -/
theorem Nested.levelThrough_append {tokens : List Token} (h : Nested tokens) (depth level : Nat)
    (rest : List Token) :
    levelThrough depth level (tokens ++ rest) = levelThrough depth level rest := by
  induction h generalizing depth level rest with
  | nil => rfl
  | plain hplain _ ih =>
    rw [List.cons_append, levelThrough_of_plain hplain]
    exact ih depth level rest
  | @group opening closing left right inside behind hkind hopen _ hclose _ ih ihrest =>
    have hopening := Token.isOperator_of_singleton hopen
    have hclosing := Token.isOperator_of_singleton hclose
    have hshape : opening :: (inside ++ closing :: behind) ++ rest =
        opening :: (inside ++ closing :: (behind ++ rest)) := by simp
    rw [hshape, levelThrough, ih, levelThrough, ihrest]
    -- the level inside differs only where the closing brace sees no parenthesis either
    simp only [List.mem_cons, Prod.mk.injEq, List.not_mem_nil, or_false] at hkind
    obtain ⟨rfl, rfl⟩ | ⟨rfl, rfl⟩ | ⟨rfl, rfl⟩ := hkind
    · simp [parenDepth, levelAt, hopening, hclosing, openBrace, closeBrace]
    · simp [parenDepth, levelAt, hopening, hclosing, openBrace, closeBrace]
    · simp only [parenDepth, levelAt, hopening, hclosing, openBrace, closeBrace]
      cases depth <;> simp

/-- The brackets of all raw runs in a list of nodes are properly nested. -/
def RunsNested (nodes : List Node) : Prop :=
  ∀ run, .rawRun run ∈ nodes → Nested run.tokens

theorem runsNested_of_filter {nodes : List Node} {runs : List RawRun}
    (h : nodes.filter (·.kind = .rawRun) = runs.map .rawRun)
    (hruns : ∀ run ∈ runs, Nested run.tokens) : RunsNested nodes := by
  intro run hrun
  have hmem : Node.rawRun run ∈ nodes.filter (·.kind = .rawRun) :=
    List.mem_filter.2 ⟨hrun, rfl⟩
  rw [h, List.mem_map] at hmem
  obtain ⟨_, hmem, ⟨⟩⟩ := hmem
  exact hruns run hmem

namespace Naming

open Page

theorem framed_rawRun (n : Naming) {run : RawRun} (h : Nested run.tokens) :
    Framed (n.rawRun run) := by
  refine Keeps.freshLine fun p => ?_
  have hlevel := h.levelThrough_append 0 p.level []
  rw [List.append_nil] at hlevel
  exact (level_lines n run.tokens p 0 false).trans hlevel

/-! ## Items -/

mutual

theorem framed_item : ∀ (n : Naming) (path : Path) (item : Item),
    RunsNested (item.walk fun _ => true) → Framed (directivesOf (n.item path item))
  | n, path, .raw run, h => by
    have hrun : Nested run.tokens := h run List.mem_cons_self
    exact (n.framed_rawRun hrun).append framed_nil
  | n, path, .variableDecl v, _ => (n.framed_variableDecl path v).append framed_nil
  | n, path, .functionDecl f, _ => (n.framed_functionDecl path f).append framed_nil
  | n, path, .structDecl d, _ => (n.framed_structDecl path d).append framed_nil
  | n, path, .classDecl d, _ => n.framed_classDecl path d
  | n, path, .namespaceDecl name children, h => by
    have hchildren : RunsNested (walkItems (fun _ => true) children) := fun run hrun =>
      h run (List.mem_cons_of_mem _ hrun)
    exact framed_items n (path ++ [name.text]) children hchildren

/-- Items are written one behind the other, each on lines of its own. -/
theorem framed_items : ∀ (n : Naming) (path : Path) (items : List Item),
    RunsNested (walkItems (fun _ => true) items) → Framed (directivesOf (n.items path items))
  | _, _, [], _ => framed_nil
  | n, path, first :: others, h => by
    have hfirst := framed_item n path first fun run hrun => h run (List.mem_append_left _ hrun)
    have hothers := framed_items n path others fun run hrun => h run (List.mem_append_right _ hrun)
    rw [Naming.items, directivesOf, List.flatMap_append]
    exact hfirst.append hothers

end

end Naming

/-- An item as a node. -/
def Item.node : Item → Node
  | .raw run => .rawRun run
  | .variableDecl v => .variableDecl v
  | .functionDecl f => .functionDecl f
  | .structDecl d => .structDecl d
  | .classDecl d => .classDecl d
  | .namespaceDecl name children => .namespaceDecl name children

theorem Naming.node_node (n : Naming) (path : Path) (item : Item) :
    n.node path item.node = n.item path item := by
  cases item <;> rfl

theorem walk_subset_of_mem {items : List Item} {item : Item} (h : item ∈ items) :
    item.walk (fun _ => true) ⊆ walkItems (fun _ => true) items := by
  induction items with
  | nil => cases h
  | cons first others ih =>
    rw [walkItems]
    rcases List.mem_cons.1 h with rfl | h
    · exact List.subset_append_left _ _
    · exact List.Subset.trans (ih h) (List.subset_append_right _ _)

/-- What is in a block is in what is around it. -/
theorem Block.walk_subset {items children : List Item} {path : Path}
    (h : Block items path children) :
    walkItems (fun _ => true) children ⊆ walkItems (fun _ => true) items := by
  induction h with
  | whole => exact List.Subset.refl _
  | @inside items children inner name path hmem _ ih =>
    have hinside : walkItems (fun _ => true) children ⊆
        (Item.namespaceDecl name children).walk fun _ => true := List.subset_cons_self _ _
    exact List.Subset.trans ih (List.Subset.trans hinside (walk_subset_of_mem hmem))

/-! ## Visits -/

/-- A session that finds a page at the start of a line can visit any item of a tree, as
    the node that it is, if the brackets of the raw runs of the tree are properly nested.
    If the indentation fits at the level of every line of the item, the session is left in
    the same namespace and at the same level, at the start of a line. If it does not, that
    is all that goes wrong. -/
theorem visit_frames {tree : Scope} (hnested : RunsNested tree.nodes) {path : Path}
    {children : List Item} (hblock : Block tree.children path children) {item : Item}
    (hitem : item ∈ children) {s : RenderSession} (hline : s.page.atLineStart = true) :
    let levels := s.page.levels (directivesOf (s.naming.item s.path item))
    (∀ place, signedGet s.scope.nodes place = .ok item.node → s.visit place = s.visitItem item) ∧
    (Text.Fits levels s.page.settings.indentWidth →
      ∃ page, s.visitItem item = (.ok (), { s with page := page }) ∧ page.atLineStart = true ∧
        page.level = s.page.level ∧ page.settings = s.page.settings) ∧
    (¬Text.Fits levels s.page.settings.indentWidth →
      (s.visitItem item).1 = .error .tooWide) := by
  have hframed : Page.Framed (directivesOf (s.naming.item s.path item)) := by
    refine s.naming.framed_item s.path item fun run hrun => hnested run ?_
    exact List.mem_cons_of_mem _ (hblock.walk_subset (walk_subset_of_mem hitem hrun))
  rw [RenderSession.visitItem_eq]
  refine ⟨fun place hplace => ?_, fun hfits => ?_, RenderSession.attempt_of_not_fits⟩
  · rw [RenderSession.visit, hplace]
    dsimp only
    rw [Naming.node_node]
  · exact ⟨_, RenderSession.attempt_of_fits hfits, hframed.2 _ hline, hframed.1 _,
      Page.settings_performAll _ _⟩

/-- A namespace with a loop and a class in it:

        namespace n { while (a { }) { b[1]; } class c { int x; int m(); }; } -/
def loopInNamespace : List Token :=
  [Lexeme.identifier "namespace", .identifier "n", .operator openBrace, .identifier "while",
    .operator "(", .identifier "a", .operator openBrace, .operator closeBrace, .operator ")",
    .operator openBrace, .identifier "b", .operator "[", .integer "1" 1, .operator "]",
    .operator ";", .operator closeBrace, .identifier "class", .identifier "c",
    .operator openBrace, .identifier "int", .identifier "x", .operator ";", .identifier "int",
    .identifier "m", .operator "(", .operator ")", .operator ";", .operator closeBrace,
    .operator ";", .operator closeBrace].map (Token.mk · default)

/-- Inside of another namespace and at the second level, all of it is written, and the page
    is at the start of a line of the second level again. -/
theorem visit_frames_loopInNamespace : ∃ tree item,
    (parse ["int"] [] loopInNamespace default).result = .ok tree ∧ tree.children = [item] ∧
    RunsNested tree.nodes ∧
    let s : RenderSession := ⟨tree, ⟨"_", ["int"], []⟩, ["outer"], ⟨.standard, "", 2, true⟩⟩
    ∃ page, s.visit 1 = (.ok (), { s with page := page }) ∧ page.atLineStart = true ∧
      page.level = 2 := by
  let page : Page := ⟨.standard, "", 2, true⟩
  obtain ⟨tree, item, run, hparse, hchildren, hnode, hruns, htokens, hlevels⟩ : ∃ tree item run,
      (parse ["int"] [] loopInNamespace default).result = .ok tree ∧ tree.children = [item] ∧
      signedGet tree.nodes 1 = .ok item.node ∧
      tree.nodes.filter (·.kind = .rawRun) = [run].map .rawRun ∧
      run.tokens = (loopInNamespace.drop 3).take 13 ∧
      page.levels (directivesOf ((Naming.mk "_" ["int"] []).item ["outer"] item)) =
        [2, 3, 2, 2, 3, 2, 2] := ⟨_, _, _, rfl, rfl, rfl, rfl, rfl, by decide +kernel⟩
  have hrun : Nested run.tokens := by
    rw [htokens]
    let word (text : String) : Token := ⟨.identifier text, default⟩
    let mark (text : String) : Token := ⟨.operator text, default⟩
    let one : Token := ⟨.integer "1" 1, default⟩
    have hcondition : Nested [word "a", mark openBrace, mark closeBrace] :=
      .plain rfl (@Nested.group (mark openBrace) (mark closeBrace) openBrace closeBrace [] []
        (by decide) rfl .nil rfl .nil)
    have hbody : Nested [word "b", mark "[", one, mark "]", mark ";"] :=
      .plain rfl (@Nested.group (mark "[") (mark "]") "[" "]" [one] [mark ";"] (by decide) rfl
        (.plain rfl .nil) rfl (.plain rfl .nil))
    have hbraces := @Nested.group (mark openBrace) (mark closeBrace) openBrace closeBrace _ []
      (by decide) rfl hbody rfl .nil
    exact .plain rfl (@Nested.group (mark "(") (mark ")") "(" ")" _ _ (by decide) rfl hcondition rfl
      hbraces)
  have hnested : RunsNested tree.nodes :=
    runsNested_of_filter hruns (List.forall_mem_singleton.2 hrun)
  refine ⟨tree, item, hparse, hchildren, hnested, ?_⟩
  intro s
  have hitem : item ∈ tree.children := by rw [hchildren]; exact List.mem_singleton_self item
  obtain ⟨hvisit, hframed, -⟩ :=
    visit_frames hnested .whole hitem (show s.page.atLineStart = true from rfl)
  have hfits : Text.Fits (page.levels (directivesOf ((Naming.mk "_" ["int"] []).item ["outer"]
      item))) 4 := by
    rw [hlevels]
    decide
  obtain ⟨page, hdone, hline, hlevel, -⟩ := hframed hfits
  exact ⟨page, (hvisit 1 hnode).trans hdone, hline, hlevel⟩

/-- A struct with one member:

        struct A { int x; }; -/
def narrowStruct : List Token :=
  [Lexeme.identifier "struct", .identifier "A", .operator openBrace, .identifier "int",
    .identifier "x", .operator ";", .operator closeBrace, .operator ";"].map (Token.mk · default)

/-- An indentation that is not a number of characters stops the visit of the struct, and
    the page is left at the level of the member. -/
theorem visit_stops_at_vast_width : ∃ tree item,
    (parse ["int"] [] narrowStruct default).result = .ok tree ∧ tree.children = [item] ∧
    RunsNested tree.nodes ∧
    let s := RenderSession.start tree ⟨-100000000000000000000, false⟩ "_" ["int"]
    s.page.atLineStart = true ∧ s.page.level = 0 ∧ signedGet tree.nodes 1 = .ok item.node ∧
      (s.visit 1).1 = .error .tooWide ∧ (s.visit 1).2.page.level = 1 := by
  refine ⟨_, _, rfl, rfl, ?_, rfl, rfl, rfl, ?_, ?_⟩
  · exact runsNested_of_filter (show _ = [].map Node.rawRun from rfl) (List.forall_mem_nil _)
  · decide +kernel
  · decide +kernel

end Flattener
