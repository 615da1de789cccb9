import Flattener.Flattening.Declaration
import Flattener.Grammar.Aggregate
import Flattener.Tree.Outline

/-!
# Places aside

Tokens, names and all that is made of them know where they stand in a text. A
value without its places is the *bare* one (`Placed.bare`): all of its tokens and
names stand at one and the same place. What a reader sees of a tree is the same
of the bare tree: its outline (`outline_bare`) and the text that it is written as
(`render_bare`).
-/

namespace Flattener

/-- Values that may hold places. -/
class Placed (α : Type) where
  /-- The value with all its places replaced by the same one. -/
  bare : α → α

export Placed (bare)

variable {α β : Type}

/-! ## Values without places -/

instance : Placed Bool := ⟨id⟩

instance : Placed Nat := ⟨id⟩

instance : Placed Unit := ⟨id⟩

/-! ## Tokens and what they are parts of -/

instance : Placed Token := ⟨fun t => { t with location := default }⟩

instance : Placed Name := ⟨fun n => { n with location := default }⟩

instance [Placed α] : Placed (Option α) := ⟨Option.map bare⟩

instance [Placed α] : Placed (List α) := ⟨List.map bare⟩

instance [Placed α] [Placed β] : Placed (α × β) := ⟨Prod.map bare bare⟩

instance [Placed α] [Placed β] : Placed (α ⊕ β) := ⟨Sum.map bare bare⟩

instance : Placed RawRun := ⟨fun r => ⟨bare r.first, bare r.others⟩⟩

instance : Placed TypeRef := ⟨fun t => { t with name := bare t.name }⟩

instance : Placed Variable := ⟨fun v => ⟨bare v.name, bare v.type, bare v.initial⟩⟩

instance : Placed Field := ⟨fun f => { f with declared := bare f.declared }⟩

instance : Placed Signature := ⟨fun s => ⟨bare s.name, bare s.returns, bare s.parameters⟩⟩

instance : Placed Member where
  bare
    | .field declared => .field (bare declared)
    | .functionPointer declared => .functionPointer (bare declared)

instance : Placed Struct := ⟨fun s => ⟨bare s.name, bare s.members⟩⟩

instance : Placed ClassBody := ⟨fun b => ⟨bare b.traits, bare b.members, bare b.methods⟩⟩

instance : Placed Class := ⟨fun c => ⟨bare c.name, bare c.body⟩⟩

mutual

/-- An item without its places. -/
def Item.withoutPlaces : Item → Item
  | .raw run => .raw (bare run)
  | .variableDecl declared => .variableDecl (bare declared)
  | .functionDecl declared => .functionDecl (bare declared)
  | .structDecl declared => .structDecl (bare declared)
  | .classDecl declared => .classDecl (bare declared)
  | .namespaceDecl name children => .namespaceDecl (bare name) (itemsWithoutPlaces children)

/-- Items without the places of their tokens. -/
def itemsWithoutPlaces : List Item → List Item
  | [] => []
  | item :: items => item.withoutPlaces :: itemsWithoutPlaces items

end

instance : Placed Item := ⟨Item.withoutPlaces⟩

theorem itemsWithoutPlaces_eq (items : List Item) : itemsWithoutPlaces items = bare items := by
  induction items with
  | nil => rfl
  | cons item items ih => exact congrArg (item.withoutPlaces :: ·) ih

theorem bare_namespaceDecl (name : Name) (children : List Item) :
    bare (Item.namespaceDecl name children) = .namespaceDecl (bare name) (bare children) := by
  rw [← itemsWithoutPlaces_eq]
  rfl

instance : Placed Scope := ⟨fun s => ⟨default, bare s.children⟩⟩

theorem bare_append (first second : List Token) :
    bare (first ++ second) = bare first ++ bare second :=
  List.map_append

/-- Tokens in front of items, all without their places. -/
theorem bare_consRaw (tokens : List Token) (items : List Item) :
    bare (Item.consRaw tokens items) = Item.consRaw (bare tokens) (bare items) := by
  rcases tokens with _ | ⟨first, others⟩
  · rfl
  rcases items with _ | ⟨_ | _, items⟩
  case cons.raw run =>
    have hrun : bare (⟨first, others ++ run.tokens⟩ : RawRun) =
        ⟨bare first, bare others ++ bare run.tokens⟩ :=
      congrArg (RawRun.mk (bare first)) (bare_append others run.tokens)
    exact congrArg (Item.raw · :: bare items) hrun
  all_goals rfl

/-- What is made of each element of a list without a look at its places. -/
theorem map_bare [Placed α] {f : α → β} (h : ∀ a, f (bare a) = f a) (list : List α) :
    (bare list).map f = list.map f :=
  List.map_map.trans (List.map_congr_left fun a _ => h a)

theorem flatMap_bare [Placed α] {f : α → List β} (h : ∀ a, f (bare a) = f a) (list : List α) :
    (bare list).flatMap f = list.flatMap f := by
  rw [List.flatMap_def, List.flatMap_def, map_bare h]

/-! ## What is written -/

namespace Naming

variable (n : Naming) (path : Path)

theorem lines_bare (depth : Nat) (behind : Bool) (tokens : List Token) :
    n.lines depth behind (bare tokens) = n.lines depth behind tokens := by
  induction tokens generalizing depth behind with
  | nil => rfl
  | cons t tokens ih =>
    have hrest := ih (parenDepth depth t) true
    simp only [lines, ← hrest]
    rfl

theorem rawRun_bare (run : RawRun) : n.rawRun (bare run) = n.rawRun run :=
  congrArg (· ++ [Directive.freshLine]) (n.lines_bare 0 false run.tokens)

theorem initializer_bare (run : RawRun) : n.initializer (bare run) = n.initializer run :=
  congrArg (_ :: ·) (flatMap_bare (fun _ => rfl) run.others)

theorem variableAs_bare (name : String) (v : Variable) :
    n.variableAs path name (bare v) = n.variableAs path name v := by
  obtain ⟨own, type, initial⟩ := v
  cases initial with
  | none => rfl
  | some run =>
    have hrun := n.initializer_bare run
    simp only [variableAs, initialSuffix, ← hrun]
    rfl

theorem variableDecl_bare (v : Variable) : n.variableDecl path (bare v) = n.variableDecl path v :=
  congrArg (· ++ terminator) (n.variableAs_bare path (n.qualified path v.name.text) v)

theorem fieldDecl_bare (f : Field) : n.fieldDecl path (bare f) = n.fieldDecl path f :=
  congrArg (· ++ terminator) (n.variableAs_bare path f.declared.name.text f.declared)

theorem parameters_bare (list : List Variable) :
    n.parameters path (bare list) = n.parameters path list := by
  cases list with
  | nil => rfl
  | cons first others =>
    have hvariable (v : Variable) :
        n.variableAs path (bare v).name.text (bare v) = n.variableAs path v.name.text v :=
      n.variableAs_bare path v.name.text v
    have hothers : (bare others).flatMap (fun v => Directive.write "," .operator ::
        .write " " .plain :: n.variableAs path v.name.text v) = others.flatMap fun v =>
          .write "," .operator :: .write " " .plain :: n.variableAs path v.name.text v :=
      flatMap_bare (fun v => by rw [hvariable]) others
    show n.parameters path (bare first :: bare others) = _
    simp only [parameters, hvariable, hothers]

theorem functionDecl_bare (s : Signature) :
    n.functionDecl path (bare s) = n.functionDecl path s := by
  have hparameters : n.parameters path (bare s).parameters = n.parameters path s.parameters :=
    n.parameters_bare path s.parameters
  rw [functionDecl, hparameters]
  rfl

theorem functionPointer_bare (s : Signature) :
    n.functionPointer path (bare s) = n.functionPointer path s := by
  have hparameters : n.parameters path (bare s).parameters = n.parameters path s.parameters :=
    n.parameters_bare path s.parameters
  rw [functionPointer, hparameters]
  rfl

theorem member_bare (m : Member) : n.member path (bare m) = n.member path m := by
  cases m with
  | field declared => exact n.fieldDecl_bare path declared
  | functionPointer declared => exact n.functionPointer_bare path declared

theorem structDecl_bare (s : Struct) : n.structDecl path (bare s) = n.structDecl path s := by
  obtain ⟨name, _ | members⟩ := s
  · rfl
  · exact congrArg (n.structAround path name ·) (flatMap_bare (n.member_bare path) members)

theorem traitComment_bare (traits : List TypeRef) :
    n.traitComment path (bare traits) = n.traitComment path traits := by
  have hnames : (bare traits).map (fun trait => n.resolved path trait.name.text) =
      traits.map fun trait => n.resolved path trait.name.text := map_bare (fun _ => rfl) traits
  rw [traitComment, traitComment, hnames]
  cases traits <;> rfl

theorem classDecl_bare (d : Class) : n.classDecl path (bare d) = n.classDecl path d := by
  obtain ⟨name, _ | ⟨traits, members, methods⟩⟩ := d
  · rfl
  · have hmembers := flatMap_bare (n.member_bare path) members
    have hmethods := flatMap_bare (n.functionDecl_bare (path ++ [name.text])) methods
    show n.classDecl path ⟨bare name, some ⟨bare traits, bare members, bare methods⟩⟩ = _
    simp only [classDecl, traitComment_bare, hmembers]
    rw [← hmethods]
    rfl

mutual

theorem item_bare : ∀ (path : Path) (item : Item), n.item path (bare item) = n.item path item
  | path, .raw run => congrArg ([Passage.mk path ·]) (n.rawRun_bare run)
  | path, .variableDecl v => congrArg ([Passage.mk path ·]) (n.variableDecl_bare path v)
  | path, .functionDecl s => congrArg ([Passage.mk path ·]) (n.functionDecl_bare path s)
  | path, .structDecl s => congrArg ([Passage.mk path ·]) (n.structDecl_bare path s)
  | path, .classDecl d => n.classDecl_bare path d
  | path, .namespaceDecl name children => by
    rw [bare_namespaceDecl, item, item]
    exact items_bare (path ++ [name.text]) children

theorem items_bare : ∀ (path : Path) (items : List Item),
    n.items path (bare items) = n.items path items
  | _, [] => rfl
  | path, item :: items => by
    rw [Naming.items, ← item_bare path item, ← items_bare path items]
    rfl

end

end Naming

mutual

theorem typePaths_bare : ∀ (path : Path) (item : Item), (bare item).typePaths path = item.typePaths path
  | _, .raw _ => rfl
  | _, .variableDecl _ => rfl
  | _, .functionDecl _ => rfl
  | _, .structDecl _ => rfl
  | _, .classDecl _ => rfl
  | path, .namespaceDecl name children => by
    rw [bare_namespaceDecl, Item.typePaths, Item.typePaths]
    exact typePathsOf_bare (path ++ [name.text]) children

theorem typePathsOf_bare : ∀ (path : Path) (items : List Item),
    typePathsOf path (bare items) = typePathsOf path items
  | _, [] => rfl
  | path, item :: items => by
    rw [typePathsOf, ← typePaths_bare path item, ← typePathsOf_bare path items]
    rfl

end

/-- A tree is written as the same text wherever its tokens stood. -/
theorem render_bare (s : Scope) (settings : PageSettings) (separator : String)
    (builtins : List String) :
    (bare s).render settings separator builtins = s.render settings separator builtins := by
  show Scope.render ⟨default, bare s.children⟩ settings separator builtins = _
  simp only [Scope.render, typePathsOf_bare, Naming.items_bare]

/-! ## Outlines -/

theorem RawRun.text_bare (r : RawRun) : (bare r).text = r.text :=
  congrArg (" ".intercalate ·) (map_bare (f := Token.text) (fun _ => rfl) r.tokens)

theorem Variable.summary_bare (v : Variable) : (bare v).summary = v.summary := by
  obtain ⟨name, type, _ | run⟩ := v
  · rfl
  · have hrun := run.text_bare
    show Variable.summary ⟨bare name, bare type, some (bare run)⟩ = _
    simp only [summary, hrun]
    rfl

theorem Signature.parameterList_bare (s : Signature) :
    (bare s).parameterList = s.parameterList :=
  congrArg (fun names => "(" ++ ", ".intercalate names ++ ")")
    (map_bare (f := fun p : Variable => s!"{p.type.text} {p.name.text}") (fun _ => rfl) s.parameters)

theorem Signature.summary_bare (s : Signature) : (bare s).summary = s.summary :=
  congrArg (fun row => s!"Function: {s.returns.text} {s.name.text}{row}") s.parameterList_bare

theorem Signature.pointerSummary_bare (s : Signature) :
    (bare s).pointerSummary = s.pointerSummary :=
  congrArg (fun row => s!"FunctionPointer: {s.returns.text} (*{s.name.text}){row}")
    s.parameterList_bare

theorem Member.summary_bare (m : Member) : (bare m).summary = m.summary := by
  cases m with
  | field declared =>
    exact congrArg (fun text => s!"Field ({declared.access.keyword}): {text}")
      declared.declared.summary_bare
  | functionPointer declared => exact declared.pointerSummary_bare

theorem map_summary_bare (depth : Nat) (members : List Member) :
    (bare members).map (fun m => outlineLine depth m.summary) =
      members.map fun m => outlineLine depth m.summary :=
  map_bare (fun m => by rw [m.summary_bare]) members

theorem Struct.outline_bare (depth : Nat) (s : Struct) : (bare s).outline depth = s.outline depth := by
  obtain ⟨name, _ | members⟩ := s
  · rfl
  · exact congrArg (_ :: ·) (map_summary_bare (depth + 1) members)

theorem Class.outline_bare (depth : Nat) (d : Class) : (bare d).outline depth = d.outline depth := by
  obtain ⟨name, _ | ⟨traits, members, methods⟩⟩ := d
  · rfl
  · have htraits : (bare traits).map (fun trait => trait.name.text) =
        traits.map fun trait => trait.name.text := map_bare (fun _ => rfl) traits
    have hmethods : (bare methods).map (fun m => outlineLine (depth + 1) m.summary) =
        methods.map fun m => outlineLine (depth + 1) m.summary :=
      map_bare (fun m => by rw [m.summary_bare]) methods
    show Class.outline depth ⟨bare name, some ⟨bare traits, bare members, bare methods⟩⟩ = _
    simp only [Class.outline, htraits, map_summary_bare, hmethods]
    rfl

mutual

theorem Item.outline_bare : ∀ (depth : Nat) (item : Item), (bare item).outline depth = item.outline depth
  | depth, .raw run => congrArg (fun text => [outlineLine depth s!"Raw: {text}"]) run.text_bare
  | depth, .variableDecl v =>
    congrArg (fun text => [outlineLine depth s!"Variable: {text}"]) v.summary_bare
  | depth, .functionDecl s => congrArg (fun text => [outlineLine depth text]) s.summary_bare
  | depth, .structDecl s => s.outline_bare depth
  | depth, .classDecl d => d.outline_bare depth
  | depth, .namespaceDecl name children => by
    rw [bare_namespaceDecl, Item.outline, outlineItems_bare (depth + 1) children]
    rfl

theorem outlineItems_bare : ∀ (depth : Nat) (items : List Item),
    outlineItems depth (bare items) = outlineItems depth items
  | _, [] => rfl
  | depth, item :: items => by
    rw [outlineItems, ← Item.outline_bare depth item, ← outlineItems_bare depth items]
    rfl

end

/-- The outline of a tree does not show where its tokens stood. -/
theorem outline_bare (s : Scope) : (Node.scope (bare s)).outline = (Node.scope s).outline :=
  congrArg (fun lines => "\n".intercalate (outlineLine 0 "Scope" :: lines))
    (outlineItems_bare 1 s.children)

end Flattener
