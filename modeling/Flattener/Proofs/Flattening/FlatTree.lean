import Flattener.Proofs.Flattening.Rendering
import Flattener.Proofs.Grammar.Writing
import Flattener.Proofs.Tree.Places

/-!
# The tree of a flattened text

What a tree is flattened to is a tree again (`Naming.flatItems`): there are no
namespaces, types have the names that they mean and all else its qualified one,
classes are structs with public fields, and their methods are functions behind them.
Written down, that tree is what the first one is flattened to (`Naming.says_flatItems`),
but for pointers to functions, which lose the keyword that they are read by.
-/

namespace Flattener

namespace Naming

/-! ## Flat trees -/

section

variable (n : Naming) (path : Path)

/-- A type by the name that is written for it. -/
def flatType (t : TypeRef) : TypeRef :=
  ⟨⟨n.resolved path t.name.text, default⟩, t.pointers, t.arraySize⟩

/-- A variable under the name by which it is written. -/
def flatVariable (name : String) (v : Variable) : Variable :=
  ⟨⟨name, default⟩, n.flatType path v.type, bare v.initial⟩

/-- A signature under the name by which it is written. -/
def flatSignature (name : String) (s : Signature) : Signature :=
  ⟨⟨name, default⟩, n.flatType path s.returns,
    s.parameters.map fun v => n.flatVariable path v.name.text v⟩

/-- A member of a struct, which is public. -/
def flatMember : Member → Member
  | .field f => .field ⟨.publicAccess, n.flatVariable path f.declared.name.text f.declared⟩
  | .functionPointer s => .functionPointer (n.flatSignature path s.name.text s)

/-- A struct by its qualified name. -/
def flatStruct (name : Name) (members : Option (List Member)) : Struct :=
  ⟨⟨n.qualified path name.text, default⟩, members.map (List.map (n.flatMember path))⟩

/-- A function by its qualified name. -/
def flatFunction (s : Signature) : Item :=
  .functionDecl (n.flatSignature path (n.qualified path s.name.text) s)

/-- A class as a struct, and its methods behind it. -/
def flatClass (d : Class) : List Item :=
  .structDecl (n.flatStruct path d.name (d.body.map (·.members))) :: match d.body with
    | none => []
    | some body => body.methods.map (n.flatFunction (path ++ [d.name.text]))

end

mutual

/-- An item without namespaces and classes. -/
def flatItem (n : Naming) (path : Path) : Item → List Item
  | .raw run => [.raw (bare run)]
  | .variableDecl v => [.variableDecl (n.flatVariable path (n.qualified path v.name.text) v)]
  | .functionDecl s => [n.flatFunction path s]
  | .structDecl s => [.structDecl (n.flatStruct path s.name s.members)]
  | .classDecl d => n.flatClass path d
  | .namespaceDecl name children => n.flatItems (path ++ [name.text]) children

/-- Items without namespaces and classes, in order. -/
def flatItems (n : Naming) (path : Path) : List Item → List Item
  | [] => []
  | item :: items => n.flatItem path item ++ n.flatItems path items

end

end Naming

/-- The node is no pointer to a function and no class with traits. -/
def Node.Kept : Node → Prop
  | .functionPointer _ => False
  | .classDecl d => ∀ body, d.body = some body → body.traits = []
  | _ => True

/-- All nodes of items are kept. -/
def ItemsKept (items : List Item) : Prop :=
  ∀ node ∈ walkItems (fun _ => true) items, node.Kept

section

variable {item : Item} {items : List Item} {name : Name} {members : List Member}

theorem itemsKept_cons : ItemsKept (item :: items) ↔
    (∀ node ∈ item.walk fun _ => true, node.Kept) ∧ ItemsKept items := by
  rw [ItemsKept, walkItems, List.forall_mem_append]
  rfl

theorem itemsKept_of_namespaceDecl
    (h : ∀ node ∈ (Item.namespaceDecl name items).walk fun _ => true, node.Kept) :
    ItemsKept items := by
  rw [Item.walk] at h
  exact (List.forall_mem_cons.1 h).2

/-- Members that are kept are fields. -/
theorem exists_field_of_kept
    (h : ∀ node ∈ members.flatMap (Member.walk fun _ => true), node.Kept) :
    ∀ m ∈ members, ∃ f, m = .field f := by
  intro m hm
  cases m with
  | field f => exact ⟨f, rfl⟩
  | functionPointer s => exact absurd (h _ (List.mem_flatMap.2 ⟨_, hm, List.mem_cons_self⟩)) id

theorem exists_field_of_structDecl {s : Struct}
    (h : ∀ node ∈ (Item.structDecl s).walk fun _ => true, node.Kept) :
    ∀ members, s.members = some members → ∀ m ∈ members, ∃ f, m = .field f := by
  rintro members hmembers
  rw [Item.walk, Struct.walk, hmembers] at h
  exact exists_field_of_kept (List.forall_mem_cons.1 h).2

theorem traits_of_classDecl {d : Class}
    (h : ∀ node ∈ (Item.classDecl d).walk fun _ => true, node.Kept) :
    ∀ body, d.body = some body → body.traits = [] ∧ ∀ m ∈ body.members, ∃ f, m = .field f := by
  rintro body hbody
  rw [Item.walk, Class.walk, hbody] at h
  obtain ⟨htraits, hparts⟩ := List.forall_mem_cons.1 h
  have hmembers := (List.forall_mem_append.1 (List.forall_mem_append.1 hparts).1).2
  exact ⟨htraits body hbody, exists_field_of_kept hmembers⟩

end

/-! ## What a flat tree is written as -/

/-- The tokens that are asked for are those of the lexemes, at no place. -/
def Says (marks : List Mark) (ls : List Lexeme) : Prop :=
  marks.map (Mark.fill default) = ls.map (Token.mk · default)

section

variable {marks marks' : List Mark} {ls ls' : List Lexeme}

theorem says_nil : Says [] [] := rfl

theorem Says.append (h : Says marks ls) (h' : Says marks' ls') : Says (marks ++ marks') (ls ++ ls') := by
  rw [Says, List.map_append, List.map_append, h, h']

theorem Says.cons (h : Says marks ls) (mark : Mark) {l : Lexeme}
    (hmark : mark.fill default = ⟨l, default⟩) : Says (mark :: marks) (l :: ls) :=
  congrArg₂ List.cons hmark h

theorem says_flatMap {α : Type} {write : α → List Mark} {lexemes : α → List Lexeme} {list : List α}
    (h : ∀ a ∈ list, Says (write a) (lexemes a)) :
    Says (list.flatMap write) (list.flatMap lexemes) := by
  induction list with
  | nil => exact says_nil
  | cons a list ih =>
    obtain ⟨hfirst, hothers⟩ := List.forall_mem_cons.1 h
    exact hfirst.append (ih hothers)

/-- Tokens are asked for as they are. -/
theorem says_run (run : RawRun) : Says ((bare run).tokens.map .exact) run.lexemes := by
  have htokens : (bare run).tokens = run.tokens.map bare := rfl
  rw [Says, RawRun.lexemes, htokens, List.map_map, List.map_map, List.map_map]
  rfl

/-- Parts that are made of something, with commas between them. -/
theorem says_comma {α β : Type} {write : β → List Mark} {make : α → β} {lexemes : α → List Lexeme}
    (h : ∀ a, Says (write (make a)) (lexemes a)) (list : List α) :
    Says (commaMarks write (list.map make))
      ([Lexeme.operator ","].intercalate (list.map lexemes)) := by
  induction list with
  | nil => exact says_nil
  | cons a others ih =>
    cases others with
    | nil =>
      rw [List.map_singleton, List.map_singleton, List.intercalate_singleton]
      exact h a
    | cons b others =>
      have hbehind := (h a).append (ih.cons (.operator ",") rfl)
      rw [List.map_cons (f := lexemes), List.map_cons (f := lexemes), List.intercalate_cons_cons,
        List.append_assoc]
      exact hbehind

end

namespace Naming

section

variable (n : Naming) (path : Path)

theorem says_flatType (t : TypeRef) : Says (n.flatType path t).marks (n.typeLexemes path t) := by
  refine Says.cons ?_ _ rfl
  simp [Says, flatType, Mark.fill]

theorem says_flatVariable (name : String) (v : Variable) :
    Says (n.flatVariable path name v).marks (n.variableLexemes path name v) := by
  have hsize : Says (sizeMarks v.type.arraySize) (sizeLexemes v.type.arraySize) := by
    cases v.type.arraySize <;> rfl
  have hinitial : Says (initialMarks (bare v.initial)) (initialLexemes v.initial) := by
    cases v.initial with
    | none => rfl
    | some run => exact (says_run run).cons _ rfl
  have htail := (hsize.append hinitial).cons (.exact ⟨.identifier name, default⟩) rfl
  have hall := (says_flatType n path v.type).append htail
  rw [variableLexemes, List.append_assoc]
  exact hall

theorem says_flatParameters (name : String) (s : Signature) :
    Says ((n.flatSignature path name s).listMarks fun _ => true)
      (n.parameterLexemes path s.parameters) := by
  have hinside : Says (commaMarks Variable.marks
      (s.parameters.map fun v => n.flatVariable path v.name.text v)) _ :=
    says_comma (fun v => says_flatVariable n path v.name.text v) s.parameters
  have hclosing : Says [.operator ")"] [.operator ")"] := rfl
  unfold Signature.listMarks parameterLexemes flatSignature
  cases hlist : s.parameters with
  | nil => rfl
  | cons v others =>
    rw [hlist] at hinside
    exact (hinside.append hclosing).cons _ rfl

theorem says_flatFunction (s : Signature) :
    Says ((n.flatFunction path s).marks fun _ => true) (n.prototypeLexemes path s) := by
  have hlist := (says_flatParameters n path (n.qualified path s.name.text) s).append
    (says_nil.cons (.operator ";") rfl)
  have hall := (says_flatType n path s.returns).append
    (hlist.cons (.exact ⟨.identifier (n.qualified path s.name.text), default⟩) rfl)
  rw [prototypeLexemes, List.append_assoc]
  exact hall

/-- Fields are written without an access level, as those of structs are. -/
theorem says_flatMember {m : Member} (h : ∃ f, m = .field f) :
    Says ((n.flatMember path m).structMarks fun _ => true) (n.memberLexemes path m) := by
  obtain ⟨f, rfl⟩ := h
  exact (says_flatVariable n path _ f.declared).append (says_nil.cons _ rfl)

theorem says_flatStruct {name : Name} {members : List Member} (h : ∀ m ∈ members, ∃ f, m = .field f) :
    Says ((n.flatStruct path name (some members)).marks fun _ => true)
      (n.bodyLexemes path name members) := by
  have hmembers := says_flatMap fun m hm => says_flatMember n path (h m hm)
  have hclosing : Says [.operator closeBrace, .operator ";"]
      [.operator closeBrace, .operator ";"] := rfl
  have hall := ((hmembers.append hclosing).cons (.operator openBrace) rfl).cons
    (.exact ⟨.identifier (n.qualified path name.text), default⟩) rfl
  rw [bodyLexemes, List.append_assoc]
  show Says (.word "struct" :: .exact _ :: .operator openBrace ::
    ((members.map (n.flatMember path)).flatMap _ ++ _)) _
  rw [List.flatMap_map]
  exact hall.cons _ rfl

theorem says_flatForward (name : Name) :
    Says ((n.flatStruct path name none).marks fun _ => true) (n.forwardLexemes path name) := rfl

theorem itemsMarks_eq_flatMap {void : Signature → Bool} (items : List Item) :
    itemsMarks void items = items.flatMap (Item.marks void) := by
  induction items with
  | nil => rw [itemsMarks, List.flatMap_nil]
  | cons item items ih => rw [itemsMarks, List.flatMap_cons, ih]

theorem itemsMarks_append {void : Signature → Bool} (first second : List Item) :
    itemsMarks void (first ++ second) = itemsMarks void first ++ itemsMarks void second := by
  simp only [itemsMarks_eq_flatMap, List.flatMap_append]

theorem itemsMarks_singleton {void : Signature → Bool} (item : Item) :
    itemsMarks void [item] = item.marks void := by
  rw [itemsMarks_eq_flatMap, List.flatMap_singleton]

end

mutual

theorem says_flatItem (n : Naming) : ∀ (item : Item) {path : Path},
    (∀ node ∈ item.walk fun _ => true, node.Kept) →
    Says (itemsMarks (fun _ => true) (n.flatItem path item)) (n.itemLexemes path item)
  | .raw run, path, _ => by
    rw [flatItem, itemLexemes, itemsMarks_singleton]
    exact says_run run
  | .variableDecl v, path, _ => by
    rw [flatItem, itemLexemes, itemsMarks_singleton]
    exact (says_flatVariable n path _ v).append (says_nil.cons _ rfl)
  | .functionDecl s, path, _ => by
    rw [flatItem, itemLexemes, itemsMarks_singleton]
    exact says_flatFunction n path s
  | .structDecl s, path, h => by
    rw [flatItem, itemLexemes, itemsMarks_singleton, structLexemes]
    have hfields := exists_field_of_structDecl h
    cases hmembers : s.members with
    | none => exact says_flatForward n path s.name
    | some members => exact says_flatStruct n path (hfields members hmembers)
  | .classDecl d, path, h => by
    rw [flatItem, itemLexemes, flatClass, classLexemes, itemsMarks]
    have hparts := traits_of_classDecl h
    cases hbody : d.body with
    | none =>
      rw [itemsMarks, List.append_nil]
      exact says_flatForward n path d.name
    | some body =>
      refine (says_flatStruct n path (hparts body hbody).2).append ?_
      rw [itemsMarks_eq_flatMap, List.flatMap_map]
      exact says_flatMap fun s _ => says_flatFunction n _ s
  | .namespaceDecl name children, path, h => by
    rw [flatItem, itemLexemes]
    exact says_flatItems n children (itemsKept_of_namespaceDecl h)

/-- Written down, the flat tree is what the tree is flattened to. -/
theorem says_flatItems (n : Naming) : ∀ (items : List Item) {path : Path}, ItemsKept items →
    Says (itemsMarks (fun _ => true) (n.flatItems path items)) (n.itemsLexemes path items)
  | [], path, _ => by
    rw [flatItems, itemsLexemes, itemsMarks]
    exact says_nil
  | item :: items, path, h => by
    obtain ⟨hitem, hitems⟩ := itemsKept_cons.1 h
    rw [flatItems, itemsLexemes, itemsMarks_append]
    exact (says_flatItem n item hitem).append (says_flatItems n items hitems)

end

end Naming

end Flattener
