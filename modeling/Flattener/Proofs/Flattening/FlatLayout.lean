import Flattener.Proofs.Flattening.FlatTree

/-!
# How a flat tree is laid out

A flat tree is laid out like the tree that it was made of (`Naming.alike_flatItems`),
whatever types its reader knows: names are written as they stand, and nothing of a tree
is laid out by its namespaces. What may differ are the styles, as the name of a built-in
type can be that of a declared one, and these are not seen on a page without colors
(`Page.performAll_unstyled`).
-/

namespace Flattener

/-- The directive without its style. -/
def Directive.unstyled : Directive → Directive
  | .write text _ => .write text .plain
  | directive => directive

/-- A page without colors shows no styles. -/
theorem Page.performAll_unstyled {p : Page} (h : p.settings.color = false)
    (directives : List Directive) :
    p.performAll (directives.map Directive.unstyled) = p.performAll directives := by
  induction directives generalizing p with
  | nil => rfl
  | cons directive others ih =>
    have hperform : p.perform directive.unstyled = p.perform directive := by
      cases directive with
      | write text style =>
        show p.write text .plain = p.write text style
        rw [write, write, shown_of_plain h, shown_of_plain h]
      | _ => rfl
    show (p.perform directive.unstyled).performAll _ = (p.perform directive).performAll others
    rw [hperform]
    exact ih (by rw [settings_perform]; exact h)

/-- Styles play no part in which lines are begun. -/
theorem Page.levels_unstyled (p : Page) (directives : List Directive) :
    p.levels (directives.map Directive.unstyled) = p.levels directives := by
  induction directives generalizing p with
  | nil => rfl
  | cons directive others ih =>
    have hlike : (p.perform directive.unstyled).StandsLike (p.perform directive) := by
      cases directive with
      | write text style =>
        show (p.write text .plain).StandsLike (p.write text style)
        rw [write, write]
        split <;> exact ⟨rfl, rfl⟩
      | _ => exact ⟨rfl, rfl⟩
    have hbegun : p.begun directive.unstyled = p.begun directive := by cases directive <;> rfl
    rw [List.map_cons, levels, levels, hbegun, levels_congr hlike, ih]

/-- The directives are the same but for styles. -/
def Alike (first second : List Directive) : Prop :=
  first.map Directive.unstyled = second.map Directive.unstyled

section

variable {ds ds' es es' : List Directive}

theorem alike_refl (ds : List Directive) : Alike ds ds := rfl

theorem Alike.append (h : Alike ds es) (h' : Alike ds' es') : Alike (ds ++ ds') (es ++ es') := by
  rw [Alike, List.map_append, List.map_append, h, h']

theorem Alike.cons (h : Alike ds es) (directive : Directive) :
    Alike (directive :: ds) (directive :: es) :=
  congrArg (_ :: ·) h

theorem alike_flatMap {α : Type} {first second : α → List Directive} {list : List α}
    (h : ∀ a ∈ list, Alike (first a) (second a)) :
    Alike (list.flatMap first) (list.flatMap second) := by
  induction list with
  | nil => exact alike_refl []
  | cons a list ih =>
    obtain ⟨hfirst, hothers⟩ := List.forall_mem_cons.1 h
    exact hfirst.append (ih hothers)

/-- Trees that are written alike are rendered alike in no colors. -/
theorem Scope.render_eq_of_alike {s t : Scope} {settings : PageSettings} {separator : String}
    {builtins : List String} (hplain : settings.color = false)
    (h : Alike (s.directives separator builtins) (t.directives separator builtins)) :
    s.render settings separator builtins = t.render settings separator builtins := by
  have hlevels : s.levels separator builtins = t.levels separator builtins := by
    rw [levels, levels, ← Page.levels_unstyled, h, Page.levels_unstyled]
  by_cases hfits : Text.Fits (s.levels separator builtins) settings.indentWidth
  · rw [render_eq_ok hfits, render_eq_ok (hlevels ▸ hfits), ← Page.performAll_unstyled hplain, h,
      Page.performAll_unstyled hplain]
  · rw [render_eq_error hfits, render_eq_error (hlevels ▸ hfits)]

end

namespace Naming

section

variable (m n : Naming) (path : Path)

theorem alike_lines (depth : Nat) (behind : Bool) (tokens : List Token) :
    Alike (m.lines depth behind tokens) (n.lines depth behind tokens) := by
  induction tokens generalizing depth behind with
  | nil => rfl
  | cons t tokens ih =>
    have hword : Alike (.write t.text (m.tokenStyle t) :: trailOf depth t)
        (.write t.text (n.tokenStyle t) :: trailOf depth t) := rfl
    have hlead := (alike_refl (leadOf depth t)).append (alike_refl (if behind then [.gap] else []))
    exact (hlead.append hword).append (ih (parenDepth depth t) true)

theorem alike_rawRun (run : RawRun) : Alike (m.rawRun (bare run)) (n.rawRun run) := by
  rw [rawRun_bare]
  exact (alike_lines m n 0 false run.tokens).append (alike_refl [.freshLine])

theorem alike_initialSuffix (name : String) (v : Variable) :
    Alike (m.initialSuffix (n.flatVariable path name v)) (n.initialSuffix v) := by
  obtain ⟨own, type, _ | run⟩ := v
  · rfl
  · have hothers : Alike (run.others.flatMap fun t => [.gap, .write t.text (m.tokenStyle t)])
        (run.others.flatMap fun t => [.gap, .write t.text (n.tokenStyle t)]) :=
      alike_flatMap fun _ _ => rfl
    have hfirst : Alike [.write run.first.text (m.tokenStyle run.first)]
        [.write run.first.text (n.tokenStyle run.first)] := rfl
    have hrun : Alike (m.initializer run) (n.initializer run) := hfirst.append hothers
    rw [← initializer_bare] at hrun
    exact ((hrun.cons _).cons _).cons _

theorem alike_typeLead (t : TypeRef) :
    Alike (m.typeLead [] (n.flatType path t)) (n.typeLead path t) := by
  have hname : m.resolved [] (n.flatType path t).name.text = n.resolved path t.name.text :=
    resolved_nil m _
  rw [typeLead, typeLead, typeName, typeName, hname]
  rfl

theorem alike_variableAs (name : String) (v : Variable) :
    Alike (m.variableAs [] name (n.flatVariable path name v)) (n.variableAs path name v) :=
  ((alike_typeLead m n path v.type).append
    (alike_refl (.write name .identifier :: arraySuffix v.type))).append
      (alike_initialSuffix m n path name v)

theorem alike_parameters (list : List Variable) :
    Alike (m.parameters [] (list.map fun v => n.flatVariable path v.name.text v))
      (n.parameters path list) := by
  cases list with
  | nil => rfl
  | cons first others =>
    have hothers := alike_flatMap fun v (_ : v ∈ others) =>
      ((alike_variableAs m n path v.name.text v).cons (.write " " .plain)).cons
        (.write "," .operator)
    have hinside := (alike_variableAs m n path first.name.text first).append hothers
    have hall := (hinside.append (alike_refl [.write ")" .operator])).cons (.write "(" .operator)
    unfold parameters
    rw [List.map_cons]
    dsimp only
    rw [List.flatMap_map]
    exact hall

theorem alike_flatFunction (s : Signature) :
    Alike (m.functionDecl [] (n.flatSignature path (n.qualified path s.name.text) s))
      (n.functionDecl path s) := by
  have hname : m.qualified [] (n.flatSignature path (n.qualified path s.name.text) s).name.text =
      n.qualified path s.name.text := qualified_nil m _
  rw [functionDecl, functionDecl, hname]
  exact ((alike_typeLead m n path s.returns).append
    ((alike_parameters m n path s.parameters).cons _)).append (alike_refl terminator)

theorem alike_flatMember {member : Member} (h : ∃ f, member = .field f) :
    Alike (m.member [] (n.flatMember path member)) (n.member path member) := by
  obtain ⟨f, rfl⟩ := h
  exact (alike_variableAs m n path f.declared.name.text f.declared).append (alike_refl terminator)

theorem structLead_flat (name : Name) :
    m.structLead [] ⟨n.qualified path name.text, default⟩ = n.structLead path name := by
  rw [structLead, structLead, qualified_nil]

theorem alike_flatStruct {name : Name} {members : List Member}
    (h : ∀ member ∈ members, ∃ f, member = .field f) :
    Alike (m.structDecl [] (n.flatStruct path name (some members)))
      (n.structAround path name (members.flatMap (n.member path))) := by
  have hmembers := alike_flatMap fun member hmember =>
    alike_flatMember m n path (h member hmember)
  have hopened := (alike_refl (n.structLead path name ++
    [.write " " .plain, .write openBrace .operator, .newline, .indent])).append hmembers
  have hall := hopened.append
    (alike_refl [.dedent, .write (closeBrace ++ ";") .operator, .newline])
  show Alike (m.structAround [] ⟨n.qualified path name.text, default⟩
    ((members.map (n.flatMember path)).flatMap (m.member []))) _
  rw [structAround, structAround, structLead_flat, List.flatMap_map]
  exact hall

theorem alike_flatForward (name : Name) :
    Alike (m.structDecl [] (n.flatStruct path name none)) (n.structLead path name ++ terminator) := by
  show Alike (m.structLead [] ⟨n.qualified path name.text, default⟩ ++ terminator) _
  rw [structLead_flat]
  exact alike_refl _

theorem items_eq_flatMap (items : List Item) :
    m.items path items = items.flatMap (m.item path) := by
  induction items with
  | nil => rw [Naming.items, List.flatMap_nil]
  | cons item items ih => rw [Naming.items, List.flatMap_cons, ih]

theorem items_append (first second : List Item) :
    m.items path (first ++ second) = m.items path first ++ m.items path second := by
  simp only [items_eq_flatMap, List.flatMap_append]

theorem items_singleton (item : Item) : m.items path [item] = m.item path item := by
  rw [items_eq_flatMap, List.flatMap_singleton]

/-- The methods of a class are written one behind the other. -/
theorem items_functions (methods : List Signature) :
    (m.items [] (methods.map (n.flatFunction path))).flatMap (·.directives) =
      methods.flatMap fun s =>
        m.functionDecl [] (n.flatSignature path (n.qualified path s.name.text) s) := by
  rw [items_eq_flatMap, List.flatMap_map, List.flatMap_assoc]
  simp only [flatFunction, Naming.item, List.flatMap_singleton]

end

mutual

theorem alike_flatItem (m n : Naming) : ∀ (item : Item) {path : Path},
    (∀ node ∈ item.walk fun _ => true, node.Kept) →
    Alike ((m.items [] (n.flatItem path item)).flatMap (·.directives))
      ((n.item path item).flatMap (·.directives))
  | .raw run, path, _ => by
    rw [flatItem, items_singleton, Naming.item, Naming.item, List.flatMap_singleton,
      List.flatMap_singleton]
    exact alike_rawRun m n run
  | .variableDecl v, path, _ => by
    rw [flatItem, items_singleton, Naming.item, Naming.item, List.flatMap_singleton,
      List.flatMap_singleton]
    have hname : m.qualified [] (n.flatVariable path (n.qualified path v.name.text) v).name.text =
        n.qualified path v.name.text := qualified_nil m _
    dsimp only
    rw [variableDecl, variableDecl, hname]
    exact (alike_variableAs m n path _ v).append (alike_refl terminator)
  | .functionDecl s, path, _ => by
    rw [flatItem, items_singleton, flatFunction, Naming.item, Naming.item, List.flatMap_singleton,
      List.flatMap_singleton]
    exact alike_flatFunction m n path s
  | .structDecl s, path, h => by
    rw [flatItem, items_singleton, Naming.item, Naming.item, List.flatMap_singleton,
      List.flatMap_singleton]
    have hfields := exists_field_of_structDecl h
    dsimp only
    rw [structDecl.eq_def n]
    cases hmembers : s.members with
    | none => exact alike_flatForward m n path s.name
    | some members => exact alike_flatStruct m n path (hfields members hmembers)
  | .classDecl d, path, h => by
    rw [flatItem, flatClass, Naming.items, Naming.item, Naming.item, classDecl]
    have hparts := traits_of_classDecl h
    cases hbody : d.body with
    | none =>
      dsimp only
      rw [Naming.items, List.append_nil, List.flatMap_singleton, List.flatMap_singleton]
      exact alike_flatForward m n path d.name
    | some body =>
      obtain ⟨htraits, hfields⟩ := hparts body hbody
      have hmethods := alike_flatMap fun s (_ : s ∈ body.methods) =>
        alike_flatFunction m n (path ++ [d.name.text]) s
      have hcomment : n.traitComment path body.traits = [] := by
        rw [htraits]
        rfl
      dsimp only
      rw [hcomment, List.flatMap_append, items_functions]
      simp only [List.flatMap_cons, List.flatMap_nil, List.append_nil, List.nil_append]
      exact (alike_flatStruct m n path hfields).append hmethods
  | .namespaceDecl name children, path, h => by
    rw [flatItem, Naming.item]
    exact alike_flatItems m n children (itemsKept_of_namespaceDecl h)

/-- The flat tree is laid out like the tree, whatever types are known to its reader. -/
theorem alike_flatItems (m n : Naming) : ∀ (items : List Item) {path : Path}, ItemsKept items →
    Alike ((m.items [] (n.flatItems path items)).flatMap (·.directives))
      ((n.items path items).flatMap (·.directives))
  | [], path, _ => by
    rw [flatItems, Naming.items, Naming.items]
    exact alike_refl _
  | item :: items, path, h => by
    obtain ⟨hitem, hitems⟩ := itemsKept_cons.1 h
    rw [flatItems, items_append, Naming.items, List.flatMap_append, List.flatMap_append]
    exact (alike_flatItem m n item hitem).append (alike_flatItems m n items hitems)

end

end Naming

end Flattener
