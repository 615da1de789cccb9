import Flattener.Proofs.Flattening.FlatTree

/-!
# Flat trees are well formed

The flat tree of a tree that was read is well formed (`Naming.wellFormed_flatItems`): a
name with a separator in it is no keyword, sizes are what they were, and what a variable
is set to was read up to a stop that it is written in front of.
-/

namespace Flattener

/-! ## Runs of tokens -/

theorem enclosed_bare {stops : List String} {depth : Int} {tokens : List Token}
    (h : Enclosed stops depth tokens) : Enclosed stops depth (bare tokens) := by
  induction tokens generalizing depth with
  | nil => exact h
  | cons t tokens ih =>
    obtain ⟨hinside, hzero, hstop, hrest⟩ := enclosed_cons.1 h
    exact enclosed_cons.2 ⟨hinside, hzero, hstop, ih hrest⟩

/-- What is enclosed for several stops is so for the first of them. -/
theorem Enclosed.first {stop : String} {stops : List String} {depth : Int} {tokens : List Token}
    (h : Enclosed (stop :: stops) depth tokens) : Enclosed [stop] depth tokens := by
  refine ⟨h.endless, h.nonneg, h.closed, fun front t hfront hdepth => ?_⟩
  have hnone := h.unstopped front t hfront hdepth
  rw [← List.singleton_append, Token.isOperator_append, Bool.or_eq_false_iff] at hnone
  exact hnone.1

/-! ## Parts that are spelled -/

theorem SizeSpelled.pos {size : Option Nat} {tokens : List Token} (h : SizeSpelled size tokens) :
    ∀ n, size = some n → 0 < n := by
  cases h with
  | absent => nofun
  | present _ _ hpos _ =>
    rintro _ ⟨⟩
    exact hpos

theorem InitialSpelled.enclosed {stops : List String} {initial : Option RawRun}
    {tokens : List Token} (h : InitialSpelled stops initial tokens) :
    ∀ run, initial = some run → Enclosed stops 0 run.tokens := by
  cases h with
  | absent => nofun
  | present _ henclosed =>
    rintro _ ⟨⟩
    exact henclosed

theorem Variable.Spelled.name_not_mem {stops : List String} {v : Variable} {tokens : List Token}
    (h : v.Spelled stops tokens) : v.name.text ∉ keywords := by
  cases h with
  | intro _ hname _ _ => exact hname

theorem CommaSpelled.forall {α : Type} {spelled : α → List Token → Prop} {list : List α}
    {tokens : List Token} (h : CommaSpelled spelled list tokens) :
    ∀ a ∈ list, ∃ tokens, spelled a tokens := by
  induction h with
  | one ha => exact List.forall_mem_singleton.2 ⟨_, ha⟩
  | more ha _ _ ih => exact List.forall_mem_cons.2 ⟨⟨_, ha⟩, ih⟩

theorem ParameterListSpelled.forall {list : List Variable} {tokens : List Token}
    (h : ParameterListSpelled list tokens) :
    ∀ v ∈ list, ∃ tokens, v.Spelled [",", ")"] tokens := by
  cases h with
  | intro _ hinside _ =>
    cases hinside with
    | none => exact List.forall_mem_nil _
    | void _ => exact List.forall_mem_nil _
    | some hlist => exact hlist.forall

/-- There are tokens that spell the member, in a struct or in a class. -/
def Member.IsSpelled : Member → Prop
  | .field f => ∃ tokens, f.declared.Declared tokens
  | .functionPointer s => ∃ tokens, s.PointerDeclared tokens

theorem StructMembersSpelled.forall {members : List Member} {tokens : List Token}
    (h : StructMembersSpelled members tokens) : ∀ m ∈ members, m.IsSpelled := by
  induction h with
  | nil => exact List.forall_mem_nil _
  | cons hm _ ih =>
    refine List.forall_mem_cons.2 ⟨?_, ih⟩
    cases hm with
    | field h => exact ⟨_, h⟩
    | pointer h => exact ⟨_, h⟩

/-- There are tokens that spell the member of a class. -/
def ClassMember.IsSpelled : ClassMember → Prop
  | .data m => m.IsSpelled
  | .method s => ∃ tokens, s.Declared tokens

theorem ClassMemberSpelled.isSpelled {access : Access} {m : ClassMember} {tokens : List Token}
    (h : ClassMemberSpelled access m tokens) : m.IsSpelled := by
  cases h with
  | field h => exact ⟨_, h⟩
  | pointer h => exact ⟨_, h⟩
  | method h => exact ⟨_, h⟩

theorem ClassMembersSpelled.forall {access : Access} {members : List ClassMember}
    {tokens : List Token} (h : ClassMembersSpelled access members tokens) :
    ∀ m ∈ members, m.IsSpelled := by
  induction h with
  | nil => exact List.forall_mem_nil _
  | label _ _ _ ih => exact ih
  | plain hm _ ih => exact List.forall_mem_cons.2 ⟨hm.isSpelled, ih⟩
  | overriding _ hm _ ih => exact List.forall_mem_cons.2 ⟨hm.isSpelled, ih⟩

theorem mem_of_mem_data? {members : List ClassMember} {m : Member}
    (h : m ∈ members.filterMap (·.data?)) : .data m ∈ members := by
  obtain ⟨member, hmember, hdata⟩ := List.mem_filterMap.1 h
  cases member with
  | data m' => exact Option.some.inj hdata ▸ hmember
  | method s => cases hdata

theorem mem_of_mem_method? {members : List ClassMember} {s : Signature}
    (h : s ∈ members.filterMap (·.method?)) : .method s ∈ members := by
  obtain ⟨member, hmember, hmethod⟩ := List.mem_filterMap.1 h
  cases member with
  | data m => cases hmethod
  | method s' => exact Option.some.inj hmethod ▸ hmember

theorem itemsWellFormed_append {first second : List Item} :
    ItemsWellFormed (first ++ second) ↔ ItemsWellFormed first ∧ ItemsWellFormed second := by
  induction first with
  | nil => exact ⟨fun h => ⟨trivial, h⟩, And.right⟩
  | cons item first ih => rw [List.cons_append, ItemsWellFormed, ItemsWellFormed, ih, and_assoc]

theorem itemsWellFormed_of_forall {items : List Item} (h : ∀ item ∈ items, item.WellFormed) :
    ItemsWellFormed items := by
  induction items with
  | nil => trivial
  | cons item items ih =>
    obtain ⟨hitem, hitems⟩ := List.forall_mem_cons.1 h
    exact ⟨hitem, ih hitems⟩

/-! ## Flat trees -/

theorem underscore_not_mem_keywords : ∀ name ∈ keywords, '_' ∉ name.toList := by decide

namespace Naming

variable {n : Naming} {path : Path}

section

variable (hsep : '_' ∈ n.separator.toList) {names : List String}
  (hplain : ∀ name ∈ names, '_' ∉ name.toList)
include hsep hplain

/-- A qualified name is itself or has a separator in it. -/
theorem qualified_not_mem {name : String} (h : name ∉ names) : n.qualified path name ∉ names := by
  intro hmem
  cases path with
  | nil => exact h (qualified_nil n name ▸ hmem)
  | cons first rest =>
    refine hplain _ hmem ?_
    rw [qualified, List.cons_append,
      String.intercalate_cons_of_ne_nil (List.append_ne_nil_of_right_ne_nil _ (List.cons_ne_nil _ _)),
      String.toList_append, String.toList_append]
    exact List.mem_append_left _ (List.mem_append_right _ hsep)

theorem resolved_not_mem {name : String} (h : name ∉ names) : n.resolved path name ∉ names := by
  rcases n.resolved_cases path name with ⟨outer, -, hwritten⟩ | ⟨-, hwritten⟩
  · rw [hwritten]
    exact qualified_not_mem hsep hplain h
  · rwa [hwritten]

end

section

variable (hsep : '_' ∈ n.separator.toList)
include hsep

theorem wellFormed_flatType {t : TypeRef} {tokens : List Token} (h : t.Spelled tokens) :
    (n.flatType path t).name.text ∉ keywords := by
  cases h with
  | intro size hkey _ => exact resolved_not_mem hsep underscore_not_mem_keywords hkey

theorem wellFormed_flatVariable {name stop : String} {v : Variable} {stops : List String}
    {tokens : List Token} (hname : name ∉ keywords) (h : v.Spelled (stop :: stops) tokens) :
    (n.flatVariable path name v).WellFormed stop := by
  cases h with
  | intro htype _ hsize hinitial =>
    refine ⟨wellFormed_flatType hsep htype, hname, hsize.pos, fun run hrun => ?_⟩
    obtain ⟨given, hgiven, rfl⟩ := Option.map_eq_some_iff.1 hrun
    exact (enclosed_bare (hinitial.enclosed given hgiven)).first

theorem wellFormed_flatSignature {name : String} {s : Signature} {lead list : List Token}
    (hname : name ∉ keywords) (hreturns : s.returns.Spelled lead)
    (hplain : s.returns.arraySize = none) (hlist : ParameterListSpelled s.parameters list) :
    (n.flatSignature path name s).WellFormed := by
  refine ⟨wellFormed_flatType hsep hreturns, hplain, hname, fun v hv => ?_⟩
  obtain ⟨parameter, hparameter, rfl⟩ := List.mem_map.1 hv
  obtain ⟨tokens, hspelled⟩ := hlist.forall parameter hparameter
  exact wellFormed_flatVariable hsep hspelled.name_not_mem hspelled

theorem wellFormed_flatFunction {s : Signature} (h : ∃ tokens, s.Declared tokens) :
    (n.flatFunction path s).WellFormed := by
  obtain ⟨tokens, hreturns, hplain, hname, hlist, -⟩ := h
  exact wellFormed_flatSignature hsep (qualified_not_mem hsep underscore_not_mem_keywords hname)
    hreturns hplain hlist

theorem wellFormed_flatMember {m : Member} (h : m.IsSpelled) :
    (n.flatMember path m).WellFormed ∧ (n.flatMember path m).IsPublic := by
  cases m with
  | field f =>
    obtain ⟨tokens, hspelled, -⟩ := h
    exact ⟨wellFormed_flatVariable hsep hspelled.name_not_mem hspelled, rfl⟩
  | functionPointer s =>
    obtain ⟨tokens, -, hreturns, hplain, -, -, hname, -, hlist, -⟩ := h
    exact ⟨wellFormed_flatSignature hsep hname hreturns hplain hlist, trivial⟩

theorem wellFormed_flatStruct {name : Name} {members : Option (List Member)}
    (hname : name.text ∉ keywords)
    (hmembers : ∀ list, members = some list → ∀ m ∈ list, m.IsSpelled) :
    (n.flatStruct path name members).WellFormed := by
  refine ⟨qualified_not_mem hsep underscore_not_mem_keywords hname, fun list hlist m hm => ?_⟩
  obtain ⟨given, hgiven, rfl⟩ := Option.map_eq_some_iff.1 hlist
  obtain ⟨member, hmember, rfl⟩ := List.mem_map.1 hm
  exact wellFormed_flatMember hsep (hmembers given hgiven member hmember)

theorem wellFormed_flatClass {d : Class} {tokens : List Token} (h : d.Spelled tokens) :
    ItemsWellFormed (n.flatClass path d) := by
  cases h with
  | forward _ hname _ => exact ⟨wellFormed_flatStruct hsep hname nofun, trivial⟩
  | whole _ hname _ _ hinside _ _ =>
    refine ⟨wellFormed_flatStruct hsep hname ?_, itemsWellFormed_of_forall ?_⟩
    · rintro _ ⟨⟩ m hm
      exact hinside.forall _ (mem_of_mem_data? hm)
    · intro item hitem
      obtain ⟨s, hs, rfl⟩ := List.mem_map.1 hitem
      exact wellFormed_flatFunction hsep (hinside.forall _ (mem_of_mem_method? hs))

end

mutual

theorem wellFormed_flatItem (hsep : '_' ∈ n.separator.toList) : ∀ (item : Item) {path : Path}
    {tokens : List Token}, item.Spelled tokens → item.RawFree →
    ItemsWellFormed (n.flatItem path item)
  | .raw _, _, _, _, hfree => absurd hfree id
  | .variableDecl v, path, _, .variableDecl h, _ => by
    obtain ⟨hspelled, -⟩ := h
    have hname : n.qualified path v.name.text ∉ keywords :=
      qualified_not_mem hsep underscore_not_mem_keywords hspelled.name_not_mem
    rw [flatItem]
    exact ⟨wellFormed_flatVariable hsep hname hspelled, trivial⟩
  | .functionDecl s, path, _, .functionDecl h, _ => by
    rw [flatItem]
    exact ⟨wellFormed_flatFunction hsep ⟨_, h⟩, trivial⟩
  | .structDecl s, path, _, .structDecl h, _ => by
    rw [flatItem]
    cases h with
    | forward _ hname _ => exact ⟨wellFormed_flatStruct hsep hname nofun, trivial⟩
    | whole _ hname _ hinside _ _ =>
      refine ⟨wellFormed_flatStruct hsep hname ?_, trivial⟩
      rintro _ ⟨⟩
      exact hinside.forall
  | .classDecl d, path, _, .classDecl h, _ => by
    rw [flatItem]
    exact wellFormed_flatClass hsep h
  | .namespaceDecl name children, path, _, .namespaceDecl _ _ _ h _, hfree => by
    rw [flatItem]
    exact wellFormed_flatItems hsep children h hfree

/-- The flat tree of a tree that was read is well formed. -/
theorem wellFormed_flatItems (hsep : '_' ∈ n.separator.toList) : ∀ (items : List Item) {path : Path}
    {tokens : List Token}, ItemsSpelled items tokens → ItemsRawFree items →
    ItemsWellFormed (n.flatItems path items)
  | [], path, _, _, _ => by
    rw [flatItems]
    trivial
  | item :: items, path, _, .cons hitem hitems _, hfree => by
    rw [flatItems]
    exact itemsWellFormed_append.2
      ⟨wellFormed_flatItem hsep item hitem hfree.1, wellFormed_flatItems hsep items hitems hfree.2⟩

end

end Naming

end Flattener
