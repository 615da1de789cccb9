import Flattener.Proofs.Grammar.Spelling

/-!
# What a tree keeps of its tokens

The names of a tree, and the tokens of its raw runs and initializers, are tokens
that it was read of (`Item.kept`). So what holds of every token of a program holds
of everything that its tree keeps.
-/

namespace Flattener

/-! ## The tokens that are kept -/

/-- The tokens that a variable keeps: its names, and what it is set to. -/
def Variable.kept (v : Variable) : List Token :=
  v.type.name.token :: v.name.token :: v.initial.elim [] RawRun.tokens

/-- The tokens that a function keeps. -/
def Signature.kept (s : Signature) : List Token :=
  s.returns.name.token :: s.name.token :: s.parameters.flatMap Variable.kept

/-- The tokens that a member keeps. -/
def Member.kept : Member → List Token
  | .field f => f.declared.kept
  | .functionPointer s => s.kept

/-- The tokens that a struct keeps. -/
def Struct.kept (s : Struct) : List Token :=
  s.name.token :: (s.members.getD []).flatMap Member.kept

/-- The tokens that the body of a class keeps. -/
def ClassBody.kept (b : ClassBody) : List Token :=
  b.traits.map (·.name.token) ++ (b.members.flatMap Member.kept ++ b.methods.flatMap Signature.kept)

/-- The tokens that a class keeps. -/
def Class.kept (d : Class) : List Token :=
  d.name.token :: d.body.elim [] ClassBody.kept

mutual

/-- The tokens of an item that its tree keeps. -/
def Item.kept : Item → List Token
  | .raw run => run.tokens
  | .variableDecl v => v.kept
  | .functionDecl s => s.kept
  | .structDecl s => s.kept
  | .classDecl d => d.kept
  | .namespaceDecl name children => name.token :: itemsKept children

/-- The tokens that items keep. -/
def itemsKept : List Item → List Token
  | [] => []
  | item :: items => item.kept ++ itemsKept items

end

/-! ## They are tokens of the spelling -/

theorem TypeRef.Spelled.name_mem {t : TypeRef} {tokens : List Token} (h : t.Spelled tokens) :
    t.name.token ∈ tokens := by
  cases h
  exact List.mem_cons_self

theorem Variable.Spelled.kept_subset {stops : List String} {v : Variable} {tokens : List Token}
    (h : v.Spelled stops tokens) : v.kept ⊆ tokens := by
  cases h with
  | intro hlead _ _ hinitial =>
    refine List.cons_subset.2 ⟨List.mem_append_left _ hlead.name_mem,
      List.cons_subset.2 ⟨by simp, ?_⟩⟩
    cases hinitial' : v.initial with
    | none => exact List.nil_subset _
    | some run =>
      rw [hinitial'] at hinitial
      cases hinitial
      intro t ht
      simp [show t ∈ run.tokens from ht]

theorem Variable.Declared.kept_subset {v : Variable} {tokens : List Token} (h : v.Declared tokens) :
    v.kept ⊆ tokens := by
  obtain ⟨h, -⟩ := h
  exact List.subset_append_of_subset_left _ h.kept_subset

/-- What each part keeps of its tokens, a list keeps of all of them. -/
theorem CommaSpelled.flatMap_subset {α : Type} {spelled : α → List Token → Prop}
    {kept : α → List Token} {list : List α} {tokens : List Token}
    (h : CommaSpelled spelled list tokens)
    (hkept : ∀ {a tokens}, spelled a tokens → kept a ⊆ tokens) : list.flatMap kept ⊆ tokens := by
  induction h with
  | one h =>
    rw [List.flatMap_singleton]
    exact hkept h
  | more h _ _ ih =>
    rw [List.flatMap_cons]
    exact List.append_subset.2 ⟨List.subset_append_of_subset_left _ (hkept h),
      List.subset_append_of_subset_right _ (List.subset_cons_of_subset _ ih)⟩

theorem ParameterListSpelled.kept_subset {list : List Variable} {tokens : List Token}
    (h : ParameterListSpelled list tokens) : list.flatMap Variable.kept ⊆ tokens := by
  obtain ⟨-, hlist, -⟩ := h
  cases hlist with
  | none => exact List.nil_subset _
  | void _ => exact List.nil_subset _
  | some h =>
    exact List.subset_cons_of_subset _ (List.subset_append_of_subset_left _
      (h.flatMap_subset Variable.Spelled.kept_subset))

theorem Signature.Declared.kept_subset {s : Signature} {tokens : List Token}
    (h : s.Declared tokens) : s.kept ⊆ tokens := by
  obtain ⟨hlead, -, -, hlist, -⟩ := h
  refine List.cons_subset.2 ⟨List.mem_append_left _ hlead.name_mem,
    List.cons_subset.2 ⟨by simp, fun t ht => ?_⟩⟩
  simp [hlist.kept_subset ht]

theorem Signature.PointerDeclared.kept_subset {s : Signature} {tokens : List Token}
    (h : s.PointerDeclared tokens) : s.kept ⊆ tokens := by
  obtain ⟨-, hlead, -, -, -, -, -, hlist, -⟩ := h
  refine List.cons_subset.2 ⟨by simp [hlead.name_mem],
    List.cons_subset.2 ⟨by simp, fun t ht => ?_⟩⟩
  simp [hlist.kept_subset ht]

theorem StructMembersSpelled.kept_subset {members : List Member} {tokens : List Token}
    (h : StructMembersSpelled members tokens) : members.flatMap Member.kept ⊆ tokens := by
  induction h with
  | nil => exact List.nil_subset _
  | cons hmember _ ih =>
    rw [List.flatMap_cons]
    refine List.append_subset.2 ⟨List.subset_append_of_subset_left _ ?_,
      List.subset_append_of_subset_right _ ih⟩
    cases hmember with
    | field h => exact h.kept_subset
    | pointer h => exact h.kept_subset

theorem Struct.Spelled.kept_subset {s : Struct} {tokens : List Token} (h : s.Spelled tokens) :
    s.kept ⊆ tokens := by
  cases h with
  | forward => simp [kept]
  | whole _ _ _ hmembers _ _ =>
    refine List.cons_subset.2 ⟨by simp, fun t ht => ?_⟩
    simp [hmembers.kept_subset ht]

/-- A member of a class keeps what it keeps as data or as a method. -/
def ClassMember.kept : ClassMember → List Token
  | .data m => m.kept
  | .method s => s.kept

theorem ClassMemberSpelled.kept_subset {access : Access} {m : ClassMember} {tokens : List Token}
    (h : ClassMemberSpelled access m tokens) : m.kept ⊆ tokens := by
  cases h with
  | field h => exact h.kept_subset
  | pointer h => exact h.kept_subset
  | method h => exact h.kept_subset

theorem ClassMembersSpelled.kept_subset {access : Access} {members : List ClassMember}
    {tokens : List Token} (h : ClassMembersSpelled access members tokens) :
    members.flatMap ClassMember.kept ⊆ tokens := by
  induction h with
  | nil => exact List.nil_subset _
  | label _ _ _ ih => exact List.subset_cons_of_subset _ (List.subset_cons_of_subset _ ih)
  | plain hm _ ih =>
    rw [List.flatMap_cons]
    exact List.append_subset.2 ⟨List.subset_append_of_subset_left _ hm.kept_subset,
      List.subset_append_of_subset_right _ ih⟩
  | overriding _ hm _ ih =>
    rw [List.flatMap_cons]
    exact List.subset_cons_of_subset _ (List.append_subset.2
      ⟨List.subset_append_of_subset_left _ hm.kept_subset, List.subset_append_of_subset_right _ ih⟩)

/-- The data members and the methods keep nothing that the members do not. -/
theorem kept_members_subset (members : List ClassMember) :
    (members.filterMap (·.data?)).flatMap Member.kept ++
      (members.filterMap (·.method?)).flatMap Signature.kept ⊆ members.flatMap ClassMember.kept := by
  intro t ht
  rw [List.mem_flatMap]
  rcases List.mem_append.1 ht with hdata | hmethod
  · obtain ⟨m, hm, ht⟩ := List.mem_flatMap.1 hdata
    obtain ⟨member, hmember, hdata⟩ := List.mem_filterMap.1 hm
    -- a member is in only one of the two lists
    cases member with
    | data m' => cases hdata; exact ⟨_, hmember, ht⟩
    | method s => cases hdata
  · obtain ⟨s, hs, ht⟩ := List.mem_flatMap.1 hmethod
    obtain ⟨member, hmember, hmethod⟩ := List.mem_filterMap.1 hs
    cases member with
    | data m => cases hmethod
    | method s' => cases hmethod; exact ⟨_, hmember, ht⟩

theorem TraitsSpelled.kept_subset {traits : List TypeRef} {tokens : List Token}
    (h : TraitsSpelled traits tokens) : traits.map (·.name.token) ⊆ tokens := by
  cases h with
  | none => exact List.nil_subset _
  | some _ hlist =>
    have hkept : traits.flatMap (fun t => [t.name.token]) ⊆ _ := hlist.flatMap_subset fun h => by
      cases h
      exact List.Subset.refl _
    rw [← List.map_eq_flatMap] at hkept
    exact List.subset_cons_of_subset _ hkept

theorem Class.Spelled.kept_subset {d : Class} {tokens : List Token} (h : d.Spelled tokens) :
    d.kept ⊆ tokens := by
  cases h with
  | forward => simp [kept]
  | whole _ _ hlist _ hmembers _ _ =>
    refine List.cons_subset.2 ⟨by simp, List.append_subset.2 ⟨fun t ht => ?_, fun t ht => ?_⟩⟩
    · simp [hlist.kept_subset ht]
    · simp [hmembers.kept_subset (kept_members_subset _ ht)]

mutual

theorem Item.Spelled.kept_subset : ∀ {item : Item} {tokens : List Token}, item.Spelled tokens →
    item.kept ⊆ tokens
  | _, _, .raw _ => List.Subset.refl _
  | _, _, .variableDecl h => h.kept_subset
  | _, _, .functionDecl h => h.kept_subset
  | _, _, .structDecl h => h.kept_subset
  | _, _, .classDecl h => h.kept_subset
  | _, _, .namespaceDecl _ _ _ h _ => by
    refine List.cons_subset.2 ⟨by simp, fun t ht => ?_⟩
    simp [ItemsSpelled.kept_subset h ht]

theorem ItemsSpelled.kept_subset : ∀ {items : List Item} {tokens : List Token},
    ItemsSpelled items tokens → itemsKept items ⊆ tokens
  | _, _, .nil => List.nil_subset _
  | _, _, .cons h hitems _ => List.append_subset.2
    ⟨List.subset_append_of_subset_left _ (Item.Spelled.kept_subset h),
      List.subset_append_of_subset_right _ (ItemsSpelled.kept_subset hitems)⟩

end

end Flattener
