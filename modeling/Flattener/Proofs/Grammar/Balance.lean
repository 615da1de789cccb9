import Flattener.Proofs.Grammar.Breaking

/-!
# Programs are balanced

Brackets count alike, of whatever kind. A program that is parsed never closes more
of them than were opened, and leaves none open; nor does any raw run or
initializer of its tree, taken alone (`balanced_of_parse`). So no run of tokens
that is passed through takes a bracket away from what is around it.

A statement that is passed through ends with nothing open
(`balanced_of_reads_rawStatement`), and an initializer is enclosed. All else goes
by how the forms of the grammar are spelled: it is said of each form together with
the nodes that it makes (`BalancedAs`), and put together of its parts.
-/

namespace Flattener

/-- The tokens never close more than they have opened, and leave nothing open. -/
structure Balanced (tokens : List Token) : Prop where
  nonneg : ∀ front, front <+: tokens → 0 ≤ bracketDepth front
  closed : bracketDepth tokens = 0

/-! ## Balanced runs of tokens -/

section

variable {t : Token} {first second tokens : List Token}

theorem bracketDepth_append (first second : List Token) :
    bracketDepth (first ++ second) = bracketDepth first + bracketDepth second := by
  rw [bracketDepth, List.map_append, List.sum_append, bracketDepth, bracketDepth]

theorem balanced_nil : Balanced [] := by
  refine ⟨fun front hfront => ?_, bracketDepth_nil⟩
  rw [List.prefix_nil.1 hfront]
  exact Int.le_of_eq bracketDepth_nil.symm

/-- A front part of two runs ends in the first of them, or takes it whole. -/
theorem Balanced.append (h : Balanced first) (h' : Balanced second) :
    Balanced (first ++ second) := by
  refine ⟨fun front hfront => ?_, by rw [bracketDepth_append, h.closed, h'.closed, Int.add_zero]⟩
  rcases List.prefix_or_prefix_of_prefix hfront (List.prefix_append first second) with
    hfirst | ⟨rest, rfl⟩
  · exact h.nonneg front hfirst
  · rw [bracketDepth_append, h.closed, Int.zero_add]
    exact h'.nonneg rest ((List.prefix_append_right_inj first).1 hfront)

/-- A balanced run between an opening and a closing bracket. -/
theorem Balanced.between {opening closing : Token} (hopen : bracketStep opening = 1)
    (hclose : bracketStep closing = -1) (h : Balanced tokens) :
    Balanced (opening :: (tokens ++ [closing])) := by
  have hdepth : bracketDepth (opening :: (tokens ++ [closing])) = 0 := by
    rw [bracketDepth_cons, bracketDepth_append, h.closed, bracketDepth_cons, hopen, hclose]
    rfl
  refine ⟨fun front hfront => ?_, hdepth⟩
  rcases List.prefix_cons_iff.1 hfront with rfl | ⟨inside, rfl, hinside⟩
  · exact Int.le_of_eq bracketDepth_nil.symm
  -- the closing bracket is the last token, so in front of it the other one is open
  rcases List.prefix_concat_iff.1 hinside with rfl | hinside
  · exact Int.le_of_eq hdepth.symm
  · have hnonneg := h.nonneg inside hinside
    rw [bracketDepth_cons, hopen]
    omega

/-- A token that is no bracket changes nothing. -/
theorem Balanced.cons (ht : bracketStep t = 0) (h : Balanced tokens) : Balanced (t :: tokens) := by
  refine ⟨fun front hfront => ?_, by rw [bracketDepth_cons, ht, h.closed, Int.add_zero]⟩
  rcases List.prefix_cons_iff.1 hfront with rfl | ⟨rest, rfl, hrest⟩
  · exact Int.le_of_eq bracketDepth_nil.symm
  · rw [bracketDepth_cons, ht, Int.zero_add]
    exact h.nonneg rest hrest

theorem Balanced.concat (ht : bracketStep t = 0) (h : Balanced tokens) :
    Balanced (tokens ++ [t]) :=
  h.append (balanced_nil.cons ht)

theorem balanced_of_forall (h : ∀ t ∈ tokens, bracketStep t = 0) : Balanced tokens := by
  induction tokens with
  | nil => exact balanced_nil
  | cons t tokens ih =>
    obtain ⟨ht, htokens⟩ := List.forall_mem_cons.1 h
    exact (ih htokens).cons ht

/-- What is enclosed is balanced, wherever it would stop. -/
theorem Enclosed.balanced {stops : List String} (h : Enclosed stops 0 tokens) : Balanced tokens := by
  refine ⟨fun front hfront => ?_, by simpa only [Int.zero_add] using h.closed⟩
  simpa only [Int.zero_add] using h.nonneg front hfront

end

/-! ## What the tokens of a form add -/

section

variable {t : Token} {spelling : String}

theorem bracketStep_of_identifier {name : String} (h : t.lexeme = .identifier name) :
    bracketStep t = 0 := by
  rw [bracketStep, Token.isOperator_of_identifier h, Token.isOperator_of_identifier h]
  rfl

theorem bracketStep_name (n : Name) : bracketStep n.token = 0 :=
  bracketStep_of_identifier rfl

theorem bracketStep_of_isKeyword (h : t.isKeyword [spelling] = true) : bracketStep t = 0 :=
  bracketStep_of_identifier (Token.isKeyword_singleton.1 h).1

theorem bracketStep_of_integer {n : Nat} (h : t.lexeme = .integer spelling n) :
    bracketStep t = 0 := by
  rw [bracketStep, Token.isOperator, Token.isOperator, h]
  rfl

/-- An operator adds what its spelling adds. -/
theorem bracketStep_of_isOperator (h : t.isOperator [spelling] = true) :
    bracketStep t = bracketStep ⟨.operator spelling, default⟩ := by
  rw [bracketStep, Token.isOperator, Token.isOperator, Token.isOperator_singleton.1 h]
  rfl

theorem bracketStep_of_labelAccess {access : Access} (h : Parser.labelAccess? t = some access) :
    bracketStep t = 0 :=
  bracketStep_of_isKeyword (Parser.isKeyword_of_label h)

end

/-! ## Statements that are passed through -/

section

variable {depth : Nat} {tokens : List Token}

/-- Along a statement, the brackets that a parse takes for open are those that are. -/
theorem foldl_nesting_front {front : List Token} (h : front <+: statementSpan depth tokens) :
    ((front.foldl nesting depth : Nat) : Int) = depth + bracketDepth front := by
  induction tokens generalizing depth front with
  | nil =>
    rw [statementSpan, List.prefix_nil] at h
    rw [h, bracketDepth_nil, Int.add_zero]
    rfl
  | cons t tokens ih =>
    rcases front with _ | ⟨u, front⟩
    · exact (Int.add_zero _).symm
    rw [statementSpan] at h
    split at h
    · exact absurd (List.prefix_nil.1 h) (List.cons_ne_nil _ _)
    next hopen =>
    have hnesting : (nesting depth t : Int) = depth + bracketStep t :=
      nesting_eq (not_or.1 hopen).2
    split at h
    · obtain ⟨rfl, hfront⟩ := List.cons_prefix_cons.1 h
      rw [List.prefix_nil.1 hfront, bracketDepth_cons, bracketDepth_nil, Int.add_zero]
      exact hnesting
    · obtain ⟨rfl, hfront⟩ := List.cons_prefix_cons.1 h
      rw [bracketDepth_cons, ← Int.add_assoc, ← hnesting]
      exact ih hfront

/-- A statement in front of anything but the end of input leaves nothing open. -/
theorem foldl_nesting_statementSpan {c : Context} {rest : List Token}
    (hrest : statementSpan depth tokens ++ rest = tokens)
    (hinside : (Parser.tokenAt c rest 0).isEnd = false) :
    (statementSpan depth tokens).foldl nesting depth = 0 := by
  induction tokens generalizing depth with
  | nil =>
    obtain ⟨-, rfl⟩ := List.append_eq_nil_iff.1 hrest
    cases hinside
  | cons t tokens ih =>
    rw [statementSpan] at hrest ⊢
    split
    · next hstops =>
      rw [if_pos hstops] at hrest
      obtain rfl : rest = t :: tokens := hrest
      exact (hstops.resolve_left fun hend => by cases hinside.symm.trans hend).1
    next hopen =>
    rw [if_neg hopen] at hrest
    split
    · next hlast => exact hlast.1
    · next hgoes =>
      rw [if_neg hgoes] at hrest
      exact ih (List.cons.inj hrest).2

namespace Parser

variable {c : Context} {s s' : State}

/-- At the end of input it is asked for that nothing is open, and everywhere else the
    statement has ended by itself. -/
theorem balanced_of_reads_rawStatement (h : rawStatement.Reads c s tokens s') :
    Balanced tokens := by
  obtain ⟨hspan, hclosed⟩ : tokens = statementSpan 0 s.rest ∧ finalDepth tokens = 0 := by
    have htake := List.prefix_iff_eq_take.1 <| statementSpan_prefix 0 s.rest
    have hall := List.prefix_iff_eq_append.1 <| statementSpan_prefix 0 s.rest
    simp only [rawStatement, reads_bind, reads_gets, reads_take, reads_atEnd] at h
    obtain ⟨_, _, ⟨rfl, rfl⟩, _, _, ⟨rfl, rfl⟩, _, _, ⟨rfl, rfl⟩, h⟩ := h
    split at h
    · split at h
      · exact absurd h not_reads_unexpected
      · next hclosed =>
        rw [← htake] at h hclosed
        obtain ⟨rfl, -⟩ := reads_pure.1 h
        exact ⟨rfl, Nat.eq_zero_of_not_pos hclosed⟩
    · next hgoes =>
      rw [← htake] at h
      split at h
      · exact absurd h not_reads_unexpected
      · obtain ⟨rfl, -⟩ := reads_pure.1 h
        exact ⟨rfl, foldl_nesting_statementSpan hall (Bool.not_eq_true _ ▸ hgoes)⟩
  have hdepth (front : List Token) (hfront : front <+: tokens) :
      ((front.foldl nesting 0 : Nat) : Int) = bracketDepth front := by
    rw [foldl_nesting_front (hspan ▸ hfront)]
    exact Int.zero_add _
  refine ⟨fun front hfront => ?_, ?_⟩
  · rw [← hdepth front hfront]
    exact Int.natCast_nonneg _
  · rw [← hdepth tokens (List.prefix_refl _)]
    exact congrArg _ hclosed

end Parser

end

/-! ## Forms and their nodes -/

/-- The tokens are balanced, and so is each raw run among the nodes that they make. -/
structure BalancedAs (nodes : List Node) (tokens : List Token) : Prop where
  whole : Balanced tokens
  runs : ∀ run, .rawRun run ∈ nodes → Balanced run.tokens

namespace BalancedAs

variable {t : Token} {node : Node} {nodes others : List Node} {tokens rest : List Token}

theorem ofTokens (h : Balanced tokens) : BalancedAs [] tokens :=
  ⟨h, fun _ hrun => absurd hrun List.not_mem_nil⟩

theorem run {run : RawRun} (h : Balanced run.tokens) : BalancedAs [.rawRun run] run.tokens := by
  refine ⟨h, fun other hother => ?_⟩
  cases List.mem_singleton.1 hother
  exact h

theorem append (h : BalancedAs nodes tokens) (h' : BalancedAs others rest) :
    BalancedAs (nodes ++ others) (tokens ++ rest) :=
  ⟨h.whole.append h'.whole, fun run hrun => (List.mem_append.1 hrun).elim (h.runs run) (h'.runs run)⟩

theorem cons (ht : bracketStep t = 0) (h : BalancedAs nodes tokens) :
    BalancedAs nodes (t :: tokens) :=
  ⟨h.whole.cons ht, h.runs⟩

theorem concat (ht : bracketStep t = 0) (h : BalancedAs nodes tokens) :
    BalancedAs nodes (tokens ++ [t]) :=
  ⟨h.whole.concat ht, h.runs⟩

theorem between {opening closing : Token} (hopen : bracketStep opening = 1)
    (hclose : bracketStep closing = -1) (h : BalancedAs nodes tokens) :
    BalancedAs nodes (opening :: (tokens ++ [closing])) :=
  ⟨h.whole.between hopen hclose, h.runs⟩

/-- Nodes of other kinds do not count. -/
theorem above (hnode : node.kind ≠ .rawRun) (h : BalancedAs nodes tokens) :
    BalancedAs (node :: nodes) tokens := by
  refine ⟨h.whole, fun run hrun => (List.mem_cons.1 hrun).elim (fun heq => ?_) (h.runs run)⟩
  exact absurd (congrArg Node.kind heq).symm hnode

end BalancedAs

/-! ## Variables and prototypes -/

section

variable {stops : List String} {tokens : List Token}

theorem TypeRef.Spelled.balanced {type : TypeRef} (h : type.Spelled tokens) : Balanced tokens := by
  cases h with
  | intro size hkey hstars =>
    exact (balanced_of_forall fun star hstar => bracketStep_of_isOperator (hstars star hstar)).cons
      (bracketStep_name _)

theorem SizeSpelled.balanced {size : Option Nat} (h : SizeSpelled size tokens) :
    Balanced tokens := by
  cases h with
  | absent => exact balanced_nil
  | present hopen hsize hpos hclose =>
    exact (balanced_nil.cons (bracketStep_of_integer hsize)).between
      (bracketStep_of_isOperator hopen) (bracketStep_of_isOperator hclose)

/-- An initializer is balanced by itself. -/
theorem InitialSpelled.balanced {initial : Option RawRun} (h : InitialSpelled stops initial tokens) :
    BalancedAs (initial.toList.map .rawRun) tokens := by
  cases h with
  | absent => exact .ofTokens balanced_nil
  | present hsign henclosed =>
    exact (BalancedAs.run henclosed.balanced).cons (bracketStep_of_isOperator hsign)

theorem Variable.Spelled.balanced {v : Variable} (h : v.Spelled stops tokens) :
    BalancedAs v.parts tokens := by
  cases h with
  | intro hlead hkey hsize hinitial =>
    have hbehind := (BalancedAs.ofTokens hsize.balanced).append hinitial.balanced
    exact ((BalancedAs.ofTokens hlead.balanced).append (hbehind.cons (bracketStep_name _))).above nofun

theorem Variable.Declared.balanced {v : Variable} (h : v.Declared tokens) :
    BalancedAs v.parts tokens := by
  cases h with
  | intro hspelled hstop => exact hspelled.balanced.concat (bracketStep_of_isOperator hstop)

theorem CommaSpelled.balanced {α : Type} {spelled : α → List Token → Prop} {nodes : α → List Node}
    (hspelled : ∀ a tokens, spelled a tokens → BalancedAs (nodes a) tokens) {list : List α}
    (h : CommaSpelled spelled list tokens) : BalancedAs (list.flatMap nodes) tokens := by
  induction h with
  | one hone =>
    rw [List.flatMap_singleton]
    exact hspelled _ _ hone
  | more hone hcomma hmore ih =>
    exact (hspelled _ _ hone).append (ih.cons (bracketStep_of_isOperator hcomma))

theorem ParametersSpelled.balanced {list : List Variable} (h : ParametersSpelled list tokens) :
    BalancedAs (list.flatMap (Variable.walk fun _ => true)) tokens := by
  cases h with
  | none => exact .ofTokens balanced_nil
  | void ht => exact .ofTokens (balanced_nil.cons (bracketStep_of_identifier ht))
  | some hsome => exact hsome.balanced fun v tokens hv => hv.balanced.above nofun

theorem ParameterListSpelled.balanced {list : List Variable}
    (h : ParameterListSpelled list tokens) :
    BalancedAs (list.flatMap (Variable.walk fun _ => true)) tokens := by
  cases h with
  | intro hopen hlist hclose =>
    exact hlist.balanced.between (bracketStep_of_isOperator hopen) (bracketStep_of_isOperator hclose)

theorem Signature.Declared.balanced {f : Signature} (h : f.Declared tokens) :
    BalancedAs (f.parts fun _ => true) tokens := by
  cases h with
  | intro hlead hsize hkey hlist hstop =>
    have hbehind := (hlist.balanced.concat (bracketStep_of_isOperator hstop)).cons
      (bracketStep_name f.name)
    exact ((BalancedAs.ofTokens hlead.balanced).append hbehind).above nofun

theorem Signature.PointerDeclared.balanced {f : Signature} (h : f.PointerDeclared tokens) :
    BalancedAs (f.parts fun _ => true) tokens := by
  cases h with
  | @intro _ opening star closing _ _ _ hkeyword hlead _ hopen hstar _ hclose hlist hstop =>
    have hname : Balanced (opening :: ([star, f.name.token] ++ [closing])) :=
      ((balanced_nil.cons (bracketStep_name _)).cons (bracketStep_of_isOperator hstar)).between
        (bracketStep_of_isOperator hopen) (bracketStep_of_isOperator hclose)
    have hbehind := (BalancedAs.ofTokens hname).append
      (hlist.balanced.concat (bracketStep_of_isOperator hstop))
    exact (((BalancedAs.ofTokens hlead.balanced).append hbehind).cons
      (bracketStep_of_isKeyword hkeyword)).above nofun

end

/-! ## Structs and classes -/

section

variable {tokens : List Token}

theorem StructMemberSpelled.balanced {m : Member} (h : StructMemberSpelled m tokens) :
    BalancedAs (m.walk fun _ => true) tokens := by
  cases h with
  | field h => exact h.balanced.above nofun
  | pointer h => exact h.balanced.above nofun

theorem StructMembersSpelled.balanced {members : List Member}
    (h : StructMembersSpelled members tokens) :
    BalancedAs (members.flatMap (Member.walk fun _ => true)) tokens := by
  induction h with
  | nil => exact .ofTokens balanced_nil
  | cons hfirst hothers ih => exact hfirst.balanced.append ih

/-- Braces around members, and a semicolon. -/
theorem BalancedAs.braces {nodes : List Node} {opening closing stop : Token}
    (hopen : opening.isOperator [openBrace] = true)
    (hclose : closing.isOperator [closeBrace] = true) (hstop : stop.isOperator [";"] = true)
    (h : BalancedAs nodes tokens) :
    BalancedAs nodes (opening :: (tokens ++ [closing, stop])) := by
  have hbraces := (h.between (bracketStep_of_isOperator hopen)
    (bracketStep_of_isOperator hclose)).concat (bracketStep_of_isOperator hstop)
  rwa [List.cons_append, List.append_assoc] at hbraces

theorem Struct.Spelled.balanced {d : Struct} (h : d.Spelled tokens) :
    BalancedAs (d.walk fun _ => true) tokens := by
  cases h with
  | forward hkeyword hkey hstop =>
    exact ((((BalancedAs.ofTokens balanced_nil).cons (bracketStep_of_isOperator hstop)).cons
      (bracketStep_name _)).cons (bracketStep_of_isKeyword hkeyword)).above nofun
  | whole hkeyword hkey hopen hmembers hclose hstop =>
    exact (((hmembers.balanced.braces hopen hclose hstop).cons (bracketStep_name _)).cons
      (bracketStep_of_isKeyword hkeyword)).above nofun

/-- A member of a class and everything in it. -/
def ClassMember.nodes : ClassMember → List Node
  | .data m => m.walk fun _ => true
  | .method f => .functionDecl f :: f.parts fun _ => true

theorem ClassMemberSpelled.balanced {access : Access} {m : ClassMember}
    (h : ClassMemberSpelled access m tokens) : BalancedAs m.nodes tokens := by
  cases h with
  | field h => exact h.balanced.above nofun
  | pointer h => exact h.balanced.above nofun
  | method h => exact h.balanced.above nofun

theorem ClassMembersSpelled.balanced {access : Access} {members : List ClassMember}
    (h : ClassMembersSpelled access members tokens) :
    BalancedAs (members.flatMap ClassMember.nodes) tokens := by
  induction h with
  | nil => exact .ofTokens balanced_nil
  | label hlabel hcolon hmembers ih =>
    exact (ih.cons (bracketStep_of_isOperator hcolon)).cons (bracketStep_of_labelAccess hlabel)
  | plain hfirst hothers ih => exact hfirst.balanced.append ih
  | overriding hkeyword hfirst hothers ih =>
    exact (hfirst.balanced.append ih).cons (bracketStep_of_isKeyword hkeyword)

theorem TraitsSpelled.balanced {traits : List TypeRef} (h : TraitsSpelled traits tokens) :
    Balanced tokens := by
  cases h with
  | none => exact balanced_nil
  | some hcolon htraits =>
    have hlist : BalancedAs (traits.flatMap fun _ => []) _ :=
      htraits.balanced fun trait tokens htrait => .ofTokens <| by
        cases htrait
        exact balanced_nil.cons (bracketStep_name _)
    exact hlist.whole.cons (bracketStep_of_isOperator hcolon)

/-- The nodes of a class are those of its members, the methods behind the others, and
    types. -/
theorem Class.Spelled.balanced {d : Class} (h : d.Spelled tokens) :
    BalancedAs (d.walk fun _ => true) tokens := by
  cases h with
  | forward hkeyword hkey hstop =>
    exact ((((BalancedAs.ofTokens balanced_nil).cons (bracketStep_of_isOperator hstop)).cons
      (bracketStep_name _)).cons (bracketStep_of_isKeyword hkeyword)).above nofun
  | @whole name _ _ _ _ _ _ _ _ hkeyword hkey htraits hopen hmembers hclose hstop =>
    have hbody := hmembers.balanced.braces hopen hclose hstop
    have hall := (((BalancedAs.ofTokens htraits.balanced).append hbody).cons
      (bracketStep_name name)).cons (bracketStep_of_isKeyword hkeyword)
    refine ⟨hall.whole, fun run hrun => hall.runs run ?_⟩
    simp only [Class.walk, Node.above, ClassBody.parts, Option.map_some, Option.getD_some,
      if_true, List.mem_cons, List.mem_append, List.mem_map, List.mem_flatMap, List.mem_filterMap,
      reduceCtorEq, and_false, exists_false, false_or] at hrun
    rw [List.nil_append, List.mem_flatMap]
    rcases hrun with ⟨m, ⟨_ | _, hm, hdata⟩, hrun⟩ | ⟨f, ⟨_ | _, hf, hmethod⟩, hrun⟩
    · cases hdata
      exact ⟨_, hm, hrun⟩
    · cases hdata
    · cases hmethod
    · cases hmethod
      exact ⟨_, hf, List.mem_cons_of_mem _ hrun⟩

end

/-! ## Scopes -/

/-- Tokens in front of items, which join a raw run that begins these. -/
theorem BalancedAs.consRaw {items : List Item} {tokens rest : List Token} (h : Balanced tokens)
    (h' : BalancedAs (walkItems (fun _ => true) items) rest) :
    BalancedAs (walkItems (fun _ => true) (Item.consRaw tokens items)) (tokens ++ rest) := by
  rcases tokens with _ | ⟨first, others⟩
  · exact h'
  have hfirst : BalancedAs [.rawRun ⟨first, others⟩] (first :: others) := .run h
  cases hraw : beginsRaw items with
  | false =>
    rw [consRaw_of_beginsRaw_eq_false hraw, walkItems, Item.walk]
    exact hfirst.append h'
  | true =>
    obtain ⟨run, behind, rfl⟩ := exists_raw_of_beginsRaw hraw
    rw [walkItems, Item.walk] at h'
    rw [Item.consRaw, walkItems, Item.walk]
    refine ⟨h.append h'.whole, fun other hother => ?_⟩
    rcases List.mem_cons.1 hother with heq | hbehind
    · cases heq
      exact h.append (h'.runs run List.mem_cons_self)
    · exact h'.runs other (List.mem_cons_of_mem _ hbehind)

namespace Parser

variable {c : Context} {s s' : State} {nested : Bool} {n : Nat}

/-- The nodes are made of balanced tokens between the states. -/
def ReadsBalanced (s : State) (nodes : List Node) (s' : State) : Prop :=
  ∃ tokens, s.rest = tokens ++ s'.rest ∧ BalancedAs nodes tokens

/-- What a production reads is balanced, if what it reads inside of a namespace is. -/
theorem readsBalanced_of_produce {body : Parser (List Item)}
    (hbody : ∀ {s children s'}, s.types.Consistent → body.Reads c s children s' →
      ReadsBalanced s (walkItems (fun _ => true) children) s') {production : Production}
    {item : Item} (hs : s.types.Consistent) (h : (produce body production).Reads c s item s') :
    ReadsBalanced s (item.walk fun _ => true) s' := by
  cases production with
  | namespaceDecl =>
    obtain ⟨keyword, name, opening, closing, children, s₁, hkeyword, -, hopen, hclose, rfl,
      hchildren, rfl⟩ := reads_namespaceDecl.1 h
    obtain ⟨inside, hrest, hinside⟩ := hbody (s := s₁) hs hchildren
    have hbraces := hinside.between (bracketStep_of_isOperator hopen)
      (bracketStep_of_isOperator hclose)
    refine ⟨keyword :: name.token :: opening :: (inside ++ [closing]), ?_, ?_⟩
    · show keyword :: name.token :: opening :: s₁.rest = _
      rw [hrest, List.cons_append, List.cons_append, List.cons_append, List.append_assoc]
      rfl
    · rw [Item.walk]
      exact ((hbraces.cons (bracketStep_name name)).cons
        (bracketStep_of_isKeyword hkeyword)).above nofun
  | classDecl =>
    obtain ⟨d, hd, rfl⟩ := reads_map.1 h
    obtain ⟨tokens, hspelled, -, hrest, -⟩ := (reads_classDecl hs).1 hd
    exact ⟨tokens, hrest, by rw [Item.walk]; exact hspelled.balanced⟩
  | structDecl =>
    obtain ⟨d, hd, rfl⟩ := reads_map.1 h
    obtain ⟨tokens, hspelled, -, hrest, -⟩ := (reads_structDecl hs).1 hd
    exact ⟨tokens, hrest, by rw [Item.walk]; exact hspelled.balanced⟩
  | declaration =>
    obtain ⟨d, s₁, hd, hitem⟩ := reads_bind.1 h
    obtain ⟨tokens, hspelled, -, rfl⟩ := (reads_declaration hs).1 hd
    cases hspelled with
    | variableDecl hspelled =>
      obtain ⟨rfl, rfl⟩ := reads_pure.1 hitem
      exact ⟨tokens, rfl, by rw [Item.walk]; exact hspelled.balanced.above nofun⟩
    | functionDecl hspelled =>
      obtain ⟨rfl, rfl⟩ := reads_pure.1 hitem
      exact ⟨tokens, rfl, by rw [Item.walk]; exact hspelled.balanced.above nofun⟩

/-- What a production has tried and given up leaves no trace in the state, so a
    statement that is passed through instead begins where the round did. -/
theorem readsBalanced_of_scopeItems {items : List Item} (hs : s.types.Consistent)
    (h : (scopeItems n nested).Reads c s items s') :
    ReadsBalanced s (walkItems (fun _ => true) items) s' := by
  induction n generalizing nested s s' items with
  | zero => exact absurd h not_reads_fail
  | succ n ih =>
    rcases (reads_scopeItems_succ hs).1 h with ⟨-, rfl, rfl⟩ |
      ⟨-, production, item, others, s₁, -, hitem, hothers, rfl⟩ |
      ⟨-, -, tokens, others, s₁, htokens, hothers, rfl⟩
    · exact ⟨[], rfl, by rw [walkItems]; exact .ofTokens balanced_nil⟩
    · obtain ⟨hread, -⟩ := itemRead_of_produce (fun hs h => (itemsRead_of_scopeItems hs h).1) hs hitem
      have hs₁ : s₁.types.Consistent := by
        rw [hread.types]
        exact TypeNames.consistent_registerAll hs _
      obtain ⟨tokens, hrest, hfirst⟩ := readsBalanced_of_produce ih hs hitem
      obtain ⟨behind, hrest', hbehind⟩ := ih hs₁ hothers
      refine ⟨tokens ++ behind, by rw [hrest, hrest', List.append_assoc], ?_⟩
      rw [walkItems]
      exact hfirst.append hbehind
    · have hbalanced := balanced_of_reads_rawStatement htokens
      cases eq_behind_of_reads_rawStatement htokens
      obtain ⟨behind, hrest, hbehind⟩ := ih (s := s₁) hs hothers
      refine ⟨tokens ++ behind, ?_, .consRaw hbalanced hbehind⟩
      rw [State.behind, hrest, List.append_assoc]

end Parser

/-! ## Whole programs -/

/-- The tokens of a program that is parsed are balanced, and so is every raw run and
    every initializer of its tree, taken alone. -/
theorem balanced_of_parse {builtins lines : List String} {tokens : List Token} {stop : Location}
    {tree : Scope} (hend : ∀ t ∈ tokens, t.isEnd = false)
    (h : (parse builtins lines tokens stop).result = .ok tree) :
    Balanced tokens ∧ ∀ run, .rawRun run ∈ tree.nodes → Balanced run.tokens := by
  obtain ⟨-, hchildren, hstop⟩ := Parser.reads_scope.1 ⟨h, rfl⟩
  obtain ⟨read, hrest, hread⟩ := Parser.readsBalanced_of_scopeItems
    (TypeNames.consistent_ofBuiltins builtins) (Parser.reads_budgeted.1 hchildren)
  have hall : tokens = read := by
    have hrest' : tokens = read ++ (parse builtins lines tokens stop).state.rest := hrest
    have hsuffix : Endless (parse builtins lines tokens stop).state.rest :=
      Endless.of_append (hrest' ▸ (hend : Endless tokens))
    rw [hrest', Parser.rest_eq_nil_of_isEnd hsuffix hstop, List.append_nil]
  have hnodes : BalancedAs tree.nodes read := hread.above nofun
  exact ⟨hall ▸ hnodes.whole, hnodes.runs⟩

/-- A variable with an initializer, and a statement with a bracket of another kind than
    the one it closes:

        int a = { 1 }; f ( ];  -/
def crossedBrackets : List Token :=
  [Lexeme.identifier "int", .identifier "a", .operator "=", .operator openBrace, .integer "1" 1,
    .operator closeBrace, .operator ";", .identifier "f", .operator "(", .operator "]",
    .operator ";"].map (Token.mk · default)

/-- There are two runs in the tree, and each of them is balanced. -/
theorem balanced_of_parse_crossedBrackets :
    ∃ tree first second, (parse ["int"] [] crossedBrackets default).result = .ok tree ∧
      tree.nodes.filter (·.kind = .rawRun) = [.rawRun first, .rawRun second] ∧
      Balanced crossedBrackets ∧ ∀ run, .rawRun run ∈ tree.nodes → Balanced run.tokens := by
  obtain ⟨tree, first, second, hparse, hruns⟩ : ∃ tree first second,
      (parse ["int"] [] crossedBrackets default).result = .ok tree ∧
        tree.nodes.filter (·.kind = .rawRun) = [.rawRun first, .rawRun second] :=
    ⟨_, _, _, rfl, rfl⟩
  exact ⟨tree, first, second, hparse, hruns, balanced_of_parse (by decide) hparse⟩

end Flattener
