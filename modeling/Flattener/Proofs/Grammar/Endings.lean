import Flattener.Proofs.Grammar.Balance
import Flattener.Proofs.Grammar.Concatenation
import Flattener.Proofs.Grammar.Scans
import Flattener.Proofs.Grammar.Unambiguity

/-!
# Where statements and initializers end

Both follow the brackets of the tokens, which count alike, of whatever kind, and neither
takes more than it has to:

* a statement is the shortest run of tokens that ends with a `;` or a closing brace
  outside of all brackets, or what comes before a closing bracket that closes nothing, or
  before the end of input (`IsStatement`). It is missed where such a bracket comes first,
  and where brackets are open at the end of input (`Parser.rawStatement_outcomes`);
* an initializer is what comes before the end of input or the first token outside of all
  brackets that is a stop or closes a bracket (`HaltsBehind`), if that is something and
  the token is a stop (`Parser.initializer_outcomes`).

The tokens that are left end where the input does, and so the end of input comes next
where there are none. Were it among them, both would end there as well.
-/

namespace Flattener

/-- The end of input comes next: it is the first of the tokens, or there are none. -/
def InputEnds (tokens : List Token) : Prop :=
  ∀ t ∈ tokens.head?, t.isEnd = true

/-- A statement may end behind the tokens: they are some, close all brackets, and the last
    of them is a `;` or a closing brace. -/
structure Complete (tokens : List Token) : Prop where
  some : tokens ≠ []
  closed : bracketDepth tokens = 0
  last : Parser.EndsStatement tokens

/-- The run is the statement in front of the rest: it is complete, or the end of input or
    a closing bracket with nothing to close comes before any such end. -/
structure IsStatement (run rest : List Token) : Prop where
  endless : Endless run
  balanced : Balanced run
  shortest : ∀ front, front <+: run → Complete front → front = run
  ends : Complete run ∨ InputEnds rest ∨ run ≠ [] ∧ Before closers rest

/-- Brackets of the run are open where the input ends behind it, and no statement ended
    before. -/
structure Unclosed (run rest : List Token) : Prop where
  endless : Endless run
  nonneg : ∀ front, front <+: run → 0 ≤ bracketDepth front
  incomplete : ∀ front, front <+: run → ¬Complete front
  opened : 0 < bracketDepth run
  ends : InputEnds rest

/-- What comes behind the run is the first thing to halt an initializer: outside of the
    brackets of the run a stop or a closing bracket, or the end of input. -/
structure HaltsBehind (stops : List String) (run rest : List Token) : Prop where
  endless : Endless run
  goes : ∀ front t, front ++ [t] <+: run → bracketDepth front = 0 →
    t.isOperator (stops ++ closers) = false
  halts : ∀ t ∈ rest.head?, t.isEnd = true ∨
    bracketDepth run = 0 ∧ t.isOperator (stops ++ closers) = true

section

variable {t : Token} {front run run' rest rest' tokens : List Token} {depth depth' : Nat}

/-! ## The end of input -/

/-- What does not hold the end of input goes no further than where the input ends. -/
theorem InputEnds.prefix_of_endless (h : InputEnds rest) (hrun : Endless run')
    (heq : run ++ rest = run' ++ rest') : run' <+: run := by
  have hfront' : run' <+: run ++ rest := heq ▸ List.prefix_append run' rest'
  rcases List.prefix_or_prefix_of_prefix (List.prefix_append run rest) hfront' with hfront | hfront
  · obtain ⟨others, rfl⟩ := hfront
    rw [List.append_assoc] at heq
    obtain rfl := List.append_cancel_left heq
    cases others with
    | nil => exact (List.append_nil run).symm ▸ List.prefix_refl run
    | cons t others =>
      cases (hrun t (List.mem_append_right run List.mem_cons_self)).symm.trans (h t rfl)
  · exact hfront

theorem inputEnds_nil : InputEnds [] := fun t ht => absurd ht (Option.not_mem_none t)

theorem InputEnds.not_before {spellings : List String} (h : InputEnds tokens) :
    ¬Before spellings tokens := by
  rintro ⟨t, others, rfl, ht⟩
  cases (Token.isEnd_of_isOperator ht).symm.trans (h t rfl)

theorem InputEnds.isEnd_tokenAt (h : InputEnds tokens) (c : Context) :
    (Parser.tokenAt c tokens 0).isEnd = true := by
  cases tokens with
  | nil => rfl
  | cons t others => exact h t rfl

/-! ## Brackets that are open -/

theorem bracketDepth_concat (tokens : List Token) (t : Token) :
    bracketDepth (tokens ++ [t]) = bracketDepth tokens + bracketStep t := by
  rw [bracketDepth_append, bracketDepth_cons, bracketDepth_nil, Int.add_zero]

/-- Where a parse sees brackets open, there are as many. -/
theorem bracketDepth_of_open (h : openDepth depth tokens = some depth') :
    depth + bracketDepth tokens = depth' := by
  induction tokens generalizing depth with
  | nil =>
    cases h
    rw [bracketDepth_nil, Int.add_zero]
  | cons t tokens ih =>
    rw [openDepth] at h
    split at h
    · cases h
    next hopen =>
    have hnesting : (nesting depth t : Int) = depth + bracketStep t :=
      nesting_eq (not_or.1 (not_or.1 hopen).1).2
    rw [bracketDepth_cons, ← Int.add_assoc, ← hnesting]
    exact ih h

/-- An open statement does not hold the end of input. -/
theorem endless_of_open (h : openDepth depth tokens = some depth') : Endless tokens := by
  induction tokens generalizing depth with
  | nil => exact List.forall_mem_nil _
  | cons t tokens ih =>
    rw [openDepth] at h
    split at h
    · cases h
    next hopen =>
    have hinside := (not_or.1 (not_or.1 hopen).1).1
    exact List.forall_mem_cons.2 ⟨Bool.not_eq_true _ ▸ hinside, ih h⟩

theorem exists_open_of_prefix (h : openDepth 0 tokens = some depth) (hfront : front <+: tokens) :
    ∃ depth', openDepth 0 front = some depth' ∧ bracketDepth front = depth' := by
  obtain ⟨behind, rfl⟩ := hfront
  rw [openDepth_append, Option.bind_eq_some_iff] at h
  obtain ⟨depth', hopen, -⟩ := h
  refine ⟨depth', hopen, ?_⟩
  rw [← bracketDepth_of_open hopen]
  exact (Int.zero_add _).symm

/-- An open statement never closes more than it has opened. -/
theorem nonneg_of_open (h : openDepth 0 tokens = some depth) (hfront : front <+: tokens) :
    0 ≤ bracketDepth front := by
  obtain ⟨depth', -, heq⟩ := exists_open_of_prefix h hfront
  rw [heq]
  exact Int.natCast_nonneg _

/-- No front part of an open statement is a complete one. -/
theorem not_complete_of_open (h : openDepth 0 tokens = some depth) (hfront : front <+: tokens) :
    ¬Complete front := fun hcomplete => by
  obtain ⟨depth', hopen, heq⟩ := exists_open_of_prefix h hfront
  have hzero : depth' = 0 := by
    have := hcomplete.closed
    omega
  exact Parser.openDepth_ne_zero_of_endsStatement hcomplete.last hcomplete.some (hzero ▸ hopen)

/-- A closing bracket takes the depth below zero if nothing is open in front of it. -/
theorem not_nonneg_of_closer (hzero : bracketDepth run = 0) (ht : t.isOperator closers = true) :
    ¬0 ≤ bracketDepth (run ++ [t]) := by
  rw [bracketDepth_concat, hzero, bracketStep_of_closer ht]
  decide

/-- So no closing bracket comes first in tokens that never close more than they have opened. -/
theorem not_closer_of_nonneg (h : ∀ front, front <+: t :: tokens → 0 ≤ bracketDepth front) :
    ¬t.isOperator closers = true := fun ht =>
  not_nonneg_of_closer bracketDepth_nil ht (h [t] ⟨tokens, rfl⟩)

/-- Of two runs at the head of the same tokens, one is in front of the other. So they are
    one run if that makes them equal. -/
theorem eq_of_ends_alike {ends : List Token → List Token → Prop}
    (hends : ∀ {run run' rest rest'}, ends run rest → ends run' rest' →
      run ++ rest = run' ++ rest' → run <+: run' → run = run')
    (h : ends run rest) (h' : ends run' rest') (heq : run ++ rest = run' ++ rest') :
    run = run' := by
  have hfront' : run' <+: run ++ rest := heq ▸ List.prefix_append run' rest'
  rcases List.prefix_or_prefix_of_prefix (List.prefix_append run rest) hfront' with hfront | hfront
  · exact hends h h' heq hfront
  · exact (hends h' h heq.symm hfront).symm

/-! ## Statements -/

theorem not_complete_nil : ¬Complete [] := fun h => h.some rfl

/-- The span of a statement ends in one of three ways: behind its last token, in front of
    a closing bracket, and where the input ends. -/
theorem statementSpan_cases (depth : Nat) (tokens : List Token) :
    ∃ rest, tokens = statementSpan depth tokens ++ rest ∧
      ((∃ front t depth', statementSpan depth tokens = front ++ [t] ∧
          openDepth depth front = some depth' ∧ ¬(depth' = 0 ∧ t.isOperator closers = true) ∧
          nesting depth' t = 0 ∧ t.isOperator [";", closeBrace] = true) ∨
        ∃ depth', openDepth depth (statementSpan depth tokens) = some depth' ∧
          (InputEnds rest ∨ depth' = 0 ∧ Before closers rest)) := by
  induction tokens generalizing depth with
  | nil => exact ⟨[], rfl, .inr ⟨depth, rfl, .inl inputEnds_nil⟩⟩
  | cons t tokens ih =>
    by_cases hend : t.isEnd = true
    · have hends : InputEnds (t :: tokens) := fun u hu => by
        cases hu
        exact hend
      rw [statementSpan, if_pos (.inl hend)]
      exact ⟨t :: tokens, rfl, .inr ⟨depth, rfl, .inl hends⟩⟩
    by_cases hblocked : depth = 0 ∧ t.isOperator closers = true
    · rw [statementSpan, if_pos (.inr hblocked)]
      exact ⟨t :: tokens, rfl, .inr ⟨depth, rfl, .inr ⟨hblocked.1, before_cons hblocked.2 tokens⟩⟩⟩
    have hstops := not_or.2 ⟨hend, hblocked⟩
    by_cases hlast : nesting depth t = 0 ∧ t.isOperator [";", closeBrace] = true
    · rw [statementSpan, if_neg hstops, if_pos hlast]
      exact ⟨tokens, rfl, .inl ⟨[], t, depth, rfl, rfl, hblocked, hlast⟩⟩
    rw [statementSpan, if_neg hstops, if_neg hlast]
    have hgoes (others : List Token) :
        openDepth depth (t :: others) = openDepth (nesting depth t) others := by
      rw [openDepth, if_neg (not_or.2 ⟨hstops, hlast⟩)]
    obtain ⟨rest, hrest, hcases⟩ := ih (nesting depth t)
    refine ⟨rest, congrArg (t :: ·) hrest, ?_⟩
    rcases hcases with ⟨front, u, depth', hspan, hopen, hends⟩ | ⟨depth', hopen, hends⟩
    · rw [hspan]
      exact .inl ⟨t :: front, u, depth', rfl, (hgoes front).trans hopen, hends⟩
    · exact .inr ⟨depth', (hgoes _).trans hopen, hends⟩

/-- The last token of a statement makes it complete, and nothing in front of it does. -/
theorem isStatement_of_last (hopen : openDepth 0 front = some depth)
    (hblocked : ¬(depth = 0 ∧ t.isOperator closers = true)) (hnesting : nesting depth t = 0)
    (ht : t.isOperator [";", closeBrace] = true) (rest : List Token) :
    IsStatement (front ++ [t]) rest := by
  have hclosed : bracketDepth (front ++ [t]) = 0 := by
    have hfront := bracketDepth_of_open hopen
    have hstep : (nesting depth t : Int) = depth + bracketStep t := nesting_eq hblocked
    rw [bracketDepth_concat]
    omega
  have hcomplete : Complete (front ++ [t]) := by
    refine ⟨by simp, hclosed, fun u hu => ?_⟩
    rw [List.getLast?_append, List.getLast?_singleton] at hu
    cases hu
    exact ht
  have hendless : Endless (front ++ [t]) := List.forall_mem_append.2
    ⟨endless_of_open hopen, List.forall_mem_singleton.2 (Token.isEnd_of_isOperator ht)⟩
  refine ⟨hendless, ⟨fun part hpart => ?_, hclosed⟩, fun part hpart hpart' => ?_, .inl hcomplete⟩
  · rcases List.prefix_concat_iff.1 hpart with rfl | hpart
    · exact Int.le_of_eq hclosed.symm
    · exact nonneg_of_open hopen hpart
  · exact (List.prefix_concat_iff.1 hpart).resolve_right fun hfront =>
      not_complete_of_open hopen hfront hpart'

/-- A statement that nothing completes is one if it closes its brackets. -/
theorem isStatement_of_open (hopen : openDepth 0 run = some 0)
    (hends : InputEnds rest ∨ run ≠ [] ∧ Before closers rest) : IsStatement run rest := by
  refine ⟨endless_of_open hopen, ⟨fun front hfront => nonneg_of_open hopen hfront, ?_⟩,
    fun front hfront hcomplete => ?_, .inr hends⟩
  · exact (Int.zero_add _).symm.trans (bracketDepth_of_open hopen)
  · exact absurd hcomplete (not_complete_of_open hopen hfront)

theorem unclosed_of_open (hopen : openDepth 0 run = some depth) (hdepth : 0 < depth)
    (hends : InputEnds rest) : Unclosed run rest := by
  refine ⟨endless_of_open hopen, fun front hfront => nonneg_of_open hopen hfront,
    fun front hfront => not_complete_of_open hopen hfront, ?_, hends⟩
  have hfront := bracketDepth_of_open hopen
  omega

/-- A statement is complete if there are more tokens behind it which, taken with it, hold
    no end of input and never close more than they have opened. -/
theorem IsStatement.complete_of_prefix (h : IsStatement run rest)
    (heq : tokens ++ rest' = run ++ rest) (hrun : run <+: tokens) (hne : run ≠ tokens)
    (hendless : Endless tokens) (hnonneg : ∀ front, front <+: tokens → 0 ≤ bracketDepth front) :
    Complete run := by
  rcases h.ends with hcomplete | hends | ⟨-, t, behind, hclose, ht⟩
  · exact hcomplete
  · have hback : tokens <+: run := hends.prefix_of_endless hendless heq.symm
    exact absurd (hrun.eq_of_length_le hback.length_le) hne
  · -- the closing bracket would be the next of the tokens
    obtain ⟨others, rfl⟩ := hrun
    have hothers : others ≠ [] := fun hnil => hne (by rw [hnil, List.append_nil])
    obtain ⟨u, others, rfl⟩ := List.exists_cons_of_ne_nil hothers
    rw [List.append_assoc] at heq
    obtain ⟨rfl, -⟩ := List.cons.inj ((List.append_cancel_left heq).trans hclose)
    have hfront : run ++ [u] <+: run ++ u :: others := ⟨others, List.append_assoc ..⟩
    exact absurd (hnonneg _ hfront) (not_nonneg_of_closer h.balanced.closed ht)

/-- At the head of the same tokens there is one statement. -/
theorem IsStatement.unique (h : IsStatement run rest) (h' : IsStatement run' rest')
    (heq : run ++ rest = run' ++ rest') : run = run' := by
  refine eq_of_ends_alike (fun h h' heq hfront => ?_) h h' heq
  by_contra hne
  have hcomplete := h.complete_of_prefix heq.symm hfront hne h'.endless h'.balanced.nonneg
  exact hne (h'.shortest _ hfront hcomplete)

/-- And one run that is open where the input ends. -/
theorem Unclosed.unique (h : Unclosed run rest) (h' : Unclosed run' rest')
    (heq : run ++ rest = run' ++ rest') : run = run' := by
  have hback : run' <+: run := h.ends.prefix_of_endless h'.endless heq
  have hfront : run <+: run' := h'.ends.prefix_of_endless h.endless heq.symm
  exact hfront.eq_of_length_le hback.length_le

/-- Where a statement is, no brackets are open at the end of input. -/
theorem IsStatement.not_unclosed (h : IsStatement run rest) (heq : run ++ rest = run' ++ rest') :
    ¬Unclosed run' rest' := fun hopen => by
  have hfront : run <+: run' := hopen.ends.prefix_of_endless h.endless heq.symm
  have hne : run ≠ run' := by
    rintro rfl
    exact absurd h.balanced.closed (Int.ne_of_gt hopen.opened)
  have hcomplete := h.complete_of_prefix heq.symm hfront hne hopen.endless hopen.nonneg
  exact hopen.incomplete run hfront hcomplete

/-- Nor does a closing bracket come first. -/
theorem IsStatement.not_before (h : IsStatement run rest) : ¬Before closers (run ++ rest) := by
  rintro ⟨t, others, heq, ht⟩
  cases run with
  | nil =>
    rcases h.ends with hcomplete | hends | ⟨hsome, -⟩
    · exact not_complete_nil hcomplete
    · exact hends.not_before ⟨t, others, heq, ht⟩
    · exact hsome rfl
  | cons u run =>
    obtain ⟨rfl, -⟩ := List.cons.inj heq
    exact not_closer_of_nonneg h.balanced.nonneg ht

theorem Unclosed.not_before (h : Unclosed run rest) : ¬Before closers (run ++ rest) := by
  rintro ⟨t, others, heq, ht⟩
  cases run with
  | nil => exact absurd h.opened (Int.lt_irrefl 0)
  | cons u run =>
    obtain ⟨rfl, -⟩ := List.cons.inj heq
    exact not_closer_of_nonneg h.nonneg ht

/-! ## Initializers -/

/-- At the head of the same tokens there is one run that something halts behind. -/
theorem HaltsBehind.unique {stops : List String} (h : HaltsBehind stops run rest)
    (h' : HaltsBehind stops run' rest') (heq : run ++ rest = run' ++ rest') : run = run' := by
  refine eq_of_ends_alike (fun {run _ _ _} h h' heq hfront => ?_) h h' heq
  obtain ⟨others, rfl⟩ := hfront
  rw [List.append_assoc] at heq
  obtain rfl := List.append_cancel_left heq
  cases others with
  | nil => exact (List.append_nil run).symm
  | cons t others =>
    -- what halts behind the one does not let the other go on
    rcases h.halts t rfl with hend | ⟨hzero, ht⟩
    · cases (h'.endless t (List.mem_append_right run List.mem_cons_self)).symm.trans hend
    · have hnext : run ++ [t] <+: run ++ t :: others := ⟨others, List.append_assoc ..⟩
      exact absurd (h'.goes run t hnext hzero) (by simp [ht])

/-- Outside of all brackets, a span goes on at no stop and at no closing bracket. -/
theorem initializerSpan_goes {stops : List String}
    (h : front ++ [t] <+: initializerSpan stops depth tokens)
    (hzero : depth + bracketDepth front = 0) : t.isOperator (stops ++ closers) = false := by
  induction tokens generalizing depth front with
  | nil => simp [initializerSpan] at h
  | cons u tokens ih =>
    rw [initializerSpan] at h
    split at h
    · simp at h
    next hgoes =>
    have hinside := (not_or.1 hgoes).2
    cases front with
    | nil =>
      obtain ⟨rfl, -⟩ := List.cons_prefix_cons.1 h
      rw [bracketDepth_nil, Int.add_zero] at hzero
      exact Bool.eq_false_iff.2 fun hstop => hinside ⟨Int.ofNat_eq_zero.1 hzero, hstop⟩
    | cons v front =>
      obtain ⟨rfl, hfront⟩ := List.cons_prefix_cons.1 h
      have hnesting : (nesting depth v : Int) = depth + bracketStep v :=
        nesting_eq (not_closes_of_goes hinside)
      rw [bracketDepth_cons, ← Int.add_assoc, ← hnesting] at hzero
      exact ih hfront hzero

theorem endless_initializerSpan (stops : List String) (depth : Nat) (tokens : List Token) :
    Endless (initializerSpan stops depth tokens) := by
  induction tokens generalizing depth with
  | nil => exact List.forall_mem_nil _
  | cons t tokens ih =>
    rw [initializerSpan]
    split
    · exact List.forall_mem_nil _
    · next hgoes =>
      exact List.forall_mem_cons.2 ⟨Bool.not_eq_true _ ▸ (not_or.1 hgoes).1, ih _⟩

/-- What comes behind a span halts it. -/
theorem initializerSpan_halts (stops : List String) (depth : Nat) (tokens : List Token) :
    ∃ rest, tokens = initializerSpan stops depth tokens ++ rest ∧ ∀ t ∈ rest.head?,
      t.isEnd = true ∨ depth + bracketDepth (initializerSpan stops depth tokens) = 0 ∧
        t.isOperator (stops ++ closers) = true := by
  induction tokens generalizing depth with
  | nil => exact ⟨[], rfl, fun t ht => absurd ht (Option.not_mem_none t)⟩
  | cons u tokens ih =>
    rw [initializerSpan]
    split
    · next hstops =>
      refine ⟨u :: tokens, rfl, fun t ht => ?_⟩
      cases ht
      exact hstops.imp_right fun h => ⟨by rw [h.1, bracketDepth_nil]; rfl, h.2⟩
    next hgoes =>
    have hnesting : (nesting depth u : Int) = depth + bracketStep u :=
      nesting_eq (not_closes_of_goes (not_or.1 hgoes).2)
    obtain ⟨rest, hrest, hhalts⟩ := ih (nesting depth u)
    refine ⟨rest, congrArg (u :: ·) hrest, fun t ht => ?_⟩
    rw [bracketDepth_cons, ← Int.add_assoc, ← hnesting]
    exact hhalts t ht

theorem exists_haltsBehind (stops : List String) (tokens : List Token) :
    ∃ rest, tokens = initializerSpan stops 0 tokens ++ rest ∧
      HaltsBehind stops (initializerSpan stops 0 tokens) rest := by
  obtain ⟨rest, hrest, hhalts⟩ := initializerSpan_halts stops 0 tokens
  refine ⟨rest, hrest, endless_initializerSpan stops 0 tokens, fun front t hfront hzero => ?_,
    fun t ht => (hhalts t ht).imp_right fun h => ?_⟩
  · exact initializerSpan_goes hfront (by rw [hzero]; rfl)
  · exact ⟨(Int.zero_add _).symm.trans h.1, h.2⟩

end

namespace Parser

variable {c : Context} {s : State} {run rest : List Token}

/-! ## Reading a statement -/

theorem rawStatement_apply (hspan : statementSpan 0 s.rest = run) (hrest : s.rest = run ++ rest) :
    rawStatement c s = statementEnd (run.foldl nesting 0) run c ⟨rest, s.types⟩ :=
  statementFrom_apply 0 [] hspan hrest

/-- A statement is read, or one of two errors is found. -/
theorem rawStatement_cases (c : Context) (s : State) :
    (∃ run rest, s.rest = run ++ rest ∧ IsStatement run rest ∧
      rawStatement c s = ⟨.ok run, ⟨rest, s.types⟩, []⟩) ∨
    (Before closers s.rest ∧ rawStatement c s = unexpected "declaration or statement" c s) ∨
    ∃ run rest, s.rest = run ++ rest ∧ Unclosed run rest ∧
      rawStatement c s = unexpected "closing bracket" c ⟨rest, s.types⟩ := by
  obtain ⟨rest, hrest, hcases⟩ := statementSpan_cases 0 s.rest
  have happly := @rawStatement_apply c s _ rest rfl hrest
  rcases hcases with ⟨front, t, depth, hspan, hopen, hblocked, hnesting, ht⟩ | ⟨depth, hopen, hends⟩
  · rw [hspan] at hrest happly
    have hclosed : (front ++ [t]).foldl nesting 0 = 0 := by
      rw [List.foldl_append, foldl_nesting_of_open hopen]
      exact hnesting
    refine .inl ⟨_, rest, hrest, isStatement_of_last hopen hblocked hnesting ht rest, ?_⟩
    rw [happly, hclosed, statementEnd_zero (by simp)]
  rw [foldl_nesting_of_open hopen, statementEnd_apply] at happly
  generalize statementSpan 0 s.rest = span at hrest hopen happly
  rcases hends with hends | ⟨rfl, hbefore⟩
  · have hend : (tokenAt c (State.mk rest s.types).rest 0).isEnd = true := hends.isEnd_tokenAt c
    simp only [hend, if_true] at happly
    rcases Nat.eq_zero_or_pos depth with rfl | hdepth
    · simp only [Nat.lt_irrefl, if_false] at happly
      exact .inl ⟨span, rest, hrest, isStatement_of_open hopen (.inl hends), happly⟩
    · simp only [hdepth, if_true] at happly
      exact .inr (.inr ⟨span, rest, hrest, unclosed_of_open hopen hdepth hends, happly⟩)
  · have hinside : (tokenAt c rest 0).isEnd = false := by
      obtain ⟨t, others, rfl, ht⟩ := hbefore
      exact Token.isEnd_of_isOperator ht
    simp only [hinside, Bool.false_eq_true, if_false] at happly
    rcases span with _ | ⟨t, others⟩
    · simp only [List.isEmpty_nil, if_true] at happly
      obtain rfl : s.rest = rest := hrest
      exact .inr (.inl ⟨hbefore, happly⟩)
    · simp only [List.isEmpty_cons, Bool.false_eq_true, if_false] at happly
      have hsome : t :: others ≠ [] := List.cons_ne_nil t others
      exact .inl ⟨_, rest, hrest, isStatement_of_open hopen (.inr ⟨hsome, hbefore⟩), happly⟩

/-- A token of the list that is not expected is not the end of input. -/
theorem unexpected_of_operator {α : Type} {t : Token} {others : List Token}
    {spellings : List String} (hrest : s.rest = t :: others) (ht : t.isOperator spellings = true) (expected : String) :
    (unexpected expected c s : Step α).result =
      .error (.invalid ⟨.unexpectedToken t.describe (some expected), some t.location, false,
        sourceLine c.lines t.location.line⟩) := by
  have hhead : tokenAt c s.rest 0 = t := by
    rw [hrest]
    rfl
  have hresult : (unexpected expected c s : Step α).result = .error (.invalid
      (errorAt c (tokenAt c s.rest 0)
        (.unexpectedToken (tokenAt c s.rest 0).describe (some expected)))) := rfl
  rw [hresult, hhead, errorAt, Token.isEnd_of_isOperator ht]

theorem unexpected_of_inputEnds {α : Type} (h : InputEnds rest) (types : TypeNames)
    (expected : String) :
    let t := tokenAt c rest 0
    (unexpected expected c ⟨rest, types⟩ : Step α).result =
      .error (.invalid ⟨.unexpectedToken "end of input" (some expected), some t.location, true,
        sourceLine c.lines t.location.line⟩) := by
  intro t
  have hend : t.isEnd = true := h.isEnd_tokenAt c
  have hresult : (unexpected expected c ⟨rest, types⟩ : Step α).result =
      .error (.invalid (errorAt c t (.unexpectedToken t.describe (some expected)))) := rfl
  rw [hresult, errorAt, Token.describe, if_pos hend, hend]

section

variable {types : TypeNames}

/-- The three cases do not meet, so that each of them tells the outcome. -/
theorem rawStatement_of_isStatement (c : Context) (h : IsStatement run rest) :
    rawStatement c ⟨run ++ rest, types⟩ = ⟨.ok run, ⟨rest, types⟩, []⟩ := by
  rcases rawStatement_cases c ⟨run ++ rest, types⟩ with ⟨run', rest', hrest, h', happly⟩ |
    ⟨hbefore, -⟩ | ⟨run', rest', hrest, hunclosed, -⟩
  · obtain rfl := h.unique h' hrest
    obtain rfl := List.append_cancel_left hrest
    exact happly
  · exact absurd hbefore h.not_before
  · exact absurd hunclosed (h.not_unclosed hrest)

theorem rawStatement_of_before (c : Context) (h : Before closers s.rest) :
    rawStatement c s = unexpected "declaration or statement" c s := by
  rcases rawStatement_cases c s with ⟨run, rest, hrest, hstatement, -⟩ | ⟨-, happly⟩ |
    ⟨run, rest, hrest, hunclosed, -⟩
  · exact absurd (hrest ▸ h) hstatement.not_before
  · exact happly
  · exact absurd (hrest ▸ h) hunclosed.not_before

theorem rawStatement_of_unclosed (c : Context) (h : Unclosed run rest) :
    rawStatement c ⟨run ++ rest, types⟩ = unexpected "closing bracket" c ⟨rest, types⟩ := by
  rcases rawStatement_cases c ⟨run ++ rest, types⟩ with ⟨run', rest', hrest, hstatement, -⟩ |
    ⟨hbefore, -⟩ | ⟨run', rest', hrest, h', happly⟩
  · exact absurd h (hstatement.not_unclosed hrest.symm)
  · exact absurd hbefore h.not_before
  · obtain rfl := h.unique h' hrest
    obtain rfl := List.append_cancel_left hrest
    exact happly

end

/-- A statement is read where there is one, and it is what the parse moves over. Otherwise
    a closing bracket comes first, or brackets are open at the end of input, and that is
    the error. A statement of no tokens is read at the end of input only. -/
theorem rawStatement_outcomes (c : Context) (s : State) :
    (∀ run s', rawStatement.Reads c s run s' ↔ s = s'.behind run ∧ IsStatement run s'.rest) ∧
    (∀ failure, (rawStatement c s).result = .error failure ↔
      (∃ t others, s.rest = t :: others ∧ t.isOperator closers = true ∧
        failure = .invalid ⟨.unexpectedToken t.describe (some "declaration or statement"),
          some t.location, false, sourceLine c.lines t.location.line⟩) ∨
      ∃ run rest, s.rest = run ++ rest ∧ Unclosed run rest ∧
        let t := tokenAt c rest 0
        failure = .invalid ⟨.unexpectedToken "end of input" (some "closing bracket"),
          some t.location, true, sourceLine c.lines t.location.line⟩) ∧
    ∀ s', rawStatement.Reads c s [] s' ↔ InputEnds s.rest ∧ s' = s := by
  have hreads (run : List Token) (s' : State) :
      rawStatement.Reads c s run s' ↔ s = s'.behind run ∧ IsStatement run s'.rest := by
    constructor
    · rintro ⟨hresult, rfl⟩
      rcases rawStatement_cases c s with ⟨run', rest, hrest, hstatement, happly⟩ | ⟨-, happly⟩ |
        ⟨_, _, -, -, happly⟩
      · rw [happly] at hresult ⊢
        cases hresult
        exact ⟨congrArg (State.mk · s.types) hrest, hstatement⟩
      · exact absurd ⟨happly ▸ hresult, rfl⟩ not_reads_unexpected
      · exact absurd ⟨happly ▸ hresult, rfl⟩ not_reads_unexpected
    · rintro ⟨rfl, hstatement⟩
      have happly := @rawStatement_of_isStatement _ _ s'.types c hstatement
      exact ⟨congrArg Step.result happly, congrArg Step.state happly⟩
  refine ⟨hreads, fun failure => ⟨fun hresult => ?_, ?_⟩, fun s' => (hreads [] s').trans ⟨?_, ?_⟩⟩
  · rcases rawStatement_cases c s with ⟨run, rest, -, -, happly⟩ |
      ⟨⟨t, others, hrest, ht⟩, happly⟩ | ⟨run, rest, hrest, hunclosed, happly⟩
    · rw [happly] at hresult
      cases hresult
    · rw [happly, unexpected_of_operator hrest ht] at hresult
      cases hresult
      exact .inl ⟨t, others, hrest, ht, rfl⟩
    · rw [happly, unexpected_of_inputEnds hunclosed.ends] at hresult
      cases hresult
      exact .inr ⟨run, rest, hrest, hunclosed, rfl⟩
  · rintro (⟨t, others, hrest, ht, rfl⟩ | ⟨run, rest, hrest, hunclosed, rfl⟩)
    · rw [rawStatement_of_before c ⟨t, others, hrest, ht⟩, unexpected_of_operator hrest ht]
    · obtain ⟨_, types⟩ := s
      obtain rfl := hrest
      rw [rawStatement_of_unclosed c hunclosed, unexpected_of_inputEnds hunclosed.ends]
  · rintro ⟨rfl, hstatement⟩
    rcases hstatement.ends with hcomplete | hends | ⟨hsome, -⟩
    · exact absurd hcomplete not_complete_nil
    · exact ⟨hends, rfl⟩
    · exact absurd rfl hsome
  · rintro ⟨hends, rfl⟩
    exact ⟨rfl, List.forall_mem_nil _, balanced_nil, fun front hfront _ => List.prefix_nil.1 hfront,
      .inr (.inl hends)⟩

/-! ## Reading an initializer -/

theorem initializer_apply_of_halts {stops : List String} (hrest : s.rest = run ++ rest)
    (h : HaltsBehind stops run rest) :
    initializer stops c s = initializerEnd stops run c ⟨rest, s.types⟩ := by
  have hspan : initializerSpan stops 0 s.rest = run := by
    obtain ⟨rest', hsplit, hhalts⟩ := exists_haltsBehind stops s.rest
    exact hhalts.unique h (hsplit.symm.trans hrest)
  exact initializerFrom_apply stops 0 [] hspan hrest

/-- An initializer is the run in front of the first token that halts it, if it is a run of
    tokens and the token is a stop outside of its brackets. Otherwise that token is the
    error. -/
theorem initializer_outcomes (stops : List String) (c : Context) (s : State) :
    ∃ run rest, s.rest = run ++ rest ∧ HaltsBehind stops run rest ∧
      (∀ run' rest', s.rest = run' ++ rest' → HaltsBehind stops run' rest' → run' = run) ∧
      (run ≠ [] ∧ bracketDepth run = 0 ∧ Before stops rest →
        Balanced run ∧ ∃ found : RawRun, found.tokens = run ∧
          (initializer stops).Reads c s found ⟨rest, s.types⟩) ∧
      (¬(run ≠ [] ∧ bracketDepth run = 0 ∧ Before stops rest) →
        let t := tokenAt c rest 0
        (initializer stops c s).result = .error (.invalid
          ⟨.unexpectedToken t.describe (some "initializer expression"), some t.location, t.isEnd,
            sourceLine c.lines t.location.line⟩)) := by
  obtain ⟨rest, hrest, hhalts⟩ := exists_haltsBehind stops s.rest
  generalize initializerSpan stops 0 s.rest = run at hrest hhalts
  have happly := initializer_apply_of_halts (c := c) hrest hhalts
  refine ⟨run, rest, hrest, hhalts, fun run' rest' hrest' hhalts' => ?_, ?_, fun hnone => ?_⟩
  · exact hhalts'.unique hhalts (hrest'.symm.trans hrest)
  · rintro ⟨hsome, -, hstop⟩
    obtain ⟨first, others, rfl⟩ := List.exists_cons_of_ne_nil hsome
    rw [initializerEnd, bind_of_look peek_apply, if_pos (hstop.isOperator_tokenAt c)] at happly
    have hread : (initializer stops).Reads c s ⟨first, others⟩ ⟨rest, s.types⟩ :=
      ⟨congrArg Step.result happly, congrArg Step.state happly⟩
    exact ⟨(reads_initializer.1 hread).1.balanced, ⟨first, others⟩, rfl, hread⟩
  · rcases run with _ | ⟨first, others⟩
    · exact congrArg Step.result happly
    have hgoes : ¬(tokenAt c rest 0).isOperator stops = true := fun hop => by
      cases rest with
      | nil => cases hop
      | cons t rest =>
        have hinside : ¬t.isEnd = true := Bool.not_eq_true _ ▸ Token.isEnd_of_isOperator hop
        have hclosed := ((hhalts.halts t rfl).resolve_left hinside).1
        exact hnone ⟨List.cons_ne_nil _ _, hclosed, before_cons hop rest⟩
    rw [initializerEnd, bind_of_look peek_apply, if_neg hgoes] at happly
    exact congrArg Step.result happly

/-- The tokens of a default value in braces, and of the end of a list of parameters. -/
def bracedDefault : List Token :=
  [openBrace, ";", "(", ",", ")", closeBrace, ",", ")", ";"].map fun spelling =>
    ⟨.operator spelling, default⟩

/-- Inside of the braces nothing halts it, and behind them a comma does. -/
theorem initializer_outcomes_bracedDefault : ∃ run rest,
    bracedDefault = run ++ rest ∧ HaltsBehind [",", ")"] run rest ∧ Balanced run ∧
      rest = bracedDefault.drop 6 ∧ ∃ found : RawRun, found.tokens = run ∧
        (initializer [",", ")"]).Reads ⟨default, []⟩ ⟨bracedDefault, .ofBuiltins []⟩ found
          ⟨rest, .ofBuiltins []⟩ := by
  have hrest : (initializer [",", ")"] ⟨default, []⟩ ⟨bracedDefault, .ofBuiltins []⟩).state.rest =
      bracedDefault.drop 6 := by decide +kernel
  have hok : (initializer [",", ")"] ⟨default, []⟩
      ⟨bracedDefault, .ofBuiltins []⟩).result.isOk = true := by decide +kernel
  obtain ⟨run, rest, hsplit, hhalts, -, hread, herror⟩ :=
    initializer_outcomes [",", ")"] ⟨default, []⟩ ⟨bracedDefault, .ofBuiltins []⟩
  by_cases hinitial : run ≠ [] ∧ bracketDepth run = 0 ∧ Before [",", ")"] rest
  · obtain ⟨hbalanced, found, hfound, hfoundRead⟩ := hread hinitial
    rw [hfoundRead.2] at hrest
    exact ⟨run, rest, hsplit, hhalts, hbalanced, hrest, found, hfound, hfoundRead⟩
  · rw [herror hinitial] at hok
    cases hok

end Parser

end Flattener
