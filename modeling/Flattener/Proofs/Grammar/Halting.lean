import Flattener.Proofs.Grammar.Scans

/-!
# Parses come to an end

A scope is a loop too, of rounds that read an item or pass through a statement, also
behind a production that was given up (`scopeRound`, `runs_scopeBody`). Its rounds put
namespaces on trial, and so the scopes inside of them. These begin at a later token than
the namespace does, and what a namespace reads depends on nothing else of them
(`produce_congr`, `behind_of_encloses`). So trials are nested no deeper than there are
tokens, and every parse comes to a tree or to an error of the source (`parse_halts`).
-/

namespace Flattener.Parser

variable {α : Type} {c : Context} {s s' : State} {n : Nat} {nested : Bool}

/-! ## Scopes -/

/-- One round of a scope, with a parser for the insides of namespaces. -/
def scopeRound (body : Parser (List Item)) (nested : Bool) (_ : Unit) :
    Parser (Turn Unit (List Item)) := do
  if ← atEnd then return .ends []
  else if nested && (← checkOperator closeBrace) then return .ends []
  else
    let item ← match ← selectProduction with
      | some production => attempt (produce body production)
      | none => pure none
    match item with
    | some item => return .goes () (item :: ·)
    | none =>
      let tokens ← rawStatement
      return .goes () (Item.consRaw tokens)

/-- A statement that is passed through in a round. -/
def statementTurn : Parser (Turn Unit (List Item)) := do
  let tokens ← rawStatement
  return .goes () (Item.consRaw tokens)

/-- What a round does that does not end the scope. -/
def itemTurn (body : Parser (List Item)) : Option Production → Parser (Turn Unit (List Item))
  | none => statementTurn
  | some production => do
    match ← attempt (produce body production) with
    | some item => return .goes () (item :: ·)
    | none => statementTurn

theorem scopeRound_apply (body : Parser (List Item)) : scopeRound body nested () c s =
    if scopeEnds c nested s then ⟨.ok (.ends []), s, []⟩
    else itemTurn body (productionAt c s) c s := by
  have hatEnd : atEnd c s = ⟨.ok (tokenAt c s.rest 0).isEnd, s, []⟩ := rfl
  rw [scopeRound, bind_of_look hatEnd, scopeEnds]
  cases (tokenAt c s.rest 0).isEnd with
  | true => rfl
  | false =>
    rw [if_neg Bool.false_ne_true, bind_of_look checkOperator_apply, Bool.false_or]
    cases nested && (tokenAt c s.rest 0).isOperator [closeBrace] with
    | true => rfl
    | false =>
      rw [if_neg Bool.false_ne_true, if_neg Bool.false_ne_true, bind_of_look selectProduction_apply]
      cases productionAt c s with
      | none => rfl
      | some production => rfl

/-- What a production reads depends on the insides of a namespace only behind its first
    token. -/
theorem produce_congr {body body' : Parser (List Item)} (production : Production)
    (h : ∀ s', s'.types = s.types → s'.rest.length < s.rest.length → body c s' = body' c s') :
    produce body production c s = produce body' production c s := by
  cases production with
  | namespaceDecl =>
    show namespaceDecl body c s = namespaceDecl body' c s
    rw [namespaceDecl_eq, namespaceDecl_eq]
    refine bind_congr_of_reads fun name s₁ hhead => ?_
    obtain ⟨tokens, hpos, rfl⟩ := Visit.behind_of_reads_namespaceHead hhead
    refine bind_congr_of_eq (h s₁ rfl ?_)
    rw [State.behind, List.length_append]
    omega
  | classDecl => rfl
  | structDecl => rfl
  | declaration => rfl

theorem attempt_congr {p q : Parser α} (h : p c s = q c s) : attempt p c s = attempt q c s := by
  simp only [attempt, h]

theorem faultless_statementTurn : Faultless n statementTurn :=
  faultless_bind faultless_rawStatement fun _ => faultless_pure _

theorem faultless_scopeBody (n : Nat) (nested : Bool) : Faultless n (scopeBody nested) :=
  faultless_budgeted fun n => faultless_scopeItems n nested

theorem faultless_itemTurn (production : Option Production) :
    Faultless (n + 1) (itemTurn (scopeBody true) production) := by
  cases production with
  | none => exact faultless_statementTurn
  | some production =>
    have hproduce := faultless_produce (faultless_scopeBody n true) production
    refine faultless_bind (faultless_attempt hproduce) fun item => ?_
    cases item with
    | some item => exact faultless_pure _
    | none => exact faultless_statementTurn

theorem moves_trial (production : Production) : (produce (scopeBody true) production).Moves :=
  (faultless_produce (faultless_scopeBody 0 true) production).moves

/-- An item has tokens. -/
theorem length_lt_of_reads_attempt {production : Production} {item : Item} (hs : s.types.Consistent)
    (h : (attempt (produce (scopeBody true) production)).Reads c s (some item) s') :
    s'.rest.length < s.rest.length := by
  have hbody {s children s'} (hs : s.types.Consistent)
      (h : (scopeBody true).Reads c s children s') : ItemsRead s children s' :=
    (itemsRead_of_scopeItems hs (reads_budgeted.1 h)).1
  have hread := (reads_attempt_some (moves_trial production) hs).1 h
  exact Visit.length_lt_of_itemRead (itemRead_of_produce hbody hs hread).1

/-- So has a statement, whether it is begun at once or behind a production that was given
    up. -/
theorem length_lt_of_reads_itemTurn {production : Option Production} {turn : Turn Unit (List Item)}
    (hs : s.types.Consistent) (hgoes : scopeEnds c nested s = false)
    (h : (itemTurn (scopeBody true) production).Reads c s turn s') :
    s'.rest.length < s.rest.length := by
  have hstatement (h : statementTurn.Reads c s turn s') : s'.rest.length < s.rest.length := by
    obtain ⟨tokens, s₁, htokens, h⟩ := reads_bind.1 h
    obtain ⟨-, rfl⟩ := reads_pure.1 h
    exact Visit.length_lt_of_reads_rawStatement hgoes htokens
  cases production with
  | none => exact hstatement h
  | some production =>
    obtain ⟨item, s₁, hitem, h⟩ := reads_bind.1 h
    cases item with
    | none =>
      -- what was given up has left the state as it was
      cases eq_of_reads_attempt_none (moves_trial production) hs hitem
      exact hstatement h
    | some item =>
      obtain ⟨-, rfl⟩ := reads_pure.1 h
      exact length_lt_of_reads_attempt hs hitem

/-- A round of a scope that goes on consumes a token. -/
theorem advances_scopeRound (nested : Bool) : Advances (scopeRound (scopeBody true) nested) := by
  have hround (n : Nat) : Faultless (n + 1) (scopeRound (scopeBody true) nested ()) := by
    refine ⟨fun c s hs => ?_, fun {c s _} hs hn h => ?_⟩
    · rw [scopeRound_apply]
      split
      · exact s.reaches_refl
      · exact (@faultless_itemTurn n _).moves c s hs
    · rw [scopeRound_apply] at h
      split at h
      · cases h
      · exact (faultless_itemTurn _).invalid hs hn h
  refine ⟨fun _ => (hround 0).moves, fun hs h => (hround _).invalid hs (Nat.lt_succ_self _) h,
    fun {_ c s s' _ _} hs h => ?_⟩
  rw [Reads, scopeRound_apply] at h
  split at h
  · cases h.1
  · next hgoes => exact length_lt_of_reads_itemTurn hs (Bool.not_eq_true _ ▸ hgoes) h

theorem statementTurn_bind (others : Unit → Parser (List Item)) :
    statementTurn >>= turn others = statementThen (others ()) := by
  rw [statementTurn, statementThen, bind_assoc]
  refine congrArg (rawStatement >>= ·) (funext fun tokens => ?_)
  rw [pure_bind, turn, map_eq_pure_bind]

/-- A round goes on in the same way as the budget has it. -/
theorem itemTurn_bind (hs : s.types.Consistent) (hgoes : scopeEnds c nested s = false)
    (production : Option Production) : round s.rest.length nested production c s =
      (itemTurn (scopeBody true) production >>= turn fun _ => scopeBody nested) c s := by
  have hbehind {s₁ : State} (hs₁ : s₁.types.Consistent) (hless : s₁.rest.length < s.rest.length) :
      scopeItems s.rest.length nested c s₁ = scopeBody nested c s₁ :=
    scopeItems_eq_scopeBody hs₁ hless
  have hstatement : statementThen (scopeItems s.rest.length nested) c s =
      (statementTurn >>= turn fun _ => scopeBody nested) c s := by
    rw [statementTurn_bind]
    refine bind_congr_of_reads fun tokens s₁ htokens => bind_congr_of_eq (hbehind ?_ ?_)
    · exact htokens.2 ▸ (moves_rawStatement c s hs).consistent hs
    · exact Visit.length_lt_of_reads_rawStatement hgoes htokens
  cases production with
  | none => exact hstatement
  | some production =>
    have htrial : attempt (produce (scopeItems s.rest.length true) production) c s =
        attempt (produce (scopeBody true) production) c s :=
      attempt_congr (produce_congr production fun s₁ htypes hless =>
        scopeItems_eq_scopeBody (htypes ▸ hs) hless)
    rw [round, itemTurn, bind_assoc, bind_congr_of_eq htrial]
    refine bind_congr_of_reads fun item s₁ hitem => ?_
    cases item with
    | none =>
      cases eq_of_reads_attempt_none (moves_trial production) hs hitem
      exact hstatement
    | some item =>
      have hmoves := moves_attempt (moves_trial production) c s hs
      rw [pure_bind, turn, map_eq_pure_bind]
      exact bind_congr_of_eq (hbehind (hitem.2 ▸ hmoves.consistent hs)
        (length_lt_of_reads_attempt hs hitem))

/-- A scope goes on with itself behind each round. -/
theorem scopeBody_unfold (hs : s.types.Consistent) : scopeBody nested c s =
    (scopeRound (scopeBody true) nested () >>= turn fun _ => scopeBody nested) c s := by
  show scopeItems (s.rest.length + 1) nested c s = _
  rw [scopeItems_succ]
  cases hends : scopeEnds c nested s with
  | true =>
    have hround : scopeRound (scopeBody true) nested () c s = ⟨.ok (.ends []), s, []⟩ := by
      rw [scopeRound_apply, if_pos hends]
    rw [bind_of_look hround]
    rfl
  | false =>
    have hround : scopeRound (scopeBody true) nested () c s =
        itemTurn (scopeBody true) (productionAt c s) c s := by
      rw [scopeRound_apply, if_neg (Bool.not_eq_true _ ▸ hends)]
    rw [if_neg Bool.false_ne_true, bind_congr_of_eq hround]
    exact itemTurn_bind hs hends (productionAt c s)

theorem runs_scopeBody (nested : Bool) :
    Runs (scopeBody nested) (scopeRound (scopeBody true) nested) () :=
  runs_of_unfold (advances_scopeRound nested) (fun _ _ _ hs _ => scopeBody_unfold hs) ()

/-! ## Trials inside of trials -/

/-- Rounds inside of braces lead from one state to another. -/
inductive Leads (c : Context) : State → State → Prop
  | here {s : State} : Leads c s s
  | behind {s s₁ s' : State} {complete : List Item → List Item} :
    (scopeRound (scopeBody true) true ()).Reads c s (.goes () complete) s₁ → Leads c s₁ s' →
    Leads c s s'

/-- While a production is on trial at the one state, one is put on trial at the other: the
    first is a namespace, and rounds inside of it come there. -/
structure Encloses (c : Context) (s s' : State) : Prop where
  outer : productionAt c s = some .namespaceDecl
  inner : scopeEnds c true s' = false ∧ (productionAt c s').isSome
  leads : ∃ name s₁, namespaceHead.Reads c s name s₁ ∧ Leads c s₁ s'

theorem Leads.reaches (h : Leads c s s') (hs : s.types.Consistent) : s.Reaches s' := by
  induction h with
  | here => exact State.reaches_refl _
  | behind hread _ ih =>
    have hround := hread.2 ▸ (advances_scopeRound true).moves () c _ hs
    exact hround.trans (ih (hround.consistent hs))

/-- The trial inside begins at a later token. -/
theorem behind_of_encloses (hs : s.types.Consistent) (h : Encloses c s s') :
    s'.types.Consistent ∧ ∃ tokens, tokens ≠ [] ∧ s.rest = tokens ++ s'.rest := by
  obtain ⟨name, s₁, hhead, hleads⟩ := h.leads
  obtain ⟨head, hpos, rfl⟩ := Visit.behind_of_reads_namespaceHead hhead
  have hreaches := hleads.reaches hs
  obtain ⟨others, hothers⟩ := hreaches.1
  refine ⟨hreaches.consistent hs, head ++ others, ?_, ?_⟩
  · exact List.append_ne_nil_of_left_ne_nil (List.length_pos_iff.1 hpos) others
  · rw [State.behind, ← hothers, List.append_assoc]

/-- Of trials inside of each other, each begins later than all around it, so that there
    are no more of them than tokens. -/
theorem pairwise_of_encloses (hs : s.types.Consistent) {inside : List State}
    (h : (s :: inside).IsChain (Encloses c)) :
    (s :: inside).Pairwise (fun outer inner =>
      ∃ tokens, tokens ≠ [] ∧ outer.rest = tokens ++ inner.rest) ∧
      inside.length ≤ s.rest.length := by
  induction inside generalizing s with
  | nil => exact ⟨List.pairwise_singleton _ _, Nat.zero_le _⟩
  | cons next inside ih =>
    obtain ⟨hencloses, hchain⟩ := List.isChain_cons_cons.1 h
    obtain ⟨hnext, tokens, hsome, hrest⟩ := behind_of_encloses hs hencloses
    obtain ⟨hpairs, hlength⟩ := ih hnext hchain
    refine ⟨List.pairwise_cons.2 ⟨fun inner hinner => ?_, hpairs⟩, ?_⟩
    · rcases List.mem_cons.1 hinner with rfl | hinner
      · exact ⟨tokens, hsome, hrest⟩
      · obtain ⟨others, -, hothers⟩ := (List.pairwise_cons.1 hpairs).1 inner hinner
        refine ⟨tokens ++ others, List.append_ne_nil_of_left_ne_nil hsome others, ?_⟩
        rw [hrest, hothers, List.append_assoc]
    · have hpos := List.length_pos_iff.2 hsome
      rw [hrest, List.length_append, List.length_cons]
      omega

/-- Parsing tokens comes to a tree or to an error of the source. Scopes, members, lists,
    stars, statements and initializers are loops of rounds each of which ends, fails or
    consumes a token. Trials are inside of each other only at later tokens, and what a
    production reads depends on what is inside of it there only, so that a round for each
    token and one more are enough for scopes in scopes. -/
theorem parse_halts :
    (∀ (builtins lines : List String) (tokens : List Token) (stop : Location),
      (∃ tree, (parse builtins lines tokens stop).result = .ok tree) ∨
        ∃ error, (parse builtins lines tokens stop).result = .error (.invalid error)) ∧
    (∀ nested, Runs (scopeBody nested) (scopeRound (scopeBody true) nested) ()) ∧
    Runs (budgeted structMembers) structRound () ∧
    (∀ access, Runs (budgeted fun n => classMembers n access) classRound access) ∧
    Runs (budgeted (commaList trait)) (commaRound trait) () ∧
    Runs (budgeted (commaList parameter)) (commaRound parameter) () ∧
    Runs stars starRound () ∧
    Runs rawStatement statementRound (0, []) ∧
    (∀ stops, Runs (initializer stops) (initializerRound stops) (0, [])) ∧
    ∀ (c : Context) (s : State), s.types.Consistent →
      (∀ inside, (s :: inside).IsChain (Encloses c) →
        (s :: inside).Pairwise (fun outer inner =>
          ∃ tokens, tokens ≠ [] ∧ outer.rest = tokens ++ inner.rest) ∧
        inside.length ≤ s.rest.length) ∧
      (∀ body body' production,
        (∀ s' : State, s'.rest.length < s.rest.length → body c s' = body' c s') →
        produce body production c s = produce body' production c s) ∧
      ∀ n nested, s.rest.length < n → scopeItems n nested c s = scopeBody nested c s := by
  refine ⟨fun builtins lines tokens stop => ?_, runs_scopeBody, runs_structMembers,
    runs_classMembers, runs_commaList faultless_trait shrinks_trait,
    runs_commaList faultless_parameter shrinks_parameter, runs_stars, runs_rawStatement,
    runs_initializer, fun c s hs => ⟨fun inside h => pairwise_of_encloses hs h, ?_, ?_⟩⟩
  · rcases hresult : (parse builtins lines tokens stop).result with failure | tree
    · obtain ⟨error, rfl⟩ := invalid_of_parse hresult
      exact .inr ⟨error, rfl⟩
    · exact .inl ⟨tree, rfl⟩
  · exact fun body body' production h => produce_congr production fun s' _ hless => h s' hless
  · exact fun n nested hn => scopeItems_eq_scopeBody hs hn

/-- The struct in the namespace of `abandonedStruct` is put on trial inside of it, and the
    struct behind it is read as a statement. -/
theorem parse_halts_abandonedStruct :
    (∃ tree, (parse ["int"] [] abandonedStruct default).result = .ok tree) ∧
    Encloses ⟨default, []⟩ ⟨abandonedStruct, .ofBuiltins ["int"]⟩
      ⟨abandonedStruct.drop 3, .ofBuiltins ["int"]⟩ ∧
    1 ≤ abandonedStruct.length ∧
    rawStatement ⟨default, []⟩ ⟨abandonedStruct.drop 7, .ofBuiltins ["int"]⟩ =
      loop statementRound 11 (0, []) ⟨default, []⟩ ⟨abandonedStruct.drop 7, .ofBuiltins ["int"]⟩ ∧
    scopeItems 18 false ⟨default, []⟩ ⟨abandonedStruct, .ofBuiltins ["int"]⟩ =
      scopeBody false ⟨default, []⟩ ⟨abandonedStruct, .ofBuiltins ["int"]⟩ := by
  have hs := TypeNames.consistent_ofBuiltins ["int"]
  have hencloses : Encloses ⟨default, []⟩ ⟨abandonedStruct, .ofBuiltins ["int"]⟩
      ⟨abandonedStruct.drop 3, .ofBuiltins ["int"]⟩ :=
    ⟨rfl, ⟨rfl, rfl⟩, _, _, ⟨rfl, rfl⟩, .here⟩
  obtain ⟨hhalts, -, -, -, -, -, -, hstatement, -, hstates⟩ := parse_halts
  obtain ⟨hinside, -, henough⟩ :=
    hstates ⟨default, []⟩ ⟨abandonedStruct, .ofBuiltins ["int"]⟩ hs
  obtain ⟨-, hlength⟩ := hinside [_] (List.isChain_cons_cons.2 ⟨hencloses, .singleton _⟩)
  refine ⟨?_, hencloses, hlength, hstatement.eq_loop hs ?_ ?_, henough 18 false ?_⟩
  · rcases hhalts ["int"] [] abandonedStruct default with htree | ⟨error, herror⟩
    · exact htree
    · have hok : (parse ["int"] [] abandonedStruct default).result.isOk = true := by decide +kernel
      rw [herror] at hok
      cases hok
  · show ∀ t ∈ abandonedStruct.drop 7, t.isEnd = false
    decide
  · decide
  · decide

end Flattener.Parser
