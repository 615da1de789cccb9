import Flattener.Proofs.Grammar.Faults

/-!
# Trials leave no trace

A parse comes to rounds of scopes: the first one at the first token, and from
each round the next one behind an item or a statement, or the first one inside
of a namespace, whether or not that namespace is given up later
(`Visit.Step`, `Visit.Reachable`). At each of them there are at least as many
rounds left as tokens, and the type names are consistent (`Visit.Sound`), which
no step changes. Therefore a production on trial reads an item of at least one
token, or fails with an error of the source, and if it is given up then nothing
is left of it (`attempt_leaves_no_trace`).
-/

namespace Flattener.Parser

variable {α : Type} {c : Context} {s s' : State}

/-! ## Trials -/

/-- What is left of a production that is given up leads back to where it began. -/
theorem rollbackTo_of_reaches (hs : s.types.Consistent) (h : s.Reaches s') :
    ∃ gone, s'.types.rollbackTo s.types.mark = .ok (s.types, gone) := by
  obtain ⟨-, names, htypes⟩ := h
  rw [htypes]
  exact TypeNames.rollbackTo_registerAll hs names

/-- A trial ends as the production does, unless that is given up. -/
theorem attempt_cases {p : Parser α} (hp : p.Moves) (hs : s.types.Consistent) :
    (∃ a, (p c s).result = .ok a ∧ (attempt p c s).result = .ok (some a) ∧
      (attempt p c s).state = (p c s).state) ∨
    (∃ failure, (p c s).result = .error failure ∧ isRecoverable failure = true ∧
      (attempt p c s).result = .ok none ∧ (attempt p c s).state = s) ∨
    (∃ failure, (p c s).result = .error failure ∧ isRecoverable failure = false ∧
      (attempt p c s).result = .error failure ∧ (attempt p c s).state = (p c s).state) := by
  rcases hresult : (p c s).result with failure | a
  · cases hmend : isRecoverable failure with
    | true =>
      obtain ⟨events, hnone⟩ := attempt_of_recoverable hp hs hresult hmend
      exact .inr (.inl ⟨failure, rfl, hmend, by rw [hnone], by rw [hnone]⟩)
    | false =>
      have hfatal := attempt_of_fatal hresult hmend
      exact .inr (.inr ⟨failure, rfl, hmend, by rw [hfatal], by rw [hfatal]⟩)
  · have hok := attempt_of_ok hresult
    exact .inl ⟨a, rfl, by rw [hok], by rw [hok]⟩

/-- What can be mended is an unexpected token in front of the end of input. -/
theorem isRecoverable_iff {failure : Failure} : isRecoverable failure = true ↔
    ∃ found expected location line,
      failure = .invalid ⟨.unexpectedToken found expected, location, false, line⟩ := by
  constructor
  · intro h
    unfold isRecoverable at h
    split at h
    · next found expected location atEnd line =>
      cases atEnd with
      | false => exact ⟨found, expected, location, line, rfl⟩
      | true => cases h
    · cases h
  · rintro ⟨found, expected, location, line, rfl⟩
    rfl

/-- A trial reads nothing exactly if the production can be mended. -/
theorem attempt_eq_none_iff {p : Parser α} (hp : p.Moves) (hs : s.types.Consistent) :
    (attempt p c s).result = .ok none ↔ ∃ found expected location line,
      (p c s).result = .error (.invalid ⟨.unexpectedToken found expected, location, false, line⟩) := by
  rcases attempt_cases (c := c) hp hs with ⟨a, htried, hstep, -⟩ |
    ⟨failure, htried, hmend, hstep, -⟩ | ⟨failure, htried, hmend, hstep, -⟩
  · simp [htried, hstep]
  · obtain ⟨found, expected, location, line, rfl⟩ := isRecoverable_iff.1 hmend
    exact ⟨fun _ => ⟨found, expected, location, line, htried⟩, fun _ => hstep⟩
  · rw [hstep, htried]
    refine ⟨nofun, ?_⟩
    rintro ⟨found, expected, location, line, heq⟩
    cases heq
    cases hmend

/-! ## Rounds that a parse comes to -/

/-- The head of a namespace, in front of its items. -/
def namespaceHead : Parser Name := do
  let _ ← expectKeyword "namespace"
  let name ← popName "namespace name"
  let _ ← expectOperator openBrace
  return name

theorem namespaceDecl_eq (body : Parser (List Item)) : namespaceDecl body = do
    let name ← namespaceHead
    let children ← body
    let _ ← expectOperator closeBrace
    return .namespaceDecl name children := by
  simp only [namespaceDecl, namespaceHead, bind_assoc, pure_bind]

/-- A round of a scope: how many more of them there may be, whether there are
    braces around the scope, and the state. -/
structure Visit where
  left : Nat
  nested : Bool
  state : State

namespace Visit

/-- The first round of a parse. -/
def start (builtins : List String) (tokens : List Token) : Visit :=
  ⟨tokens.length, false, ⟨tokens, .ofBuiltins builtins⟩⟩

/-- The production that a round puts on trial. -/
def trial (v : Visit) (production : Production) : Parser Item :=
  produce (scopeItems v.left true) production

/-- From one round to another: behind an item, behind a statement with or without
    a production that is given up before, and into a namespace. -/
inductive Step (c : Context) : Visit → Visit → Prop
  | item {n : Nat} {nested : Bool} {s s' : State} {production : Production} {item : Item} :
    scopeEnds c nested s = false → productionAt c s = some production →
    (attempt (trial ⟨n + 1, nested, s⟩ production)).Reads c s (some item) s' →
    Step c ⟨n + 1, nested, s⟩ ⟨n, nested, s'⟩
  | abandoned {n : Nat} {nested : Bool} {s s₁ s' : State} {production : Production}
      {tokens : List Token} : scopeEnds c nested s = false → productionAt c s = some production →
    (attempt (trial ⟨n + 1, nested, s⟩ production)).Reads c s none s₁ →
    rawStatement.Reads c s₁ tokens s' → Step c ⟨n + 1, nested, s⟩ ⟨n, nested, s'⟩
  | statement {n : Nat} {nested : Bool} {s s' : State} {tokens : List Token} :
    scopeEnds c nested s = false → productionAt c s = none → rawStatement.Reads c s tokens s' →
    Step c ⟨n + 1, nested, s⟩ ⟨n, nested, s'⟩
  | inside {n : Nat} {nested : Bool} {s s' : State} {name : Name} :
    scopeEnds c nested s = false → productionAt c s = some .namespaceDecl →
    namespaceHead.Reads c s name s' → Step c ⟨n + 1, nested, s⟩ ⟨n, true, s'⟩

/-- The rounds that the parse of tokens comes to. -/
inductive Reachable (c : Context) (builtins : List String) (tokens : List Token) : Visit → Prop
  | start : Reachable c builtins tokens (.start builtins tokens)
  | step {v v' : Visit} : Reachable c builtins tokens v → v.Step c v' →
    Reachable c builtins tokens v'

/-- There are rounds for all tokens, and the type names are what they seem. -/
structure Sound (v : Visit) : Prop where
  enough : v.state.rest.length ≤ v.left
  consistent : v.state.types.Consistent

theorem sound_start (builtins : List String) (tokens : List Token) :
    (start builtins tokens).Sound :=
  ⟨Nat.le_refl _, TypeNames.consistent_ofBuiltins builtins⟩

variable {v v' : Visit} {production : Production}

theorem faultless_trial (v : Visit) (production : Production) :
    Faultless (v.left + 1) (v.trial production) :=
  faultless_produce (faultless_scopeItems _ _) production

/-- What is read on trial is an item of some tokens. -/
theorem Sound.itemRead (hv : v.Sound) {item : Item}
    (h : (v.trial production).Reads c v.state item s') : ItemRead v.state item s' :=
  (itemRead_of_produce (fun hs h => (itemsRead_of_scopeItems hs h).1) hv.consistent h).1

theorem length_lt_of_itemRead {item : Item} (h : ItemRead s item s') :
    s'.rest.length < s.rest.length := by
  obtain ⟨⟨tokens, hspelled, hrest⟩, -, -⟩ := h
  have hpos := List.length_pos_iff.2 hspelled.ne_nil
  rw [hrest, List.length_append]
  omega

theorem length_lt_of_reads_rawStatement {tokens : List Token} {nested : Bool}
    (hgoes : scopeEnds c nested s = false) (h : rawStatement.Reads c s tokens s') :
    s'.rest.length < s.rest.length := by
  have hend : (tokenAt c s.rest 0).isEnd = false := (Bool.or_eq_false_iff.1 hgoes).1
  have hpos := List.length_pos_iff.2 (ne_nil_of_reads_rawStatement hend h)
  rw [eq_behind_of_reads_rawStatement h, State.behind, List.length_append]
  omega

theorem behind_of_reads_namespaceHead {name : Name} (h : namespaceHead.Reads c s name s') :
    ∃ tokens : List Token, 0 < tokens.length ∧ s = s'.behind tokens := by
  simp only [namespaceHead, reads_bind, reads_expectKeyword, reads_popName, reads_expectOperator,
    reads_pure] at h
  obtain ⟨keyword, _, ⟨-, rfl⟩, _, _, ⟨-, rfl⟩, opening, _, ⟨-, rfl⟩, rfl, rfl⟩ := h
  exact ⟨[keyword, name.token, opening], Nat.succ_pos _, rfl⟩

/-- A round takes a token for each round that it takes. -/
theorem Sound.step (hv : v.Sound) (h : v.Step c v') : v'.Sound := by
  cases h with
  | @item n nested s s' production item hgoes hproduction hitem =>
    have hmoves := (faultless_trial ⟨n + 1, nested, s⟩ production).moves
    have hread : ItemRead s item s' :=
      hv.itemRead ((reads_attempt_some hmoves hv.consistent).1 hitem)
    have hlength := length_lt_of_itemRead hread
    have henough : s.rest.length ≤ n + 1 := hv.enough
    refine ⟨show s'.rest.length ≤ n by omega, ?_⟩
    show s'.types.Consistent
    rw [hread.types]
    exact TypeNames.consistent_registerAll hv.consistent _
  | @abandoned n nested s s₁ s' production tokens hgoes hproduction hnone htokens =>
    have hmoves := (faultless_trial ⟨n + 1, nested, s⟩ production).moves
    -- the statement begins where the production began
    cases eq_of_reads_attempt_none hmoves hv.consistent hnone
    have hlength := length_lt_of_reads_rawStatement hgoes htokens
    have henough : s.rest.length ≤ n + 1 := hv.enough
    have hmoved := (moves_rawStatement c s hv.consistent).consistent hv.consistent
    exact ⟨show s'.rest.length ≤ n by omega, htokens.2 ▸ hmoved⟩
  | @statement n nested s s' tokens hgoes hproduction htokens =>
    have hlength := length_lt_of_reads_rawStatement hgoes htokens
    have henough : s.rest.length ≤ n + 1 := hv.enough
    have hmoved := (moves_rawStatement c s hv.consistent).consistent hv.consistent
    exact ⟨show s'.rest.length ≤ n by omega, htokens.2 ▸ hmoved⟩
  | @inside n nested s s' name hgoes hproduction hhead =>
    obtain ⟨tokens, hpos, rfl⟩ := behind_of_reads_namespaceHead hhead
    have henough : tokens.length + s'.rest.length ≤ n + 1 := by
      rw [← List.length_append]
      exact hv.enough
    exact ⟨show s'.rest.length ≤ n by omega, hv.consistent⟩

theorem Reachable.sound {builtins : List String} {tokens : List Token}
    (h : v.Reachable c builtins tokens) : v.Sound := by
  induction h with
  | start => exact sound_start builtins tokens
  | step _ hstep ih => exact ih.step hstep

end Visit

/-- At every round that a parse comes to, a production on trial has one of three
    outcomes. It reads an item of at least one token, and has only added to the
    history. It is given up, which it is exactly for an unexpected token in front
    of the end of input, and the state is what it was. Or its error is passed on.
    The way back to the state before is there in any case. -/
theorem attempt_leaves_no_trace {builtins : List String} {tokens : List Token} {v : Visit}
    (hv : v.Reachable c builtins tokens) (production : Production) :
    let tried := v.trial production c v.state
    let step := attempt (v.trial production) c v.state
    ((∃ item read, tried.result = .ok item ∧ step.result = .ok (some item) ∧
        read ≠ [] ∧ v.state.rest = read ++ step.state.rest ∧
        v.state.types.history <+: step.state.types.history) ∨
      (step.result = .ok none ∧ step.state = v.state) ∨
      (∃ error, tried.result = .error (.invalid error) ∧
        step.result = .error (.invalid error) ∧ step.state = tried.state)) ∧
    (step.result = .ok none ↔ ∃ found expected location line, tried.result =
      .error (.invalid ⟨.unexpectedToken found expected, location, false, line⟩)) ∧
    ∃ gone, tried.state.types.rollbackTo v.state.types.mark = .ok (v.state.types, gone) := by
  intro tried step
  have hsound := hv.sound
  have hfaultless := Visit.faultless_trial v production
  refine ⟨?_, attempt_eq_none_iff hfaultless.moves hsound.consistent,
    rollbackTo_of_reaches hsound.consistent (hfaultless.moves c v.state hsound.consistent)⟩
  -- the cases are read, given up, and passed on, as the statement has them
  rcases attempt_cases (c := c) hfaultless.moves hsound.consistent with
    ⟨item, htried, hstep, hstate⟩ | ⟨failure, htried, hmend, hstep, hstate⟩ |
      ⟨failure, htried, hmend, hstep, hstate⟩
  · have hread : (v.trial production).Reads c v.state item tried.state := ⟨htried, rfl⟩
    obtain ⟨⟨read, hspelled, hrest⟩, -, htypes⟩ := hsound.itemRead hread
    refine .inl ⟨item, read, htried, hstep, hspelled.ne_nil, hstate ▸ hrest, ?_⟩
    rw [hstate, htypes, TypeNames.history_registerAll]
    exact List.prefix_append _ _
  · exact .inr (.inl ⟨hstep, hstate⟩)
  · obtain ⟨error, rfl⟩ := hfaultless.invalid hsound.consistent
      (Nat.lt_succ_of_le hsound.enough) htried
    exact .inr (.inr ⟨error, htried, hstep, hstate⟩)

/-- The round behind the namespace of `abandonedStruct`. -/
def abandonedVisit : Visit :=
  ⟨16, false, ⟨abandonedStruct.drop 7, (TypeNames.ofBuiltins ["int"]).register "a"⟩⟩

/-- The struct there is given up, and its name is not a type behind it. -/
theorem attempt_leaves_no_trace_abandonedVisit :
    abandonedVisit.Reachable ⟨default, []⟩ ["int"] abandonedStruct ∧
    (attempt (abandonedVisit.trial .structDecl) ⟨default, []⟩ abandonedVisit.state).result =
      .ok none ∧
    (attempt (abandonedVisit.trial .structDecl) ⟨default, []⟩ abandonedVisit.state).state =
      abandonedVisit.state := by
  have hreachable : abandonedVisit.Reachable ⟨default, []⟩ ["int"] abandonedStruct :=
    .step .start (.item rfl (show productionAt _ _ = some .namespaceDecl from rfl) ⟨rfl, rfl⟩)
  obtain ⟨⟨_, _, -, hread, -⟩ | ⟨hnone, hstate⟩ | ⟨_, -, hfail, -⟩, -, -⟩ :=
    attempt_leaves_no_trace hreachable .structDecl
  · cases hread
  · exact ⟨hreachable, hnone, hstate⟩
  · cases hfail

end Flattener.Parser
