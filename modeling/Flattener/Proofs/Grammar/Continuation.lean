import Flattener.Proofs.Grammar.Rejection
import Flattener.Proofs.Grammar.Settling

/-!
# What breaks off can go on

An error at the end of input means that something is missing there, and never
that something is wrong before: some tokens can follow so that all of them are a
program (`continuation_of_atEnd`). They are a literal, brackets, a semicolon and
the braces that close the namespaces around.

A scope that has run out of tokens can end in such a way (`CanEnd`). This goes by
induction on its rounds (`canEnd_of_scopeItems`): an item or a statement in front
of others stays what it is with more tokens behind, and the last one is read or
passed through with the way out of it. A namespace that breaks off inside goes by
its own items.
-/

namespace Flattener

namespace Parser

variable {α β : Type} {c : Context} {s s₁ : State} {n m : Nat} {nested : Bool}

/-! ## Running out of tokens -/

/-- The step has come to the end of input: it fails there, or leaves nothing. -/
def RunsOut (step : Step α) : Prop :=
  FailsAtEnd step.result ∨ ∃ a, step.result = .ok a ∧ step.state.rest = []

theorem runsOut_bind {p : Parser α} {f : α → Parser β} (h : RunsOut ((p >>= f) c s)) :
    FailsAtEnd (p c s).result ∨ ∃ a s₁, p.Reads c s a s₁ ∧ RunsOut (f a c s₁) := by
  rcases h with hfails | ⟨b, hresult, hnil⟩
  · rcases failsAtEnd_bind hfails with hfirst | ⟨a, s₁, hread, hsecond⟩
    · exact .inl hfirst
    · exact .inr ⟨a, s₁, hread, .inl hsecond⟩
  · obtain ⟨a, s₁, hread, hsecond, hstate⟩ := reads_bind.1 ⟨hresult, rfl⟩
    exact .inr ⟨a, s₁, hread, .inr ⟨b, hsecond, hstate ▸ hnil⟩⟩

theorem runsOut_bind_pure {p : Parser α} {f : α → β}
    (h : RunsOut ((p >>= fun a => pure (f a)) c s)) : RunsOut (p c s) := by
  rcases runsOut_bind h with hfails | ⟨a, s₁, ⟨hresult, rfl⟩, hfails | ⟨_, _, hnil⟩⟩
  · exact .inl hfails
  · exact absurd hfails not_failsAtEnd_pure
  · exact .inr ⟨a, hresult, hnil⟩

theorem rest_eq_nil_of_runsOut_pure {a : α} (h : RunsOut ((pure a : Parser α) c s)) :
    s.rest = [] := by
  rcases h with hfails | ⟨_, -, hnil⟩
  · exact absurd hfails not_failsAtEnd_pure
  · exact hnil

theorem rest_eq_nil_of_runsOut_unexpected {expected : String} (hs : Endless s.rest)
    (h : RunsOut (unexpected expected c s : Step α)) : s.rest = [] := by
  rcases h with hfails | ⟨_, -, hnil⟩
  · exact rest_eq_nil_of_unexpected hs hfails
  · exact hnil

/-- A statement that runs out of tokens takes all of them. -/
theorem statementSpan_eq_of_runsOut (hs : Endless s.rest) (h : RunsOut (rawStatement c s)) :
    statementSpan 0 s.rest = s.rest := by
  have hdrop : Endless (s.rest.drop (statementSpan 0 s.rest).length) := fun t ht =>
    hs t (List.mem_of_mem_drop ht)
  have hbehind : s.rest.drop (statementSpan 0 s.rest).length = [] := by
    rw [show rawStatement = spanThen (statementSpan 0) (fun _ tokens => do
      if ← atEnd then
        if 0 < finalDepth tokens then unexpected "closing bracket" else return tokens
      else if tokens.isEmpty then unexpected "declaration or statement"
      else return tokens) from rfl, spanThen_apply, atEnd_bind, bind_of_look peek_apply] at h
    split at h
    · next hend => exact rest_eq_nil_of_isEnd hdrop hend
    · split at h
      · exact rest_eq_nil_of_runsOut_unexpected hdrop h
      · exact rest_eq_nil_of_runsOut_pure h
  have hfront : statementSpan 0 s.rest <+: s.rest := statementSpan_prefix 0 s.rest
  exact eq_of_drop_eq_nil hfront hbehind

/-! ## The end of a scope -/

/-- A scope is over in front of these tokens. -/
def EndsScope (nested : Bool) (tokens : List Token) : Prop :=
  tokens = [] ∨ nested = true ∧ ∃ t rest, tokens = t :: rest ∧ t.isOperator [closeBrace] = true

theorem scopeEnds_of_endsScope {rest : List Token} (h : EndsScope nested rest) (c : Context)
    (types : TypeNames) : scopeEnds c nested ⟨rest, types⟩ = true := by
  rcases h with rfl | ⟨rfl, t, rest, rfl, ht⟩
  · rfl
  · rw [scopeEnds, Bool.or_eq_true]
    exact .inr ht

theorem reads_scopeItems_of_endsScope {rest : List Token} (h : EndsScope nested rest) (n : Nat)
    (c : Context) (types : TypeNames) :
    (scopeItems (n + 1) nested).Reads c ⟨rest, types⟩ [] ⟨rest, types⟩ := by
  rw [Reads, scopeItems_succ, if_pos (scopeEnds_of_endsScope h c types)]
  exact ⟨rfl, rfl⟩

theorem Reads.of_approximates {p q : Parser α} {a : α} (h : p.Reads c s a s₁)
    (hpq : p.Approximates q) : q.Reads c s a s₁ := by
  rwa [Reads, hpq c s (by rw [h.1]; rintro ⟨⟩)]

theorem reads_scopeItems_of_le {items : List Item} (hle : n ≤ m)
    (h : (scopeItems n nested).Reads c s items s₁) : (scopeItems m nested).Reads c s items s₁ :=
  h.of_approximates (approximates_of_le (fun n => approximates_scopeItems n nested) hle)

/-- Some tokens, of which the first is a literal, can follow so that the scope ends
    behind them. -/
def CanEnd (nested : Bool) (s : State) : Prop :=
  ∃ more, Endless (filler :: more) ∧ ∀ c rest, EndsScope nested rest → ∃ n items types,
    (scopeItems n nested).Reads c (s.followed (filler :: more ++ rest)) items ⟨rest, types⟩

/-- Nothing begins with a literal, so it has no part in the choice of a production. -/
theorem productionAt_followed_filler (c c' : Context) (s : State) (more : List Token) :
    productionAt c' (s.followed (filler :: more)) = productionAt c s := by
  have hdeclaration : declarationAt c' (s.followed (filler :: more)) = declarationAt c s := by
    obtain ⟨rest, types⟩ := s
    match rest with
    | [] => rfl
    | [t] =>
      rw [declarationAt, declarationAt]
      cases t.name? <;> rfl
    | t :: next :: rest => rfl
  have hkeyword (names : List String) :
      (tokenAt c' (s.followed (filler :: more)).rest 0).isKeyword names =
        (tokenAt c s.rest 0).isKeyword names := by
    obtain ⟨rest, types⟩ := s
    cases rest with
    | nil => rfl
    | cons t rest => rfl
  simp only [productionAt, hdeclaration, hkeyword]

theorem rest_ne_nil_of_goes (h : scopeEnds c nested s = false) : s.rest ≠ [] := fun hnil => by
  rw [scopeEnds, hnil] at h
  cases h

/-- Whether a scope ends is seen from one token. -/
theorem scopeEnds_followed (hsome : s.rest ≠ []) (c c' : Context) (more : List Token) :
    scopeEnds c' nested (s.followed more) = scopeEnds c nested s := by
  obtain ⟨rest, types⟩ := s
  cases rest with
  | nil => exact absurd rfl hsome
  | cons t rest => rfl

/-! ## Statements with a way out -/

/-- What gives up reads nothing on trial. -/
theorem reads_attempt_none {p : Parser α} (hmoves : Moves p) (hs : s.types.Consistent)
    (h : GivesUp (p c s).result) : (attempt p).Reads c s none s := by
  obtain ⟨failure, hfailure, hmend⟩ := h
  obtain ⟨events, hnone⟩ := attempt_of_recoverable hmoves hs hfailure hmend
  rw [Reads, hnone]
  exact ⟨rfl, rfl⟩

/-- A production that is given up has a statement in its place. -/
theorem reads_scopeItems_of_statement {items : List Item} {tokens : List Token} {s' : State}
    (hs : s.types.Consistent) (hgoes : scopeEnds c nested s = false)
    (hgives : ∀ production, productionAt c s = some production →
      GivesUp (produce (scopeItems n true) production c s).result)
    (hraw : rawStatement.Reads c s tokens s₁) (hrest : (scopeItems n nested).Reads c s₁ items s') :
    (scopeItems (n + 1) nested).Reads c s (Item.consRaw tokens items) s' := by
  refine (reads_scopeItems_succ hs).2 (.inr (.inr ⟨hgoes, fun production hproduction => ?_,
    tokens, items, s₁, hraw, hrest, rfl⟩))
  exact reads_attempt_none (moves_produce (moves_scopeItems n true) production) hs
    (hgives production hproduction)

/-- The way out is a statement by itself. -/
theorem reads_scopeItems_wayOut {types : TypeNames} (hs : types.Consistent) {rest : List Token}
    (hrest : EndsScope nested rest) (n : Nat) (c : Context) :
    ∃ items, (scopeItems (n + 2) nested).Reads c ⟨wayOut 0 ++ rest, types⟩ items ⟨rest, types⟩ := by
  have hgoes : scopeEnds c nested ⟨wayOut 0 ++ rest, types⟩ = false := by
    cases nested <;> rfl
  have hnone : productionAt c ⟨wayOut 0 ++ rest, types⟩ = none := rfl
  exact ⟨_, reads_scopeItems_of_statement hs hgoes
    (fun production hproduction => by rw [hnone] at hproduction; cases hproduction)
    (reads_rawStatement_wayOut (show openDepth 0 [] = some 0 from rfl) rest)
    (reads_scopeItems_of_endsScope hrest n c types)⟩

/-- In front of a literal, a round goes as it does at the end of input. -/
theorem reads_round_of_item {production : Production} {item : Item} {items : List Item}
    {more : List Token} {c' : Context} {s' : State} (hs : s.types.Consistent)
    (hgoes : scopeEnds c nested s = false) (hproduction : productionAt c s = some production)
    (hread : (produce (scopeItems n true) production).Reads c' (s.followed (filler :: more)) item s₁)
    (hrest : (scopeItems n nested).Reads c' s₁ items s') :
    (scopeItems (n + 1) nested).Reads c' (s.followed (filler :: more)) (item :: items) s' := by
  refine (reads_scopeItems_succ (s := s.followed _) hs).2
    (.inr (.inl ⟨?_, production, item, items, s₁, ?_, hread, hrest, rfl⟩))
  · exact (scopeEnds_followed (rest_ne_nil_of_goes hgoes) c c' _).trans hgoes
  · exact (productionAt_followed_filler c c' s more).trans hproduction

theorem reads_round_of_statement {tokens : List Token} {items : List Item} {more : List Token}
    {c' : Context} {s' : State} (hs : s.types.Consistent) (hgoes : scopeEnds c nested s = false)
    (hgives : ∀ production, productionAt c s = some production →
      GivesUp (produce (scopeItems n true) production c' (s.followed (filler :: more))).result)
    (hraw : rawStatement.Reads c' (s.followed (filler :: more)) tokens s₁)
    (hrest : (scopeItems n nested).Reads c' s₁ items s') :
    (scopeItems (n + 1) nested).Reads c' (s.followed (filler :: more))
      (Item.consRaw tokens items) s' := by
  refine reads_scopeItems_of_statement (s := s.followed _) hs ?_ (fun production hproduction => ?_)
    hraw hrest
  · exact (scopeEnds_followed (rest_ne_nil_of_goes hgoes) c c' _).trans hgoes
  · exact hgives production ((productionAt_followed_filler c c' s more).symm.trans hproduction)

/-- Tokens of statements up to the end of input, where no production reads them, are
    passed through with the way out of what they leave open. -/
theorem canEnd_of_leaves {depth : Nat} (hs : s.types.Consistent)
    (hgoes : scopeEnds c nested s = false) (hleaves : Leaves s.rest depth)
    (hgives : ∀ production, productionAt c s = some production → ∀ c' more m, n ≤ m →
      GivesUp (produce (scopeItems m true) production c'
        (s.followed (wayOut depth ++ more))).result) : CanEnd nested s := by
  refine ⟨List.replicate depth closingBracket ++ [semicolon], fun t ht => isEnd_of_mem_wayOut ht,
    fun c' rest hrest => ?_⟩
  have hgives' (m : Nat) (hle : n ≤ m) (production : Production)
      (hproduction : productionAt c s = some production) :=
    hgives production hproduction c' rest m hle
  -- an open statement takes in the way out; behind a whole one, the way out
  -- is another statement
  cases hleaves with
  | opened hopen =>
    exact ⟨n + 2, _, s.types, reads_round_of_statement hs hgoes (hgives' (n + 1) (by omega))
      (reads_rawStatement_wayOut hopen rest) (reads_scopeItems_of_endsScope hrest n c' s.types)⟩
  | whole hsome hspan =>
    obtain ⟨items, hitems⟩ := reads_scopeItems_wayOut hs hrest n c'
    exact ⟨n + 3, _, s.types, reads_round_of_statement hs hgoes (hgives' (n + 2) (by omega))
      (reads_rawStatement_of_span (hspan _) hsome nofun) hitems⟩

/-! ## Scopes -/

theorem GivesUp.of_approximates {p q : Parser α} (h : GivesUp (p c s).result)
    (hpq : p.Approximates q) : GivesUp (q c s).result := by
  obtain ⟨failure, hfailure, hmend⟩ := h
  rw [hpq c s (by rw [hfailure]; rintro ⟨⟩; cases hmend)]
  exact ⟨failure, hfailure, hmend⟩

theorem approximates_produce_of_le (hle : n ≤ m) (production : Production) :
    (produce (scopeItems n true) production).Approximates (produce (scopeItems m true) production) :=
  approximates_produce (approximates_of_le (fun n => approximates_scopeItems n true) hle) production

/-- What is given up is given up with more tokens behind. -/
theorem GivesUp.followed {p : Parser α} (hp : Stable never p) (hs : Proper s)
    (h : GivesUp (p c s).result) (c' : Context) (more : List Token) :
    GivesUp (p c' (s.followed more)).result := by
  obtain ⟨failure, hfailure, hmend⟩ := h
  cases hp.extended c c' more hs with
  | read hread => cases hread.symm.trans hfailure
  | @refused e hrefused _ hsame =>
    cases hrefused.symm.trans hfailure
    exact ⟨_, hsame, (isRecoverable_shownIn c'.lines e).trans hmend⟩
  | spoiled hspoiled hvoid =>
    cases hspoiled.symm.trans hfailure
    rw [not_isRecoverable_of_voidAtEnd hvoid] at hmend
    cases hmend
  | halted hhalted =>
    cases hhalted with
    | ended hended =>
      cases hended.symm.trans hfailure
      cases hmend
    | loose _ ha => exact ha.elim
    | spent hspent =>
      cases hspent.symm.trans hfailure
      cases hmend

/-- A production that is given up is given up with more tokens behind and more
    rounds. -/
theorem givesUp_produce_followed {production : Production} (hs : Proper s)
    (h : GivesUp (produce (scopeItems n true) production c s).result) (hle : n ≤ m) (c' : Context)
    (more : List Token) :
    GivesUp (produce (scopeItems m true) production c' (s.followed more)).result :=
  (h.followed (stable_produce (stable_scopeItems n true) production) hs c' more).of_approximates
    (approximates_produce_of_le hle production)

/-- What is read is read with more tokens behind, unless it is loose. -/
theorem Reads.followed {p : Parser α} {L : α → Prop} {a : α} (hp : Stable L p) (hs : Proper s)
    (h : p.Reads c s a s₁) (hloose : L a → s₁.rest ≠ []) (c' : Context) (more : List Token) :
    p.Reads c' (s.followed more) a (s₁.followed more) := by
  obtain ⟨hresult, rfl⟩ := h
  cases hp.extended c c' more hs with
  | read hread hsame hstate =>
    cases hread.symm.trans hresult
    exact ⟨hsame, hstate⟩
  | refused hrefused => cases hrefused.symm.trans hresult
  | spoiled hspoiled => cases hspoiled.symm.trans hresult
  | halted hhalted =>
    cases hhalted with
    | ended hended => cases hended.symm.trans hresult
    | loose hread ha hnil =>
      cases hread.symm.trans hresult
      exact absurd hnil (hloose ha)
    | spent hspent => cases hspent.symm.trans hresult

/-- An item stays in front of more tokens. -/
theorem canEnd_of_item {production : Production} {item : Item} (hs : Proper s)
    (hgoes : scopeEnds c nested s = false) (hproduction : productionAt c s = some production)
    (hread : (produce (scopeItems n true) production).Reads c s item s₁)
    (h : CanEnd nested s₁) : CanEnd nested s := by
  obtain ⟨more, hends, hmore⟩ := h
  refine ⟨more, hends, fun c' rest hrest => ?_⟩
  obtain ⟨m, items, types, hitems⟩ := hmore c' rest hrest
  -- the rounds of the item and those of the items behind are brought together
  have hbehind := (hread.followed (stable_produce (stable_scopeItems n true) production) hs
    False.elim c' (filler :: more ++ rest)).of_approximates
      (approximates_produce_of_le (Nat.le_max_left n m) production)
  exact ⟨max n m + 1, item :: items, types, reads_round_of_item hs.consistent hgoes hproduction
    hbehind (reads_scopeItems_of_le (Nat.le_max_right n m) hitems)⟩

/-- A statement that does not take everything stays in front of more tokens. -/
theorem canEnd_of_statement {tokens : List Token} (hs : Proper s)
    (hgoes : scopeEnds c nested s = false)
    (hgives : ∀ production, productionAt c s = some production →
      GivesUp (produce (scopeItems n true) production c s).result)
    (hraw : rawStatement.Reads c s tokens s₁) (hsome : s₁.rest ≠ []) (h : CanEnd nested s₁) :
    CanEnd nested s := by
  obtain ⟨more, hends, hmore⟩ := h
  refine ⟨more, hends, fun c' rest hrest => ?_⟩
  obtain ⟨m, items, types, hitems⟩ := hmore c' rest hrest
  exact ⟨max n m + 1, _, types, reads_round_of_statement hs.consistent hgoes
    (fun production hproduction =>
      givesUp_produce_followed hs (hgives production hproduction) (Nat.le_max_left n m) c' _)
    (hraw.followed stable_rawStatement hs (fun _ => hsome) c' (filler :: more ++ rest))
    (reads_scopeItems_of_le (Nat.le_max_right n m) hitems)⟩

theorem canEnd_of_statementThen (hs : Proper s) (hgoes : scopeEnds c nested s = false)
    (hgives : ∀ production, productionAt c s = some production →
      GivesUp (produce (scopeItems n true) production c s).result)
    (h : RunsOut (statementThen (scopeItems n nested) c s))
    (ih : ∀ {s}, Proper s → RunsOut (scopeItems n nested c s) → CanEnd nested s) :
    CanEnd nested s := by
  have hsome := rest_ne_nil_of_goes hgoes
  -- the statement takes all tokens, or there is a rest that the others run out of
  have hall (hraw : RunsOut (rawStatement c s)) : CanEnd nested s := by
    obtain ⟨depth, hleaves⟩ := leaves_of_statementSpan (statementSpan_eq_of_runsOut hs.noEnd hraw) hsome
    exact canEnd_of_leaves hs.consistent hgoes hleaves fun production hproduction c' more m hle =>
      givesUp_produce_followed hs (hgives production hproduction) hle c' _
  rcases runsOut_bind h with hfails | ⟨tokens, s₁, hraw, hrest⟩
  · exact hall (.inl hfails)
  by_cases hnil : s₁.rest = []
  · exact hall (.inr ⟨tokens, hraw.1, hraw.2 ▸ hnil⟩)
  · have hs₁ : Proper s₁ := hraw.2 ▸ hs.reaches (stable_rawStatement.moves c s hs.consistent)
    exact canEnd_of_statement hs hgoes hgives hraw hnil (ih hs₁ (runsOut_bind_pure hrest))

/-- A production that settles does so in its scope. -/
theorem canEnd_of_settlesAt {production : Production} {p : Parser Item} (hs : Proper s)
    (hgoes : scopeEnds c nested s = false) (hproduction : productionAt c s = some production)
    (hp : ∀ body, produce body production = p) (h : SettlesAt p s) : CanEnd nested s := by
  obtain ⟨depth, ⟨hleaves, hgives⟩ | hreads⟩ := h
  · refine canEnd_of_leaves (n := 0) hs.consistent hgoes hleaves
      fun production' hproduction' c' more m _ => ?_
    cases hproduction.symm.trans hproduction'
    rw [hp]
    exact hgives c' more
  · refine ⟨List.replicate depth closingBracket ++ [semicolon], fun t ht => isEnd_of_mem_wayOut ht,
      fun c' rest hrest => ?_⟩
    obtain ⟨item, types, hread⟩ := hreads c' rest
    exact ⟨2, [item], types, reads_round_of_item hs.consistent hgoes hproduction
      ((hp _).symm ▸ hread) (reads_scopeItems_of_endsScope hrest 0 c' types)⟩

/-- If the inside of a namespace can end, then so can what is around it. -/
theorem canEnd_of_inside {name : Name} (hs : Proper s) (hgoes : scopeEnds c nested s = false)
    (hproduction : productionAt c s = some .namespaceDecl)
    (hhead : namespaceHead.Reads c s name s₁) (h : CanEnd true s₁) : CanEnd nested s := by
  obtain ⟨more, hends, hmore⟩ := h
  refine ⟨more ++ [closingBrace], ?_, fun c' rest hrest => ?_⟩
  · intro t ht
    rw [← List.cons_append, List.mem_append, List.mem_singleton] at ht
    obtain ht | rfl := ht
    · exact hends t ht
    · rfl
  obtain ⟨-, -, -, hkeeps⟩ := counts_namespaceHead.keeps hs.noEnd hhead
  obtain ⟨m, items, types, hitems⟩ := hmore c' (closingBrace :: rest) (.inr ⟨rfl, _, _, rfl, rfl⟩)
  -- the brace goes behind what ends the inside
  have htokens : filler :: (more ++ [closingBrace]) ++ rest =
      filler :: more ++ closingBrace :: rest := by simp
  rw [htokens]
  have hread : (produce (scopeItems m true) .namespaceDecl).Reads c'
      (s.followed (filler :: more ++ closingBrace :: rest)) (.namespaceDecl name items)
      ⟨rest, types⟩ := by
    rw [produce, namespaceDecl_eq]
    exact reads_bind.2 ⟨name, _, hkeeps c' _, reads_bind.2 ⟨items, _, hitems, reads_bind.2
      ⟨closingBrace, _, reads_expectOperator.2 ⟨rfl, rfl⟩, reads_pure.2 ⟨rfl, rfl⟩⟩⟩⟩
  exact ⟨m + 2, [.namespaceDecl name items], types, reads_round_of_item hs.consistent hgoes hproduction
    (hread.of_approximates (approximates_produce_of_le (Nat.le_add_right m 1) .namespaceDecl))
    (reads_scopeItems_of_endsScope hrest m c' types)⟩

/-- What fails on trial at the end of input is the production itself. -/
theorem failsAtEnd_of_attempt {p : Parser α} (hp : p.Moves) (hs : s.types.Consistent)
    (h : FailsAtEnd (attempt p c s).result) : FailsAtEnd (p c s).result := by
  obtain ⟨e, he, hend⟩ := h
  rcases attempt_cases (c := c) hp hs with ⟨a, -, hstep, -⟩ | ⟨failure, -, -, hstep, -⟩ |
    ⟨failure, htried, -, hstep, -⟩
  · cases hstep.symm.trans he
  · cases hstep.symm.trans he
  · cases hstep.symm.trans he
    exact ⟨e, htried, hend⟩

/-- Where a production fails at the end of input, the scope can end. For a namespace,
    either its head breaks off, or its inside has run out of tokens. -/
theorem canEnd_of_produce {production : Production} (hs : Proper s)
    (hgoes : scopeEnds c nested s = false) (hproduction : productionAt c s = some production)
    (h : FailsAtEnd (produce (scopeItems n true) production c s).result)
    (ih : ∀ {s}, Proper s → RunsOut (scopeItems n true c s) → CanEnd true s) : CanEnd nested s := by
  cases production with
  | classDecl =>
    exact canEnd_of_settlesAt hs hgoes hproduction (fun _ => rfl)
      (settles_map _ settles_classDecl c s hs.noEnd h)
  | structDecl =>
    exact canEnd_of_settlesAt hs hgoes hproduction (fun _ => rfl)
      (settles_map _ settles_structDecl c s hs.noEnd h)
  | declaration =>
    exact canEnd_of_settlesAt hs hgoes hproduction (fun _ => rfl)
      (settles_scopeDeclaration c s hs.noEnd h)
  | namespaceDecl =>
    rw [produce, namespaceDecl_eq] at h
    rcases failsAtEnd_bind h with hhead | ⟨name, s₁, hhead, hbody⟩
    · obtain ⟨depth, hopen, hgives⟩ := counts_namespaceHead.escapes c s hs.noEnd hhead
      -- a head that breaks off is passed through as a statement
      refine canEnd_of_leaves (n := n) hs.consistent hgoes (.opened hopen)
        fun production hproduction' c' more m _ => ?_
      cases hproduction.symm.trans hproduction'
      rw [produce, namespaceDecl_eq]
      exact (hgives c' more).bind _
    · have hs₁ : Proper s₁ := hhead.2 ▸ hs.reaches (moves_namespaceHead c s hs.consistent)
      refine canEnd_of_inside hs hgoes hproduction hhead (ih hs₁ ?_)
      rcases failsAtEnd_bind hbody with hinside | ⟨children, s₂, hinside, hclose⟩
      · exact .inl hinside
      · have hs₂ : Proper s₂ :=
          hinside.2 ▸ hs₁.reaches (moves_scopeItems n true c s₁ hs₁.consistent)
        refine .inr ⟨children, hinside.1, ?_⟩
        rcases failsAtEnd_bind hclose with hbrace | ⟨_, _, -, hpure⟩
        · rw [hinside.2]
          exact rest_eq_nil_of_demand (blind_operator _) hs₂.noEnd (expectOperator_eq closeBrace ▸ hbrace)
        · exact absurd hpure not_failsAtEnd_pure

/-- A scope that runs out of tokens can end, as its rounds one after another show. -/
theorem canEnd_of_scopeItems (hs : Proper s) (h : RunsOut (scopeItems n nested c s)) :
    CanEnd nested s := by
  induction n generalizing nested s with
  | zero =>
    obtain ⟨_, he, -⟩ | ⟨_, he, -⟩ := h
    · cases he
    · cases he
  | succ n ih =>
    rw [scopeItems_succ] at h
    cases hends : scopeEnds c nested s with
    | true =>
      rw [hends] at h
      have hnil : s.rest = [] := rest_eq_nil_of_runsOut_pure (c := c) (a := ([] : List Item)) h
      -- nothing is left, and the way out of nothing is a statement
      refine ⟨[semicolon], fun t ht => isEnd_of_mem_wayOut (show t ∈ wayOut 0 from ht), fun c' rest hrest => ?_⟩
      obtain ⟨items, hitems⟩ := reads_scopeItems_wayOut hs.consistent hrest 0 c'
      refine ⟨2, items, s.types, ?_⟩
      rw [State.followed, hnil]
      exact hitems
    | false =>
      rw [hends, if_neg Bool.false_ne_true] at h
      cases hproduction : productionAt c s with
      | none =>
        rw [hproduction] at h
        exact canEnd_of_statementThen hs hends (by rw [hproduction]; rintro _ ⟨⟩) h ih
      | some production =>
        rw [hproduction] at h
        have hmoves := moves_produce (moves_scopeItems n true) production
        rcases runsOut_bind h with hfails | ⟨_ | item, s₁, htried, hrest⟩
        · exact canEnd_of_produce hs hends hproduction
            (failsAtEnd_of_attempt hmoves hs.consistent hfails) ih
        -- given up, it is given up also with more tokens behind
        · cases eq_of_reads_attempt_none hmoves hs.consistent htried
          refine canEnd_of_statementThen hs hends (fun production' hproduction' => ?_) hrest ih
          cases hproduction.symm.trans hproduction'
          obtain ⟨found, expected, location, line, hfailure⟩ :=
            (attempt_eq_none_iff hmoves hs.consistent).1 htried.1
          exact ⟨_, hfailure, rfl⟩
        · have hread := (reads_attempt_some hmoves hs.consistent).1 htried
          have hs₁ : Proper s₁ := hread.2 ▸ hs.reaches (hmoves c s hs.consistent)
          exact canEnd_of_item hs hends hproduction hread (ih hs₁ (runsOut_bind_pure hrest))

/-- There are always rounds enough for what some rounds read. -/
theorem reads_scopeBody_of_scopeItems {items : List Item} (hs : s.types.Consistent)
    (h : (scopeItems n nested).Reads c s items s₁) : (scopeBody nested).Reads c s items s₁ := by
  have hmore := reads_scopeItems_of_le (Nat.le_max_left n (s.rest.length + 1)) h
  rwa [Reads, scopeItems_eq_scopeBody hs (Nat.le_max_right _ _)] at hmore

end Parser

/-! ## Whole programs -/

section

variable {builtins lines : List String} {tokens : List Token} {stop : Location}

/-- What is refused for its end is the beginning of a program. -/
theorem continuation_of_atEnd {e : SyntaxError} (hend : ∀ t ∈ tokens, t.isEnd = false)
    (h : (parse builtins lines tokens stop).result = .error (.invalid e)) (hatEnd : e.atEnd = true) :
    ∃ more : List Token, (∀ t ∈ more, t.isEnd = false) ∧ ∀ lines' stop', ∃ tree,
      (parse builtins lines' (tokens ++ more) stop').result = .ok tree := by
  have hconsistent := TypeNames.consistent_ofBuiltins builtins
  have hcan : Parser.CanEnd false ⟨tokens, .ofBuiltins builtins⟩ :=
    Parser.canEnd_of_scopeItems ⟨hend, hconsistent⟩ (.inl ⟨e, parse_eq_error_iff.1 h, hatEnd⟩)
  obtain ⟨more, hmore, hreads⟩ := hcan
  refine ⟨filler :: more, hmore, fun lines' stop' => ?_⟩
  obtain ⟨n, items, types, hitems⟩ := hreads ⟨stop', lines'⟩ [] (.inl rfl)
  rw [List.append_nil] at hitems
  have hbody := Parser.reads_scopeBody_of_scopeItems
    (s := State.followed ⟨tokens, .ofBuiltins builtins⟩ (filler :: more)) hconsistent hitems
  rw [parse, Parser.result_scope hconsistent]
  exact ⟨_, congrArg (Except.map _) hbody.1⟩

/-- The beginning of an array, behind which no integer is a size:

        int a [ - -/
def negativeSize : List Token :=
  [Lexeme.identifier "int", .identifier "a", .operator "[", .operator "-"].map (Token.mk · default)

/-- It is passed through as a statement with the brackets closed. -/
theorem continuation_of_atEnd_negativeSize :
    ∃ e, (parse ["int"] [] negativeSize default).result = .error (.invalid e) ∧ e.atEnd = true ∧
      ∃ more : List Token, (∀ t ∈ more, t.isEnd = false) ∧ ∀ lines' stop', ∃ tree,
        (parse ["int"] lines' (negativeSize ++ more) stop').result = .ok tree :=
  have hfails : ∃ e, (parse ["int"] [] negativeSize default).result = .error (.invalid e) ∧
      e.atEnd = true := ⟨_, rfl, rfl⟩
  let ⟨e, he, hatEnd⟩ := hfails
  ⟨e, he, hatEnd, continuation_of_atEnd (by decide) he hatEnd⟩

end

end Flattener
