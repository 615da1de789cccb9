import Flattener.Proofs.Grammar.Stability
import Flattener.Proofs.Grammar.WayOut

/-!
# Breaking off at the end of input

What a parser reads changes how many brackets are open (`Counts`), and it reads
the same with a literal behind it. Where it fails at the end of input, the way
out of what is open can follow, and then it fails at the literal or behind it,
with an error that lets another production try (`Escapes`).
-/

namespace Flattener.Parser

variable {α β : Type} {c : Context} {s s₁ : State} {before : Nat}

/-! ## The end of input -/

/-- The result is an error at the end of input. -/
def FailsAtEnd (result : Except Failure α) : Prop :=
  ∃ e, result = .error (.invalid e) ∧ e.atEnd = true

/-- The result is an error that can be mended. -/
def GivesUp (result : Except Failure α) : Prop :=
  ∃ failure, result = .error failure ∧ isRecoverable failure = true

theorem failsAtEnd_bind {p : Parser α} {f : α → Parser β}
    (h : FailsAtEnd ((p >>= f) c s).result) :
    FailsAtEnd (p c s).result ∨ ∃ a s₁, p.Reads c s a s₁ ∧ FailsAtEnd (f a c s₁).result := by
  rcases hresult : (p c s).result with failure | a
  · rw [bind_of_error hresult] at h
    obtain ⟨e, he, hend⟩ := h
    cases he
    exact .inl ⟨e, rfl, hend⟩
  · rw [bind_of_ok hresult] at h
    exact .inr ⟨a, _, ⟨hresult, rfl⟩, h⟩

theorem GivesUp.bind {p : Parser α} (h : GivesUp (p c s).result) (f : α → Parser β) :
    GivesUp ((p >>= f) c s).result := by
  obtain ⟨failure, hfailure, hmend⟩ := h
  rw [bind_of_error hfailure]
  exact ⟨failure, rfl, hmend⟩

theorem GivesUp.behind {p : Parser α} {f : α → Parser β} {a : α} (hread : p.Reads c s a s₁)
    (h : GivesUp (f a c s₁).result) : GivesUp ((p >>= f) c s).result := by
  obtain ⟨hresult, rfl⟩ := hread
  rw [bind_of_ok hresult]
  exact h

/-- In front of more tokens, an unexpected one does not end the parse. -/
theorem givesUp_unexpected {expected : String} (h : (tokenAt c s.rest 0).isEnd = false) :
    GivesUp (unexpected expected c s : Step α).result :=
  ⟨.invalid (errorAt c _ _), rfl, congrArg not h⟩

theorem rest_eq_nil_of_isEnd (hs : Endless s.rest) (h : (tokenAt c s.rest 0).isEnd = true) :
    s.rest = [] := by
  obtain ⟨rest, types⟩ := s
  cases rest with
  | nil => rfl
  | cons t rest => cases (hs t List.mem_cons_self).symm.trans h

/-- What is unexpected at the end of input is the end of input. -/
theorem rest_eq_nil_of_unexpected {expected : String} (hs : Endless s.rest)
    (h : FailsAtEnd (unexpected expected c s : Step α).result) : s.rest = [] := by
  obtain ⟨e, he, hend⟩ := h
  cases he
  exact rest_eq_nil_of_isEnd hs hend

/-! ## Reading and failing -/

/-- If the parser fails at the end of input, with so many brackets open before it,
    then it is given up with the way out behind the tokens. -/
def Escapes (before : Nat) (p : Parser α) : Prop :=
  ∀ (c : Context) (s : State), Endless s.rest → FailsAtEnd (p c s).result →
    ∃ depth, openDepth before s.rest = some depth ∧
      ∀ c' more, GivesUp (p c' (s.followed (wayOut depth ++ more))).result

/-- What the parser reads leaves so many brackets open, and it reads the same with
    a literal behind it. -/
structure Counts (before : Nat) (after : α → Nat) (p : Parser α) : Prop where
  keeps : ∀ {c : Context} {s : State} {a : α} {s' : State}, Endless s.rest → p.Reads c s a s' →
    ∃ read, s.rest = read ++ s'.rest ∧ openDepth before read = some (after a) ∧
      ∀ c' more, p.Reads c' (s.followed (filler :: more)) a (s'.followed (filler :: more))
  escapes : Escapes before p

/-- What the parser reads leaves open what was open before. -/
abbrev Balances (depth : Nat) (p : Parser α) : Prop :=
  Counts depth (fun _ => depth) p

/-! ## Combinations -/

theorem not_failsAtEnd_pure {a : α} : ¬FailsAtEnd ((pure a : Parser α) c s).result := by
  rintro ⟨_, he, -⟩
  cases he

theorem escapes_pure (a : α) : Escapes before (pure a) := fun _ _ _ h =>
  absurd h not_failsAtEnd_pure

theorem counts_pure {after : α → Nat} {a : α} (h : after a = before) :
    Counts before after (pure a) where
  keeps := by
    rintro c s _ _ - ⟨⟨⟩, rfl⟩
    exact ⟨[], rfl, by rw [h]; rfl, fun _ _ => ⟨rfl, rfl⟩⟩
  escapes := escapes_pure a

/-- An error at a token of the list is not at the end of input. -/
theorem escapes_failAt {t : Token} (ht : t.isEnd = false) (cause : Cause) :
    Escapes before (failAt t cause : Parser α) := fun _ _ _ ⟨_, he, hend⟩ => by
  cases he
  cases ht.symm.trans hend

theorem counts_failAt {after : α → Nat} {t : Token} (ht : t.isEnd = false) (cause : Cause) :
    Counts before after (failAt t cause) where
  keeps := fun _ h => absurd h not_reads_failAt
  escapes := escapes_failAt ht cause

theorem escapes_bind {p : Parser α} {f : α → Parser β} {after : α → Nat}
    (hp : Counts before after p)
    (hf : ∀ {c s a s'}, p.Reads c s a s' → Escapes (after a) (f a)) :
    Escapes before (p >>= f) := by
  intro c s hs hfails
  rcases failsAtEnd_bind hfails with hfirst | ⟨a, s₁, hread, hsecond⟩
  · obtain ⟨depth, hdepth, hgives⟩ := hp.escapes c s hs hfirst
    exact ⟨depth, hdepth, fun c' more => (hgives c' more).bind f⟩
  · obtain ⟨read, hrest, hopen, hkeeps⟩ := hp.keeps hs hread
    obtain ⟨depth, hdepth, hgives⟩ := hf hread c s₁ (hrest ▸ hs).of_append hsecond
    refine ⟨depth, ?_, fun c' more => ?_⟩
    · rw [hrest, openDepth_append, hopen]
      exact hdepth
    · exact (hgives c' more).behind (hkeeps c' _)

theorem counts_bind {p : Parser α} {f : α → Parser β} {middle : α → Nat} {after : β → Nat}
    (hp : Counts before middle p)
    (hf : ∀ {c s a s'}, p.Reads c s a s' → Counts (middle a) after (f a)) :
    Counts before after (p >>= f) where
  keeps := by
    intro c s b s' hs hread
    obtain ⟨a, s₁, hfirst, hsecond⟩ := reads_bind.1 hread
    obtain ⟨first, hrest, hopen, hkeeps⟩ := hp.keeps hs hfirst
    obtain ⟨second, hrest', hopen', hkeeps'⟩ := (hf hfirst).keeps (hrest ▸ hs).of_append hsecond
    refine ⟨first ++ second, ?_, ?_, fun c' more => ?_⟩
    · rw [hrest, hrest', List.append_assoc]
    · rw [openDepth_append, hopen]
      exact hopen'
    · exact reads_bind.2 ⟨a, _, hkeeps c' more, hkeeps' c' more⟩
  escapes := escapes_bind hp fun hread => (hf hread).escapes

theorem counts_map {p : Parser α} {f : α → β} {after : β → Nat}
    (hp : Counts before (fun a => after (f a)) p) : Counts before after (f <$> p) := by
  rw [← bind_pure_comp]
  exact counts_bind hp fun _ => counts_pure rfl

/-- What is made of the value does not matter. -/
theorem escapes_bind_pure {p : Parser α} {f : α → Parser β} (hp : Escapes before p)
    (hf : ∀ a, ∃ b, f a = pure b) : Escapes before (p >>= f) := by
  intro c s hs hfails
  rcases failsAtEnd_bind hfails with hfirst | ⟨a, s₁, -, hsecond⟩
  · obtain ⟨depth, hdepth, hgives⟩ := hp c s hs hfirst
    exact ⟨depth, hdepth, fun c' more => (hgives c' more).bind f⟩
  · obtain ⟨b, hpure⟩ := hf a
    rw [hpure] at hsecond
    exact absurd hsecond not_failsAtEnd_pure

theorem escapes_ite {b : Prop} [Decidable b] {p q : Parser α} (hp : Escapes before p)
    (hq : Escapes before q) : Escapes before (if b then p else q) := by
  split
  · exact hp
  · exact hq

theorem counts_ite {b : Prop} [Decidable b] {p q : Parser α} {after : α → Nat}
    (hp : b → Counts before after p) (hq : ¬b → Counts before after q) :
    Counts before after (if b then p else q) := by
  split
  · next h => exact hp h
  · next h => exact hq h

/-- Rounds that have run out are no end of input. -/
theorem counts_exhausted {after : α → Nat} :
    Counts before after (fail (.misuse .exhausted) : Parser α) :=
  ⟨fun _ h => absurd h not_reads_fail, fun _ _ _ ⟨_, he, _⟩ => nomatch he⟩

/-! ## One token -/

/-- What is seen at the end of input is seen in front of a literal. -/
theorem counts_look {p : Parser α} {f : Context → State → α}
    (hlook : ∀ c s, p c s = ⟨.ok (f c s), s, []⟩)
    (hsame : ∀ c c' s more, f c' (s.followed (filler :: more)) = f c s) :
    Balances before p where
  keeps := by
    rintro c s a s' - ⟨hresult, hstate⟩
    rw [hlook] at hresult hstate
    cases hresult
    cases hstate
    refine ⟨[], rfl, rfl, fun c' more => ?_⟩
    rw [Reads, hlook, hsame c]
    exact ⟨rfl, rfl⟩
  escapes := by
    rintro c s - ⟨_, he, -⟩
    rw [hlook] at he
    cases he

theorem isOperator_tokenAt_followed (spellings : List String) (c c' : Context) (s : State)
    (more : List Token) : (tokenAt c' (s.followed (filler :: more)).rest 0).isOperator spellings =
      (tokenAt c s.rest 0).isOperator spellings := by
  obtain ⟨rest, types⟩ := s
  cases rest with
  | nil => rfl
  | cons t rest => rfl

theorem counts_checkOperator (spelling : String) : Balances before (checkOperator spelling) :=
  counts_look (fun _ _ => checkOperator_apply) fun c c' s more =>
    isOperator_tokenAt_followed [spelling] c c' s more

theorem counts_isType (name : String) : Balances before (isType name) :=
  counts_look (f := fun _ s => s.types.isType name) (fun _ _ => rfl) fun _ _ _ _ => rfl

/-- The view makes nothing of a literal either. -/
theorem view_tokenAt_followed {view : Token → Option α} (hview : Blind view)
    (hfiller : view filler = none) (c c' : Context) (s : State) (more : List Token) :
    view (tokenAt c' (s.followed (filler :: more)).rest 0) = view (tokenAt c s.rest 0) := by
  obtain ⟨rest, types⟩ := s
  cases rest with
  | nil => exact hfiller.trans (hview c.stop).symm
  | cons t rest => rfl

theorem rest_of_view {view : Token → Option α} (hview : Blind view) {a : α}
    (h : view (tokenAt c s.rest 0) = some a) : ∃ t, s.rest = t :: s.rest.tail ∧ view t = some a := by
  obtain ⟨rest, types⟩ := s
  cases rest with
  | nil => cases (hview c.stop).symm.trans h
  | cons t rest => exact ⟨t, rfl, h⟩

/-- A demand fails at the end of input if nothing is left. -/
theorem rest_eq_nil_of_demand {view : Token → Option α} {expected : String} (hview : Blind view)
    (hs : Endless s.rest) (h : FailsAtEnd (demand view expected c s).result) : s.rest = [] := by
  obtain ⟨e, he, hend⟩ := h
  cases ht : view (tokenAt c s.rest 0) with
  | none =>
    rw [demand_of_none ht] at he
    cases he
    exact rest_eq_nil_of_isEnd hs hend
  | some a =>
    rw [demand_of_some hview ht] at he
    cases he

theorem escapes_demand {view : Token → Option α} (hview : Blind view)
    (hfiller : view filler = none) (expected : String) : Escapes before (demand view expected) := by
  intro c s hs hfails
  have hrest := rest_eq_nil_of_demand hview hs hfails
  refine ⟨before, by rw [hrest]; rfl, fun c' more => ?_⟩
  have hleft : view (tokenAt c' (s.followed (wayOut before ++ more)).rest 0) = none := by
    rw [State.followed, hrest]
    exact hfiller
  rw [demand_of_none hleft, State.followed, hrest]
  exact ⟨_, rfl, rfl⟩

theorem counts_demand {view : Token → Option α} {left : Nat} (hview : Blind view)
    (hfiller : view filler = none)
    (hopen : ∀ {t a}, view t = some a → openDepth before [t] = some left) (expected : String) :
    Counts before (fun _ => left) (demand view expected) where
  keeps := by
    rintro c s a s' - ⟨hresult, rfl⟩
    cases ht : view (tokenAt c s.rest 0) with
    | none =>
      rw [demand_of_none ht] at hresult
      cases hresult
    | some b =>
      rw [demand_of_some hview ht] at hresult ⊢
      cases hresult
      obtain ⟨t, hrest, hsome⟩ := rest_of_view hview ht
      refine ⟨[t], hrest, hopen hsome, fun c' more => ?_⟩
      rw [Reads, demand_of_some hview ((view_tokenAt_followed hview hfiller c c' s more).trans ht)]
      exact ⟨rfl, by rw [State.followed, hrest]; rfl⟩
  escapes := escapes_demand hview hfiller expected

theorem not_failsAtEnd_accept {view : Token → Option α} (hview : Blind view) :
    ¬FailsAtEnd (accept view c s).result := by
  rintro ⟨e, he, -⟩
  cases ht : view (tokenAt c s.rest 0) with
  | none =>
    rw [accept_of_none ht] at he
    cases he
  | some a =>
    rw [accept_of_some hview ht] at he
    cases he

theorem counts_accept {view : Token → Option α} {left : Nat} (hview : Blind view)
    (hfiller : view filler = none)
    (hopen : ∀ {t a}, view t = some a → openDepth before [t] = some left) :
    Counts before (fun found => if found.isSome then left else before) (accept view) where
  keeps := by
    rintro c s found s' - ⟨hresult, rfl⟩
    cases ht : view (tokenAt c s.rest 0) with
    | none =>
      rw [accept_of_none ht] at hresult ⊢
      cases hresult
      refine ⟨[], rfl, rfl, fun c' more => ?_⟩
      rw [Reads, accept_of_none ((view_tokenAt_followed hview hfiller c c' s more).trans ht)]
      exact ⟨rfl, rfl⟩
    | some b =>
      rw [accept_of_some hview ht] at hresult ⊢
      cases hresult
      obtain ⟨t, hrest, hsome⟩ := rest_of_view hview ht
      refine ⟨[t], hrest, hopen hsome, fun c' more => ?_⟩
      rw [Reads, accept_of_some hview ((view_tokenAt_followed hview hfiller c c' s more).trans ht)]
      exact ⟨rfl, by rw [State.followed, hrest]; rfl⟩
  escapes := fun _ _ _ h => absurd h (not_failsAtEnd_accept hview)

/-- The next token, or a literal in place of the end of input, is what a parser
    goes on with, also with a literal behind. -/
theorem peek_bind_followed {g : Token → Parser β} (hend : ∀ stop, g (.ending stop) = g filler)
    (c : Context) (hs : Endless s.rest) : ∃ t, t.isEnd = false ∧ (peek >>= g) c s = g t c s ∧
      ∀ c' more, (peek >>= g) c' (s.followed (filler :: more)) =
        g t c' (s.followed (filler :: more)) := by
  obtain ⟨rest, types⟩ := s
  cases rest with
  | nil =>
    have hsame : (peek >>= g) c ⟨[], types⟩ = g (.ending c.stop) c ⟨[], types⟩ := rfl
    exact ⟨filler, rfl, by rw [hsame, hend], fun _ _ => rfl⟩
  | cons t rest => exact ⟨t, hs t List.mem_cons_self, rfl, fun _ _ => rfl⟩

theorem escapes_peek_bind {g : Token → Parser β} (hg : ∀ t, t.isEnd = false → Escapes before (g t))
    (hend : ∀ stop, g (.ending stop) = g filler) : Escapes before (peek >>= g) := by
  intro c s hs hfails
  obtain ⟨t, ht, hsame, hbehind⟩ := peek_bind_followed hend c hs
  rw [hsame] at hfails
  obtain ⟨depth, hdepth, hgives⟩ := hg t ht c s hs hfails
  refine ⟨depth, hdepth, fun c' more => ?_⟩
  have hsame' : (peek >>= g) c' (s.followed (wayOut depth ++ more)) =
    g t c' (s.followed (wayOut depth ++ more)) := hbehind c' _
  rw [hsame']
  exact hgives c' more

theorem counts_peek_bind {g : Token → Parser β} {after : β → Nat}
    (hg : ∀ t, t.isEnd = false → Counts before after (g t))
    (hend : ∀ stop, g (.ending stop) = g filler) : Counts before after (peek >>= g) where
  keeps := by
    intro c s b s' hs hread
    obtain ⟨t, ht, hsame, hbehind⟩ := peek_bind_followed hend c hs
    rw [Reads, hsame] at hread
    obtain ⟨read, hrest, hopen, hkeeps⟩ := (hg t ht).keeps hs hread
    exact ⟨read, hrest, hopen, fun c' more => by rw [Reads, hbehind]; exact hkeeps c' more⟩
  escapes := escapes_peek_bind (fun t ht => (hg t ht).escapes) hend

/-! ## Runs of tokens -/

/-- A run of stars ends in front of a literal. -/
theorem takeWhile_append_filler (tokens more : List Token) :
    (tokens ++ filler :: more).takeWhile (·.isOperator ["*"]) =
      tokens.takeWhile (·.isOperator ["*"]) := by
  rw [List.takeWhile_append]
  split
  · next hall =>
    rw [(List.takeWhile_prefix _).eq_of_length hall]
    exact List.append_nil tokens
  · rfl

theorem counts_stars : Balances before stars where
  keeps := by
    rintro c ⟨tokens, types⟩ n s' - ⟨hresult, rfl⟩
    cases hresult
    -- stars are no brackets, and a literal is no star
    have hrun : tokens.takeWhile (·.isOperator ["*"]) <+: tokens := List.takeWhile_prefix _
    have hplain (t : Token) (ht : t ∈ tokens.takeWhile (·.isOperator ["*"])) :
        openDepth before [t] = some before := by
      have hstar : t.isOperator ["*"] = true :=
        List.mem_takeWhile_imp (p := fun t : Token => t.isOperator ["*"]) ht
      exact openDepth_of_plain_operator hstar (by decide) before
    refine ⟨tokens.takeWhile (·.isOperator ["*"]), (List.prefix_iff_eq_append.1 hrun).symm,
      openDepth_of_forall hplain, fun c' more => ?_⟩
    have hsame := takeWhile_append_filler tokens more
    refine ⟨congrArg (fun run : List Token => (.ok run.length : Except Failure Nat)) hsame, ?_⟩
    show State.mk ((tokens ++ filler :: more).drop
      ((tokens ++ filler :: more).takeWhile (·.isOperator ["*"])).length) types = _
    rw [hsame, List.drop_append_of_le_length hrun.length_le]
    rfl
  escapes := by
    rintro c s - ⟨_, he, -⟩
    cases he

/-- An initializer fails at the token behind its span. -/
theorem initializer_apply {stops : List String} : initializer stops c s =
    match s.rest.take (initializerSpan stops 0 s.rest).length with
    | first :: others =>
      if (tokenAt c (s.rest.drop (initializerSpan stops 0 s.rest).length) 0).isOperator stops then
        ⟨.ok ⟨first, others⟩, ⟨s.rest.drop (initializerSpan stops 0 s.rest).length, s.types⟩, []⟩
      else unexpected "initializer expression" c
        ⟨s.rest.drop (initializerSpan stops 0 s.rest).length, s.types⟩
    | [] => unexpected "initializer expression" c
        ⟨s.rest.drop (initializerSpan stops 0 s.rest).length, s.types⟩ := by
  show spanThen (initializerSpan stops 0) _ c s = _
  rw [spanThen_apply]
  cases s.rest.take (initializerSpan stops 0 s.rest).length with
  | nil => rfl
  | cons first others =>
    dsimp only
    rw [bind_of_look peek_apply]
    split
    · rfl
    · rfl

theorem givesUp_initializer {stops : List String} {run rest : List Token} {t : Token}
    (types : TypeNames) (hspan : initializerSpan stops 0 (run ++ t :: rest) = run)
    (ht : t.isOperator stops = false) (hend : t.isEnd = false) :
    GivesUp (initializer stops c ⟨run ++ t :: rest, types⟩).result := by
  have hbehind : tokenAt c ((run ++ t :: rest).drop run.length) 0 = t := by
    rw [List.drop_left' rfl]
    rfl
  have hinside : (tokenAt c ((run ++ t :: rest).drop run.length) 0).isEnd = false := by
    rw [hbehind, hend]
  rw [initializer_apply, hspan, hbehind, ht]
  split
  · exact givesUp_unexpected hinside
  · exact givesUp_unexpected hinside

/-- A beginning with nothing behind it is everything. -/
theorem eq_of_drop_eq_nil {front tokens : List Token} (hfront : front <+: tokens)
    (h : tokens.drop front.length = []) : front = tokens := by
  have hall := List.prefix_iff_eq_append.1 hfront
  rwa [h, List.append_nil] at hall

theorem span_eq_of_failsAtEnd {stops : List String} (hs : Endless s.rest)
    (h : FailsAtEnd (initializer stops c s).result) : initializerSpan stops 0 s.rest = s.rest := by
  have hbehind : s.rest.drop (initializerSpan stops 0 s.rest).length = [] := by
    have hdrop : Endless (s.rest.drop (initializerSpan stops 0 s.rest).length) := fun t ht =>
      hs t (List.mem_of_mem_drop ht)
    rw [initializer_apply] at h
    split at h
    · split at h
      · obtain ⟨_, he, -⟩ := h
        cases he
      · exact rest_eq_nil_of_unexpected hdrop h
    · exact rest_eq_nil_of_unexpected hdrop h
  have hfront : initializerSpan stops 0 s.rest <+: s.rest := initializerSpan_prefix 0 s.rest
  exact eq_of_drop_eq_nil hfront hbehind

/-- Inside of other brackets, the way out of an initializer does not come to one
    of its stops. -/
theorem counts_initializer {stops : List String} (hstops : closingBracket.isOperator stops = false)
    (depth : Nat) : Balances (depth + 1) (initializer stops) where
  keeps := by
    intro c s run s' hs hread
    obtain ⟨henclosed, rfl, hstop⟩ := reads_initializer.1 hread
    have hopen : openDepth (depth + 1 + 0) run.tokens = some (depth + 1) :=
      openDepth_of_enclosed (show Enclosed stops (0 : Nat) run.tokens from henclosed)
        (Nat.succ_pos depth)
    refine ⟨run.tokens, rfl, hopen,
      fun c' more => reads_initializer.2 ⟨henclosed, ?_, ?_⟩⟩
    · exact congrArg (State.mk · s'.types) (List.append_assoc _ _ _)
    · obtain ⟨rest, types⟩ := s'
      cases rest with
      | nil => cases hstop
      | cons t rest => exact hstop
  escapes := by
    intro c s hs hfails
    have hall := span_eq_of_failsAtEnd hs hfails
    have hopen := openDepth_of_initializerSpan hall (Nat.succ_pos depth)
    refine ⟨_, hopen, fun c' more => ?_⟩
    -- it stops at the first bracket that was open before it, which is no stop
    let inside := s.rest.foldl nesting 0
    have hspan := initializerSpan_append_wayOut hall
      (closingBracket :: (List.replicate depth closingBracket ++ semicolon :: more))
      (fun t ht => by cases ht; rw [Token.isOperator_append, hstops]; rfl)
    have hgives := givesUp_initializer (c := c') s.types hspan hstops rfl
    rwa [List.append_assoc, ← List.cons_append, ← List.replicate_succ, ← wayOut_add] at hgives

theorem counts_budgeted {p : Nat → Parser α} {after : α → Nat}
    (hp : ∀ n, Counts before after (p n)) (hmore : ∀ n, (p n).Approximates (p (n + 1))) :
    Counts before after (budgeted p) := by
  constructor
  · intro c s a s' hs hread
    obtain ⟨read, hrest, hopen, hkeeps⟩ := (hp _).keeps hs hread
    refine ⟨read, hrest, hopen, fun c' more => ?_⟩
    have hbehind := hkeeps c' more
    -- what reads something has not run out of rounds
    rw [Reads, budgeted_followed hmore (by rw [hbehind.1]; rintro ⟨⟩)]
    exact hbehind
  · intro c s hs hfails
    obtain ⟨depth, hdepth, hgives⟩ := (hp _).escapes c s hs hfails
    refine ⟨depth, hdepth, fun c' more => ?_⟩
    obtain ⟨failure, hfailure, hmend⟩ := hgives c' more
    rw [budgeted_followed hmore (by rw [hfailure]; rintro ⟨⟩; cases hmend)]
    exact ⟨failure, hfailure, hmend⟩

/-! ## Names and operators -/

theorem counts_popName (expected : String) : Balances before (popName expected) :=
  popName_eq expected ▸ counts_demand blind_name rfl (fun h => by
    obtain ⟨rfl, -⟩ := Token.name?_eq_some.1 h
    exact openDepth_of_identifier rfl _) _

theorem counts_popInteger (expected : String) :
    Balances before (popInteger expected) :=
  popInteger_eq expected ▸ counts_demand blind_integer rfl (fun {t _} h => by
    unfold integerView at h
    split at h
    · next hlexeme =>
      have hinside : t.isEnd = false := by
        rw [Token.isEnd, Token.kind, hlexeme]
        rfl
      exact openDepth_of_plain hinside (by rw [Token.isOperator, hlexeme]) _
    · cases h) _

theorem openDepth_of_keywordView {name : String} {t u : Token} (h : keywordView name t = some u)
    (depth : Nat) : openDepth depth [t] = some depth := by
  unfold keywordView at h
  split at h
  · next hkeyword => exact openDepth_of_identifier (Token.isKeyword_singleton.1 hkeyword).1 depth
  · cases h

theorem counts_expectKeyword (name : String) :
    Balances before (expectKeyword name) :=
  expectKeyword_eq name ▸ counts_demand (blind_keyword _) rfl
    (fun h => openDepth_of_keywordView h _) _

theorem counts_matchKeyword (name : String) :
    Balances before (matchKeyword name) := by
  have haccept : Counts before (fun found => if found.isSome then before else before)
      (accept (keywordView name)) :=
    counts_accept (blind_keyword _) rfl fun h => openDepth_of_keywordView h _
  rw [matchKeyword_eq]
  simpa only [ite_self] using haccept

section

variable {spelling : String} {left : Nat}

theorem isOperator_of_operatorView {t u : Token} (h : operatorView spelling t = some u) :
    t.isOperator [spelling] = true := by
  unfold operatorView at h
  split at h
  · next hspelling => exact hspelling
  · cases h

/-- What an operator does to the brackets is what counts. -/
theorem counts_expectOperator
    (h : ∀ {t : Token}, t.isOperator [spelling] = true → openDepth before [t] = some left) :
    Counts before (fun _ => left) (expectOperator spelling) :=
  expectOperator_eq spelling ▸ counts_demand (blind_operator _) rfl
    (fun hview => h (isOperator_of_operatorView hview)) _

theorem escapes_expectOperator : Escapes before (expectOperator spelling) :=
  expectOperator_eq spelling ▸ escapes_demand (blind_operator _) rfl _

theorem counts_matchOperator
    (h : ∀ {t : Token}, t.isOperator [spelling] = true → openDepth before [t] = some left) :
    Counts before (fun found => if found.isSome then left else before) (matchOperator spelling) :=
  matchOperator_eq spelling ▸ counts_accept (blind_operator _) rfl
    fun hview => h (isOperator_of_operatorView hview)

/-- An operator that is neither a bracket nor a semicolon changes nothing. -/
theorem counts_matchOperator_of_plain (h : spelling ∉ ";" :: (openers ++ closers)) :
    Balances before (matchOperator spelling) := by
  have hmatch : Counts before (fun found => if found.isSome then before else before)
      (matchOperator spelling) :=
    counts_matchOperator fun hspelling => openDepth_of_plain_operator hspelling h before
  simpa only [ite_self] using hmatch

theorem counts_ifMatched {p q : Parser α} {after : α → Nat}
    (h : ∀ {t : Token}, t.isOperator [spelling] = true → openDepth before [t] = some left)
    (hp : Counts left after p) (hq : Counts before after q) :
    Counts before after (matchOperator spelling >>= fun found => if found.isSome then p else q) := by
  refine counts_bind (counts_matchOperator h) fun {_ _ found _} _ => ?_
  cases found with
  | none => exact hq
  | some t => exact hp

end

end Flattener.Parser
