import Flattener.Proofs.Grammar.Faults

/-!
# More tokens behind

What a parser makes of tokens is compared with what it makes of the same tokens
with more of them behind (`Extended`). It may read the same, and then it leaves
the further tokens to others; or fail with the same error; or it has met the end
of input, where it fails or, if nothing has to follow, succeeds (`Halted`).

There is one exception. A sole `void` in parentheses stands for no parameters,
and what a `void` behind an opening parenthesis is can only be told from the token
behind it. If `void` is no built-in type, a list of tokens that ends there is
refused for the type, and a longer one may be read (`VoidAtEnd`).
-/

namespace Flattener

/-- The state with more tokens behind those that are left. -/
def State.followed (s : State) (more : List Token) : State :=
  ⟨s.rest ++ more, s.types⟩

/-- The error as it is shown in a text of other lines. -/
def SyntaxError.shownIn (lines : List String) (e : SyntaxError) : SyntaxError :=
  { e with sourceLine := e.location.bind fun place => Parser.sourceLine lines place.line }

/-- The error is the refusal of a `void` as the last token, directly behind the
    parenthesis that opens a list of parameters, where it is no built-in type. -/
structure VoidAtEnd (builtins : List String) (tokens : List Token) (e : SyntaxError) : Prop where
  notBuiltin : "void" ∉ builtins
  cause : e.cause = .unknownType "void"
  inside : e.atEnd = false
  last : ∃ front opening t, tokens = front ++ [opening, t] ∧ opening.isOperator ["("] = true ∧
    t.lexeme = .identifier "void" ∧ e.location = some t.location

/-- What a parse drops is in front of the last token. -/
theorem VoidAtEnd.of_reaches {s s' : State} {e : SyntaxError} (h : s.Reaches s')
    (he : VoidAtEnd s'.types.builtins s'.rest e) : VoidAtEnd s.types.builtins s.rest e := by
  obtain ⟨⟨dropped, hrest⟩, names, htypes⟩ := h
  obtain ⟨hbuiltin, hcause, hinside, front, opening, t, hlast, hvoid⟩ := he
  rw [htypes, TypeNames.builtins_registerAll] at hbuiltin
  refine ⟨hbuiltin, hcause, hinside, dropped ++ front, opening, t, ?_, hvoid⟩
  rw [← hrest, hlast, List.append_assoc]

namespace Parser

variable {α β : Type} {c c' : Context} {s s' : State} {more : List Token}

/-! ## What becomes of a step -/

/-- The error at the end of input. -/
def endError (c : Context) (expected : String) : SyntaxError :=
  errorAt c (.ending c.stop) (.unexpectedToken "end of input" (some expected))

/-- The end of input was met: there was an error, or a success of a certain kind
    that leaves nothing. -/
inductive Halted (L : α → Prop) (c : Context) (step : Step α) : Prop
  | ended {expected : String} : step.result = .error (.invalid (endError c expected)) →
    Halted L c step
  | loose {a : α} : step.result = .ok a → L a → step.state.rest = [] → Halted L c step
  | spent : step.result = .error (.misuse .exhausted) → Halted L c step

/-- A step, and what becomes of it with more tokens behind. -/
inductive Extended (L : α → Prop) (c c' : Context) (more : List Token) (s : State)
    (step step' : Step α) : Prop
  | read {a : α} : step.result = .ok a → step'.result = .ok a →
    step'.state = step.state.followed more → Extended L c c' more s step step'
  | refused {e : SyntaxError} : step.result = .error (.invalid e) → e.atEnd = false →
    step'.result = .error (.invalid (e.shownIn c'.lines)) → Extended L c c' more s step step'
  | spoiled {e : SyntaxError} : step.result = .error (.invalid e) →
    VoidAtEnd s.types.builtins s.rest e → Extended L c c' more s step step'
  | halted : Halted L c step → Extended L c c' more s step step'

/-- None of the tokens that are left is the end of input. -/
structure Proper (s : State) : Prop where
  noEnd : ∀ t ∈ s.rest, t.isEnd = false
  consistent : s.types.Consistent

theorem Proper.reaches (hs : Proper s) (h : s.Reaches s') : Proper s' :=
  ⟨fun t ht => hs.noEnd t (h.1.subset ht), h.consistent hs.consistent⟩

/-- With more tokens behind, the parser reads the same, or fails with the same
    error, unless it has met the end of input. -/
structure Stable (L : α → Prop) (p : Parser α) : Prop where
  moves : p.Moves
  extended : ∀ (c c' : Context) (more : List Token) {s : State}, Proper s →
    Extended L c c' more s (p c s) (p c' (s.followed more))

/-- Where the input has ended, the parser fails or succeeds with such a value. -/
def Halts (L : α → Prop) (p : Parser α) : Prop :=
  ∀ {c : Context} {s : State}, s.rest = [] → Halted L c (p c s)

/-- Nothing is read where the input has ended. -/
def never (_ : α) : Prop := False

/-- Anything may be read in front of the end of input. -/
def always (_ : α) : Prop := True

/-! ## Combinations -/

variable {L : α → Prop} {L' : β → Prop}

/-- Only the result and the state count. -/
theorem Halted.congr {step step₁ : Step α} (h : Halted L c step)
    (hresult : step₁.result = step.result) (hstate : step₁.state = step.state) :
    Halted L c step₁ := by
  cases h with
  | ended h => exact .ended (hresult.trans h)
  | loose h ha hrest => exact .loose (hresult.trans h) ha (hstate ▸ hrest)
  | spent h => exact .spent (hresult.trans h)

theorem Halted.weaken {L₁ : α → Prop} {step : Step α} (h : Halted L c step)
    (hweak : ∀ a, L a → L₁ a) : Halted L₁ c step := by
  cases h with
  | ended h => exact .ended h
  | loose h ha hrest => exact .loose h (hweak _ ha) hrest
  | spent h => exact .spent h

/-- What becomes of the rest of a run becomes of the run. -/
theorem Extended.of_reaches {step step' : Step α} (h : Extended L c c' more s' step step')
    (hreaches : s.Reaches s') : Extended L c c' more s step step' := by
  cases h with
  | read h h' hbehind => exact .read h h' hbehind
  | refused h hinside h' => exact .refused h hinside h'
  | spoiled h hvoid => exact .spoiled h (hvoid.of_reaches hreaches)
  | halted hhalted => exact .halted hhalted

/-- A stable parser on the rest of a run, seen from in front of it. -/
theorem Stable.extended_of_reaches {p : Parser α} (hp : Stable L p) (c c' : Context)
    (more : List Token) (hs : Proper s) (hreaches : s.Reaches s') :
    Extended L c c' more s (p c s') (p c' (s'.followed more)) :=
  (hp.extended c c' more (hs.reaches hreaches)).of_reaches hreaches

/-- Only the results and the states count. -/
theorem Extended.congr {step step' step₁ step₁' : Step α} (h : Extended L c c' more s step step')
    (hresult : step₁.result = step.result) (hstate : step₁.state = step.state)
    (hresult' : step₁'.result = step'.result) (hstate' : step₁'.state = step'.state) :
    Extended L c c' more s step₁ step₁' := by
  cases h with
  | read h h' hbehind =>
    exact .read (hresult.trans h) (hresult'.trans h') (by rw [hstate, hstate', hbehind])
  | refused h hinside h' => exact .refused (hresult.trans h) hinside (hresult'.trans h')
  | spoiled h hvoid => exact .spoiled (hresult.trans h) hvoid
  | halted hhalted => exact .halted (hhalted.congr hresult hstate)

theorem stable_pure (a : α) : Stable L (pure a) :=
  ⟨moves_pure a, fun _ _ _ _ _ => .read rfl rfl rfl⟩

/-- An error at a token, which stays where it is. -/
theorem stable_failAt {t : Token} (ht : t.isEnd = false) (cause : Cause) :
    Stable L (failAt t cause : Parser α) :=
  ⟨moves_failAt t cause, fun _ _ _ _ _ => .refused rfl ht rfl⟩

/-- What is asked of the types alone has the same answer. -/
theorem stable_isType {L : Bool → Prop} (name : String) : Stable L (isType name) :=
  ⟨moves_gets _, fun _ _ _ _ _ => .read rfl rfl rfl⟩

theorem halts_pure {a : α} (ha : L a) : Halts L (pure a) := fun hrest => .loose rfl ha hrest

theorem halts_bind {p : Parser α} {f : α → Parser β} (hp : Halts L p)
    (hf : ∀ a, L a → Halts L' (f a)) : Halts L' (p >>= f) := by
  intro c s hrest
  cases hp (c := c) hrest with
  | ended h =>
    rw [bind_of_error h]
    exact .ended rfl
  | spent h =>
    rw [bind_of_error h]
    exact .spent rfl
  | loose h ha hrest' =>
    rw [bind_of_ok h]
    exact (hf _ ha hrest').congr rfl rfl

theorem halts_map {p : Parser α} {f : α → β} (hp : Halts L p) (hf : ∀ a, L a → L' (f a)) :
    Halts L' (f <$> p) := by
  rw [← bind_pure_comp]
  exact halts_bind hp fun a ha => halts_pure (hf a ha)

theorem halts_then {p : Parser α} {f : α → Parser β} (hp : Halts never p) : Halts L' (p >>= f) :=
  halts_bind hp fun _ => False.elim

/-- Where the first parser has met the end of input, the second one has to halt. What
    becomes of the two is seen from a state in front of them. -/
theorem extended_bind {s₀ : State} {p : Parser α} {f : α → Parser β}
    (hp : Extended L c c' more s₀ (p c s) (p c' (s.followed more)))
    (hf : ∀ {a s'}, p.Reads c s a s' →
      Extended L' c c' more s₀ (f a c s') (f a c' (s'.followed more)))
    (hhalts : ∀ a, L a → Halts L' (f a)) :
    Extended L' c c' more s₀ ((p >>= f) c s) ((p >>= f) c' (s.followed more)) := by
  cases hp with
  | read h h' hstate =>
    rw [bind_of_ok h, bind_of_ok h', hstate]
    -- the further tokens are still all there when the second parser begins
    exact (hf ⟨h, rfl⟩).congr rfl rfl rfl rfl
  | refused h hinside h' =>
    rw [bind_of_error h, bind_of_error h']
    exact .refused rfl hinside rfl
  | spoiled h hvoid =>
    rw [bind_of_error h]
    exact .spoiled rfl hvoid
  | halted hhalted =>
    cases hhalted with
    | ended h =>
      rw [bind_of_error h]
      exact .halted (.ended rfl)
    | spent h =>
      rw [bind_of_error h]
      exact .halted (.spent rfl)
    -- a success that leaves nothing is followed by another end of input
    | loose h ha hrest =>
      rw [bind_of_ok h]
      exact .halted ((hhalts _ ha hrest).congr rfl rfl)

theorem stable_bind {p : Parser α} {f : α → Parser β} (hp : Stable L p)
    (hf : ∀ {c s a s'}, p.Reads c s a s' → Stable L' (f a))
    (hhalts : ∀ a, L a → Halts L' (f a)) : Stable L' (p >>= f) := by
  constructor
  · intro c s hs
    have hfirst := hp.moves c s hs
    rcases h : (p c s).result with failure | a
    · rw [bind_of_error h]
      exact hfirst
    · rw [bind_of_ok h]
      exact hfirst.trans ((hf ⟨h, rfl⟩).moves c _ (hfirst.consistent hs))
  · intro c c' more s hs
    have hreaches := hp.moves c s hs.consistent
    refine extended_bind (hp.extended c c' more hs) (fun hread => ?_) hhalts
    exact (hf hread).extended_of_reaches c c' more hs (hread.2 ▸ hreaches)

/-- Behind a parser that reads nothing at the end of input. -/
theorem stable_then {p : Parser α} {f : α → Parser β} (hp : Stable never p)
    (hf : ∀ {c s a s'}, p.Reads c s a s' → Stable L' (f a)) : Stable L' (p >>= f) :=
  stable_bind hp hf fun _ => False.elim

theorem stable_map {p : Parser α} {f : α → β} (hp : Stable L p) (hf : ∀ a, L a → L' (f a)) :
    Stable L' (f <$> p) := by
  rw [← bind_pure_comp]
  exact stable_bind hp (fun _ => stable_pure _) fun a ha => halts_pure (hf a ha)

theorem stable_ite {b : Prop} [Decidable b] {p q : Parser α} (hp : b → Stable L p)
    (hq : ¬b → Stable L q) : Stable L (if b then p else q) := by
  split
  · next h => exact hp h
  · next h => exact hq h

/-! ## One token -/

/-- What is seen of the next token is the same, unless there is none. -/
theorem stable_peek_bind {g : Token → Parser β} (hmoves : ∀ t, (g t).Moves)
    (hg : ∀ t, t.isEnd = false → Stable L' (g t)) (hend : ∀ stop, Halts L' (g (.ending stop))) :
    Stable L' (peek >>= g) := by
  refine ⟨moves_bind moves_peek hmoves, fun c c' more s hs => ?_⟩
  obtain ⟨rest, types⟩ := s
  cases rest with
  | nil => exact .halted (hend c.stop rfl)
  | cons t rest => exact (hg t (hs.noEnd t List.mem_cons_self)).extended c c' more hs

theorem halts_peek_bind {g : Token → Parser β} (hend : ∀ stop, Halts L' (g (.ending stop))) :
    Halts L' (peek >>= g) := by
  intro c s hrest
  rw [bind_of_look peek_apply, hrest]
  exact hend c.stop hrest

theorem halts_unexpected (expected : String) : Halts L (unexpected expected : Parser α) := by
  intro c s hrest
  rw [unexpected, bind_of_look peek_apply, hrest]
  exact .ended rfl

theorem stable_unexpected (expected : String) : Stable L (unexpected expected : Parser α) := by
  refine ⟨moves_unexpected _, fun c c' more s hs => ?_⟩
  obtain ⟨rest, types⟩ := s
  cases rest with
  | nil => exact .halted (halts_unexpected expected rfl)
  | cons t rest => exact .refused rfl (hs.noEnd t List.mem_cons_self) rfl

theorem halts_demand {view : Token → Option α} (hview : Blind view) (expected : String) :
    Halts never (demand view expected) := by
  intro c s hrest
  rw [demand_of_none (by rw [hrest]; exact hview _), hrest]
  exact .ended rfl

theorem stable_demand {view : Token → Option α} (hview : Blind view) (expected : String) :
    Stable never (demand view expected) := by
  refine ⟨(faultless_demand view expected : Faultless 0 _).moves, fun c c' more s hs => ?_⟩
  obtain ⟨rest, types⟩ := s
  cases rest with
  | nil => exact .halted (halts_demand hview expected rfl)
  | cons t rest =>
    cases h : view t with
    | some a =>
      rw [demand_of_some (s := ⟨t :: rest, types⟩) hview h,
        demand_of_some (s := State.followed ⟨t :: rest, types⟩ more) hview h]
      exact .read rfl rfl rfl
    | none =>
      rw [demand_of_none (s := ⟨t :: rest, types⟩) h,
        demand_of_none (s := State.followed ⟨t :: rest, types⟩ more) h]
      exact .refused rfl (hs.noEnd t List.mem_cons_self) rfl

theorem halts_accept {view : Token → Option α} (hview : Blind view) :
    Halts (· = none) (accept view) := by
  intro c s hrest
  rw [accept_of_none (by rw [hrest]; exact hview _)]
  exact .loose rfl rfl hrest

theorem stable_accept {view : Token → Option α} (hview : Blind view) :
    Stable (· = none) (accept view) := by
  refine ⟨(faultless_accept view : Faultless 0 _).moves, fun c c' more s hs => ?_⟩
  obtain ⟨rest, types⟩ := s
  cases rest with
  | nil => exact .halted (halts_accept hview rfl)
  | cons t rest =>
    cases h : view t with
    | some a =>
      rw [accept_of_some (s := ⟨t :: rest, types⟩) hview h,
        accept_of_some (s := State.followed ⟨t :: rest, types⟩ more) hview h]
      exact .read rfl rfl rfl
    | none =>
      rw [accept_of_none (s := ⟨t :: rest, types⟩) h,
        accept_of_none (s := State.followed ⟨t :: rest, types⟩ more) h]
      exact .read rfl rfl rfl

theorem stable_checkOperator (spelling : String) : Stable (· = false) (checkOperator spelling) :=
  stable_peek_bind (fun _ => moves_pure _) (fun _ _ => stable_pure _) fun _ =>
    halts_pure (L := (· = false)) rfl

theorem stable_popName (expected : String) : Stable never (popName expected) :=
  popName_eq expected ▸ stable_demand blind_name _

theorem halts_popName (expected : String) : Halts never (popName expected) :=
  popName_eq expected ▸ halts_demand blind_name _

theorem stable_popInteger (expected : String) : Stable never (popInteger expected) :=
  popInteger_eq expected ▸ stable_demand blind_integer _

theorem stable_expectOperator (spelling : String) : Stable never (expectOperator spelling) :=
  expectOperator_eq spelling ▸ stable_demand (blind_operator _) _

theorem halts_expectOperator (spelling : String) : Halts never (expectOperator spelling) :=
  expectOperator_eq spelling ▸ halts_demand (blind_operator _) _

theorem stable_expectKeyword (name : String) : Stable never (expectKeyword name) :=
  expectKeyword_eq name ▸ stable_demand (blind_keyword _) _

theorem stable_matchOperator (spelling : String) : Stable (· = none) (matchOperator spelling) :=
  matchOperator_eq spelling ▸ stable_accept (blind_operator _)

theorem halts_matchOperator (spelling : String) : Halts (· = none) (matchOperator spelling) :=
  matchOperator_eq spelling ▸ halts_accept (blind_operator _)

theorem stable_matchKeyword (name : String) : Stable (· = none) (matchKeyword name) :=
  matchKeyword_eq name ▸ stable_accept (blind_keyword _)

theorem halts_matchKeyword (name : String) : Halts (· = none) (matchKeyword name) :=
  matchKeyword_eq name ▸ halts_accept (blind_keyword _)

theorem stable_register (expected : String) : Stable never (register expected) :=
  stable_then (stable_popName _) fun {_ _ name _} _ =>
    ⟨fun _ s _ => ⟨List.suffix_refl s.rest, [name.text], rfl⟩, fun _ _ _ _ _ => .read rfl rfl rfl⟩

/-- The rounds that are counted from more tokens are more than enough. -/
theorem budgeted_followed {p : Nat → Parser α} (hmore : ∀ n, (p n).Approximates (p (n + 1)))
    (h : (p (s.rest.length + 1) c (s.followed more)).result ≠ .error (.misuse .exhausted)) :
    budgeted p c (s.followed more) = p (s.rest.length + 1) c (s.followed more) := by
  have hle : s.rest.length + 1 ≤ (s.followed more).rest.length + 1 := by
    simp only [State.followed, List.length_append]
    omega
  exact approximates_of_le hmore hle c (s.followed more) h

theorem stable_budgeted {p : Nat → Parser α} (hp : ∀ n, Stable L (p n))
    (hmore : ∀ n, (p n).Approximates (p (n + 1))) : Stable L (budgeted p) := by
  refine ⟨moves_budgeted fun n => (hp n).moves, fun c c' more s hs => ?_⟩
  cases (hp (s.rest.length + 1)).extended c c' more hs with
  -- neither run is out of rounds, so the two have enough of them
  | read h h' hstate =>
    have hsame := budgeted_followed hmore (by rw [h']; exact nofun)
    exact .read h (hsame.symm ▸ h') (hsame.symm ▸ hstate)
  | refused h hinside h' =>
    have hsame := budgeted_followed hmore (by rw [h']; exact nofun)
    exact .refused h hinside (hsame.symm ▸ h')
  | spoiled h hvoid => exact .spoiled h hvoid
  | halted hhalted => exact .halted (hhalted.congr rfl rfl)

theorem halts_budgeted {p : Nat → Parser α} (hp : ∀ n, Halts L (p n)) : Halts L (budgeted p) :=
  fun hrest => hp _ hrest

end Parser

end Flattener
