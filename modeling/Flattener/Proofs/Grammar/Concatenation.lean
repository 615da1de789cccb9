import Flattener.Proofs.Grammar.Continuation

/-!
# Programs one behind the other

A program whose last token is a semicolon or a closing brace is over: whatever
tokens follow are read as they are read alone by someone who knows its types
(`parse_append`). Nothing is carried over but the type names and a statement
that is passed through, which joins one that follows at once (`joinItems`).

The rounds of the program are the same with the further tokens behind. A
production is read or given up alike (`Parser.Stable`), and the same production
is called for, because the program does not end with a name. A statement that
takes all tokens that are left ends with its last token and not with the input
(`reads_rawStatement_followed`).
-/

namespace Flattener

/-! ## Joined items -/

/-- Items with others behind. A raw run at the end of the first ones and one at
    the start of the others are one raw run. -/
def joinItems (items others : List Item) : List Item :=
  match items.getLast?, others with
  | some (.raw run), .raw next :: behind =>
    items.dropLast ++ .raw ⟨run.first, run.others ++ next.tokens⟩ :: behind
  | _, _ => items ++ others

theorem joinItems_nil (others : List Item) : joinItems [] others = others := rfl

theorem joinItems_cons {item : Item} {items : List Item} (h : item.isRaw = false ∨ items ≠ [])
    (others : List Item) : joinItems (item :: items) others = item :: joinItems items others := by
  cases items with
  | nil =>
    have hraw : item.isRaw = false := h.resolve_right fun hne => hne rfl
    cases item with
    | raw run => cases hraw
    | _ => rfl
  | cons next items =>
    unfold joinItems
    rw [List.getLast?_cons_cons, List.dropLast_cons_cons]
    split <;> rfl

/-- A raw run at the head joins what follows it. -/
theorem joinItems_raw (run : RawRun) (others : List Item) :
    joinItems [.raw run] others = Item.consRaw run.tokens others := by
  cases others with
  | nil => rfl
  | cons item others => cases item <;> rfl

theorem consRaw_append (first second : List Token) (items : List Item) :
    Item.consRaw (first ++ second) items = Item.consRaw first (Item.consRaw second items) := by
  rcases first with _ | ⟨t, first⟩
  · rfl
  rcases second with _ | ⟨u, second⟩
  · rw [List.append_nil]
    rfl
  cases hraw : beginsRaw items with
  | false =>
    rw [List.cons_append, consRaw_of_beginsRaw_eq_false hraw, consRaw_of_beginsRaw_eq_false hraw]
    rfl
  | true =>
    obtain ⟨run, behind, rfl⟩ := exists_raw_of_beginsRaw hraw
    simp [Item.consRaw, RawRun.tokens]

/-- Tokens in front of items that are joined are in front of the first ones. -/
theorem joinItems_consRaw (tokens : List Token) (items others : List Item) :
    joinItems (Item.consRaw tokens items) others = Item.consRaw tokens (joinItems items others) := by
  rcases tokens with _ | ⟨t, tokens⟩
  · rfl
  cases hraw : beginsRaw items with
  | false =>
    rw [consRaw_of_beginsRaw_eq_false hraw]
    rcases items with _ | ⟨item, items⟩
    · exact joinItems_raw ⟨t, tokens⟩ others
    · have hitem : item.isRaw = false := hraw
      rw [joinItems_cons (.inr (List.cons_ne_nil _ _)), joinItems_cons (.inl hitem),
        consRaw_of_beginsRaw_eq_false (show beginsRaw (item :: _) = false from hitem)]
  | true =>
    obtain ⟨run, behind, rfl⟩ := exists_raw_of_beginsRaw hraw
    rcases behind with _ | ⟨item, items⟩
    · rw [joinItems_raw, ← consRaw_append]
      exact joinItems_raw ⟨t, tokens ++ run.tokens⟩ others
    · rw [joinItems_cons (.inr (List.cons_ne_nil _ _)), Item.consRaw,
        joinItems_cons (.inr (List.cons_ne_nil _ _))]
      rfl

namespace Parser

variable {c c' : Context} {s s₁ : State} {n m : Nat} {nested : Bool} {more : List Token}

/-! ## The end of a statement -/

/-- The last token ends a statement, if there is one. -/
def EndsStatement (tokens : List Token) : Prop :=
  ∀ t ∈ tokens.getLast?, t.isOperator [";", closeBrace] = true

theorem EndsStatement.of_suffix {tokens rest : List Token} (h : EndsStatement tokens)
    (hsuffix : rest <:+ tokens) : EndsStatement rest := by
  obtain ⟨front, rfl⟩ := hsuffix
  intro t ht
  refine h t ?_
  rw [List.getLast?_append, ht]
  rfl

/-- Tokens that end a statement and leave no bracket open are no open statement. -/
theorem openDepth_ne_zero_of_endsStatement {tokens : List Token} (h : EndsStatement tokens)
    (hsome : tokens ≠ []) : openDepth 0 tokens ≠ some 0 := by
  obtain ⟨front, t, rfl⟩ : ∃ front t, tokens = front ++ [t] :=
    ⟨_, _, (List.dropLast_concat_getLast hsome).symm⟩
  intro hopen
  rw [openDepth_append, Option.bind_eq_some_iff] at hopen
  obtain ⟨depth, -, hlast⟩ := hopen
  rw [openDepth] at hlast
  split at hlast
  · cases hlast
  next hgoes =>
  have hnesting : nesting depth t = 0 := Option.some.inj hlast
  exact hgoes (.inr ⟨hnesting, h t (by simp)⟩)

/-- Where a statement takes all tokens that are left, it leaves no bracket open. -/
theorem finalDepth_of_reads_rawStatement {tokens : List Token}
    (h : rawStatement.Reads c s tokens s₁) (hnil : s₁.rest = []) : finalDepth tokens = 0 := by
  have hend : (tokenAt c s₁.rest 0).isEnd = true := by
    rw [hnil]
    rfl
  simp only [rawStatement, reads_bind, reads_gets, reads_take, reads_atEnd] at h
  obtain ⟨_, _, ⟨rfl, rfl⟩, _, _, ⟨rfl, rfl⟩, _, _, ⟨rfl, rfl⟩, h⟩ := h
  split at h
  · split at h
    · exact absurd h not_reads_unexpected
    · next hclosed =>
      obtain ⟨rfl, -⟩ := reads_pure.1 h
      omega
  · next hgoes =>
    split at h
    · exact absurd h not_reads_unexpected
    · obtain ⟨-, rfl⟩ := reads_pure.1 h
      exact absurd hend hgoes

/-- A statement stays what it is with more tokens behind, where the tokens that are
    left end with the end of one. -/
theorem reads_rawStatement_followed {tokens : List Token} (hs : Proper s)
    (hlast : EndsStatement s.rest) (hsome : s.rest ≠ []) (h : rawStatement.Reads c s tokens s₁)
    (c' : Context) (more : List Token) :
    rawStatement.Reads c' (s.followed more) tokens (s₁.followed more) := by
  by_cases hnil : s₁.rest = []
  · have hspan := statementSpan_eq_of_runsOut hs.noEnd (.inr ⟨tokens, h.1, h.2 ▸ hnil⟩)
    have hclosed := finalDepth_of_reads_rawStatement h hnil
    cases eq_behind_of_reads_rawStatement h
    obtain ⟨rest, types⟩ := s₁
    obtain rfl : rest = [] := hnil
    simp only [State.behind, List.append_nil] at hspan hlast hsome
    -- no bracket is open behind the tokens, so their last one ends the statement
    rcases open_or_whole_of_statementSpan hspan with ⟨depth, hopen⟩ | hwhole
    · have hdepth : depth = 0 := (foldl_nesting_of_open hopen).symm.trans hclosed
      exact absurd (hdepth ▸ hopen) (openDepth_ne_zero_of_endsStatement hlast hsome)
    · have hread : rawStatement.Reads c' ⟨tokens ++ more, types⟩ tokens ⟨more, types⟩ :=
        reads_rawStatement_of_span (hwhole more) hsome fun _ => hclosed
      simpa [State.followed, State.behind] using hread
  · exact h.followed stable_rawStatement hs (fun _ => hnil) c' more

/-! ## Rounds in front of others -/

section Steps

variable {α β : Type}

/-- The step is the other one with its value changed. -/
def Carries (f : α → β) (step : Step β) (step' : Step α) : Prop :=
  step.result = step'.result.map f ∧ step.state = step'.state

theorem carries_of_id {f : α → α} (h : ∀ a, f a = a) (step : Step α) : Carries f step step := by
  refine ⟨?_, rfl⟩
  cases step.result with
  | error failure => rfl
  | ok a => exact congrArg Except.ok (h a).symm

theorem Carries.trans {γ : Type} {f : β → γ} {g : α → β} {h : α → γ} {first : Step γ}
    {second : Step β} {third : Step α} (hfirst : Carries f first second)
    (hsecond : Carries g second third) (heq : ∀ a, f (g a) = h a) : Carries h first third := by
  refine ⟨?_, hfirst.2.trans hsecond.2⟩
  rw [hfirst.1, hsecond.1]
  cases third.result with
  | error failure => rfl
  | ok a => exact congrArg Except.ok (heq a)

theorem carries_bind_pure (q : Parser α) (f : α → β) (c : Context) (s : State) :
    Carries f ((q >>= fun a => pure (f a)) c s) (q c s) := by
  rcases h : (q c s).result with failure | a
  · rw [bind_of_error h, Carries, h]
    exact ⟨rfl, rfl⟩
  · rw [bind_of_ok h, Carries, h]
    exact ⟨rfl, rfl⟩

/-- What goes on with the value in both runs carries it further. -/
theorem Carries.bind {γ δ : Type} {p : Parser β} {q : Parser α} {f : α → β} {g : β → Parser δ}
    {k : α → Parser γ} {f' : γ → δ} {s' : State} (h : Carries f (p c s) (q c s'))
    (hg : ∀ a s, Carries f' (g (f a) c s) (k a c s)) :
    Carries f' ((p >>= g) c s) ((q >>= k) c s') := by
  obtain ⟨hresult, hstate⟩ := h
  rcases hq : (q c s').result with failure | a
  · rw [hq] at hresult
    rw [bind_of_error hresult, bind_of_error hq]
    exact ⟨rfl, hstate⟩
  · rw [hq] at hresult
    rw [bind_of_ok hresult, bind_of_ok hq, hstate]
    exact hg a _

/-- Behind what was read, the rest of the run counts. -/
theorem Carries.behind {γ : Type} {p : Parser α} {g : α → Parser β} {a : α} {f : γ → β}
    {step : Step γ} (hread : p.Reads c s a s₁) (h : Carries f (g a c s₁) step) :
    Carries f ((p >>= g) c s) step := by
  obtain ⟨hresult, rfl⟩ := hread
  rw [bind_of_ok hresult]
  exact h

end Steps

theorem scopeItems_of_goes (hgoes : scopeEnds c nested s = false) :
    scopeItems (n + 1) nested c s = round n nested (productionAt c s) c s := by
  rw [scopeItems_succ, hgoes, if_neg Bool.false_ne_true]

/-- An item is in front of the items that are read behind it. -/
theorem carries_of_item {production : Production} {item : Item} (hs : s.types.Consistent)
    (hgoes : scopeEnds c nested s = false) (hproduction : productionAt c s = some production)
    (hread : (produce (scopeItems n true) production).Reads c s item s₁) :
    Carries (item :: ·) (scopeItems (n + 1) nested c s) (scopeItems n nested c s₁) := by
  have hmoves := moves_produce (moves_scopeItems n true) production
  rw [scopeItems_of_goes hgoes, hproduction]
  exact .behind ((reads_attempt_some hmoves hs).2 hread) (carries_bind_pure _ _ _ _)

/-- Where no production reads an item, a statement is in front of the items that are
    read behind it. -/
theorem carries_of_statement {tokens : List Token} (hs : s.types.Consistent)
    (hgoes : scopeEnds c nested s = false)
    (hgives : ∀ production, productionAt c s = some production →
      GivesUp (produce (scopeItems n true) production c s).result)
    (hraw : rawStatement.Reads c s tokens s₁) :
    Carries (Item.consRaw tokens) (scopeItems (n + 1) nested c s) (scopeItems n nested c s₁) := by
  have hstatement : Carries (Item.consRaw tokens) (statementThen (scopeItems n nested) c s)
      (scopeItems n nested c s₁) := .behind hraw (carries_bind_pure _ _ _ _)
  rw [scopeItems_of_goes hgoes]
  cases hproduction : productionAt c s with
  | none => exact hstatement
  | some production =>
    have hmoves := moves_produce (moves_scopeItems n true) production
    exact .behind (reads_attempt_none hmoves hs (hgives production hproduction)) hstatement

/-! ## Scopes in front of others -/

/-- Tokens that end a statement call for the same production with more behind. -/
theorem productionAt_of_endsStatement (hlast : EndsStatement s.rest) (hsome : s.rest ≠ [])
    (c c' : Context) (more : List Token) :
    productionAt c' (s.followed more) = productionAt c s := by
  obtain ⟨rest, types⟩ := s
  obtain ⟨t, rest, rfl⟩ := List.exists_cons_of_ne_nil hsome
  rcases productionAt_followed c c' more t rest types with hsame | ⟨rfl, -, name, rfl⟩
  · exact hsame
  · exact absurd (hlast name.token rfl) nofun

/-- The items of a whole scope that ends with the end of a statement are in front of
    those that are read of more tokens behind, with the types that it makes. -/
theorem carries_scopeItems_followed {items : List Item} {s' : State} (hs : Proper s)
    (hlast : EndsStatement s.rest) (h : (scopeItems n false).Reads c s items s')
    (hnil : s'.rest = [])
    (hrounds : (scopeItems m false c' ⟨more, s'.types⟩).result ≠ .error (.misuse .exhausted)) :
    Carries (joinItems items) (scopeItems (n + m) false c' (s.followed more))
      (scopeItems m false c' ⟨more, s'.types⟩) := by
  induction n generalizing s items with
  | zero => exact absurd h not_reads_fail
  | succ n ih =>
    rcases (reads_scopeItems_succ hs.consistent).1 h with ⟨hends, rfl, rfl⟩ |
      ⟨hgoes, production, item, others, s₁, hproduction, hitem, hothers, rfl⟩ |
      ⟨hgoes, hnone, tokens, others, s₁, hraw, hothers, rfl⟩
    · obtain ⟨rest, types⟩ := s'
      obtain rfl : rest = [] := hnil
      have hmore := approximates_of_le (fun n => approximates_scopeItems n false)
        (Nat.le_add_left m (n + 1)) c' ⟨more, types⟩ hrounds
      rw [← hmore]
      exact carries_of_id joinItems_nil _
    · have hsome := rest_ne_nil_of_goes hgoes
      have hreaches : s.Reaches s₁ :=
        hitem.2 ▸ moves_produce (moves_scopeItems n true) production c s hs.consistent
      have hraw : item.isRaw = false :=
        (itemRead_of_produce (fun hs h => (itemsRead_of_scopeItems hs h).1) hs.consistent hitem).2
      have hread := (hitem.followed (stable_produce (stable_scopeItems n true) production) hs
        False.elim c' more).of_approximates
          (approximates_produce_of_le (Nat.le_add_right n m) production)
      have hbehind := ih (hs.reaches hreaches) (hlast.of_suffix hreaches.1) hothers
      rw [Nat.succ_add]
      refine (carries_of_item (s := s.followed more) hs.consistent ?_ ?_ hread).trans hbehind
        fun others' => (joinItems_cons (.inl hraw) others').symm
      · exact (scopeEnds_followed hsome c c' more).trans hgoes
      · exact (productionAt_of_endsStatement hlast hsome c c' more).trans hproduction
    · have hsome := rest_ne_nil_of_goes hgoes
      have hreaches : s.Reaches s₁ := hraw.2 ▸ moves_rawStatement c s hs.consistent
      have hread := reads_rawStatement_followed hs hlast hsome hraw c' more
      have hbehind := ih (hs.reaches hreaches) (hlast.of_suffix hreaches.1) hothers
      rw [Nat.succ_add]
      refine (carries_of_statement (s := s.followed more) hs.consistent ?_
        (fun production hproduction => ?_) hread).trans hbehind
          fun others' => (joinItems_consRaw tokens others others').symm
      · exact (scopeEnds_followed hsome c c' more).trans hgoes
      · -- what was given up before is given up also with more tokens behind
        rw [productionAt_of_endsStatement hlast hsome c c' more] at hproduction
        have hmoves := moves_produce (moves_scopeItems n true) production
        obtain ⟨found, expected, location, line, hfailure⟩ :=
          (attempt_eq_none_iff hmoves hs.consistent).1 (hnone production hproduction).1
        exact givesUp_produce_followed hs ⟨_, hfailure, rfl⟩ (Nat.le_add_right n m) c' more

/-- For whole scopes there are always enough rounds. -/
theorem carries_scopeBody_followed {items : List Item} {s' : State} (hs : Proper s)
    (hlast : EndsStatement s.rest) (h : (scopeBody false).Reads c s items s') (hnil : s'.rest = [])
    (c' : Context) (more : List Token) :
    Carries (joinItems items) (scopeBody false c' (s.followed more))
      (scopeBody false c' ⟨more, s'.types⟩) := by
  have hs' : s'.types.Consistent :=
    h.2 ▸ ((stable_scopeBody false).moves c s hs.consistent).consistent hs.consistent
  have hcarries := carries_scopeItems_followed (m := more.length + 1) hs hlast (reads_budgeted.1 h)
    hnil (result_scopeItems_ne_exhausted (c := c') (s := ⟨more, s'.types⟩) hs' (Nat.lt_succ_self _))
  have hlength : (s.followed more).rest.length < s.rest.length + 1 + (more.length + 1) := by
    rw [State.followed, List.length_append]
    omega
  rwa [scopeItems_eq_scopeBody (s := s.followed more) hs.consistent hlength] at hcarries

/-- The same of programs. -/
theorem carries_scope_followed {tree : Scope} {s' : State} (hs : Proper s)
    (hlast : EndsStatement s.rest) (hsome : s.rest ≠ []) (h : scope.Reads c s tree s')
    (c' : Context) (more : List Token) :
    Carries (fun others => ⟨tree.start, joinItems tree.children others.children⟩)
      (scope c' (s.followed more)) (scope c' ⟨more, s'.types⟩) := by
  obtain ⟨hstart, hchildren, hstop⟩ := reads_scope.1 h
  have hreaches := hchildren.2 ▸ (stable_scopeBody false).moves c s hs.consistent
  have hnil : s'.rest = [] := rest_eq_nil_of_isEnd (hs.reaches hreaches).noEnd hstop
  have hfirst : (tokenAt c' (s.followed more).rest 0).location = tree.start := by
    obtain ⟨rest, types⟩ := s
    obtain ⟨t, rest, rfl⟩ := List.exists_cons_of_ne_nil hsome
    exact hstart.symm
  rw [scope, bind_of_look peek_apply, bind_of_look peek_apply, hfirst]
  refine (carries_scopeBody_followed hs hlast hchildren hnil c' more).bind fun children s => ?_
  exact (carries_of_id (fun _ => rfl) (popKind .endOfInput "end of input" c' s)).bind
    fun _ _ => ⟨rfl, rfl⟩

end Parser

/-! ## Whole programs -/

/-- The program that tokens write behind others, which have registered some types. -/
def parseBehind (builtins history lines : List String) (tokens : List Token) (stop : Location) :
    Step Scope :=
  Parser.scope ⟨stop, lines⟩ ⟨tokens, (TypeNames.ofBuiltins builtins).registerAll history⟩

section

variable {builtins lines : List String} {tokens : List Token} {stop : Location} {tree : Scope}

/-- What is read behind other tokens registers the structs and classes of its tree. -/
theorem history_parseBehind {history : List String}
    (h : (parseBehind builtins history lines tokens stop).result = .ok tree) :
    (parseBehind builtins history lines tokens stop).state.types.history =
      history ++ aggregateNames tree.nodes := by
  have hconsistent := TypeNames.consistent_registerAll
    (TypeNames.consistent_ofBuiltins builtins) history
  obtain ⟨-, hchildren, -⟩ := Parser.reads_scope.1 ⟨h, rfl⟩
  obtain ⟨hread, -⟩ := Parser.itemsRead_of_scopeItems hconsistent
    (Parser.reads_budgeted.1 hchildren)
  rw [parseBehind, hread.types, TypeNames.history_registerAll, TypeNames.history_registerAll,
    aggregateNames_nodes]
  rfl

/-- Whoever has parsed a program knows the types of its history. -/
theorem types_eq_registerAll_history {tree : Scope}
    (h : (parse builtins lines tokens stop).result = .ok tree) :
    (parse builtins lines tokens stop).state.types =
      (TypeNames.ofBuiltins builtins).registerAll
        (parse builtins lines tokens stop).state.types.history := by
  obtain ⟨s, hread, -, htypes, -⟩ := itemsRead_of_parse h
  rw [htypes, hread.types, TypeNames.history_registerAll]
  rfl

/-- A program that ends with the end of a statement can be followed by any tokens.
    They are read, or refused, as they are by someone who knows its types. What is
    read of them comes behind its items, and their types behind its types. -/
theorem parse_append (hend : ∀ t ∈ tokens, t.isEnd = false)
    (hlast : ∃ t, tokens.getLast? = some t ∧ t.isOperator [";", closeBrace] = true)
    (h : (parse builtins lines tokens stop).result = .ok tree) (lines' : List String)
    (more : List Token) (stop' : Location) :
    let history := (parse builtins lines tokens stop).state.types.history
    let whole := parse builtins lines' (tokens ++ more) stop'
    let behind := parseBehind builtins history lines' more stop'
    (whole.result = behind.result.map fun others =>
      ⟨tree.start, joinItems tree.children others.children⟩) ∧
    whole.state.types = behind.state.types ∧
    ∀ others, behind.result = .ok others →
      whole.state.types.history = history ++ aggregateNames others.nodes := by
  intro history whole behind
  have hs : Parser.Proper ⟨tokens, .ofBuiltins builtins⟩ :=
    ⟨hend, TypeNames.consistent_ofBuiltins builtins⟩
  obtain ⟨last, hlast, hoperator⟩ := hlast
  have hends : Parser.EndsStatement tokens := by
    intro t ht
    cases hlast.symm.trans ht
    exact hoperator
  have hsome : tokens ≠ [] := by
    rintro rfl
    cases hlast
  have hcarries : Parser.Carries
      (fun others : Scope => ⟨tree.start, joinItems tree.children others.children⟩) whole behind := by
    have hfollowed := Parser.carries_scope_followed hs hends hsome ⟨h, rfl⟩ ⟨stop', lines'⟩ more
    have htypes := types_eq_registerAll_history h
    rw [parse] at htypes
    rwa [htypes] at hfollowed
  refine ⟨hcarries.1, congrArg State.types hcarries.2, fun others hothers => ?_⟩
  rw [hcarries.2]
  exact history_parseBehind hothers

/-- A statement, and a struct that refers to a type of what is in front:

        x = 1 ; struct c { a y; }; -/
def laterStruct : List Token :=
  [Lexeme.identifier "x", .operator "=", .integer "1" 1, .operator ";", .identifier "struct",
    .identifier "c", .operator openBrace, .identifier "a", .identifier "y", .operator ";",
    .operator closeBrace, .operator ";"].map (Token.mk · default)

/-- The struct that is given up and the statement are one raw run. -/
theorem parse_append_laterStruct :
    ∃ tree others, (parse ["int"] [] abandonedStruct default).result = .ok tree ∧
      (parseBehind ["int"] ["a"] [] laterStruct default).result = .ok others ∧
      (parse ["int"] [] (abandonedStruct ++ laterStruct) default).result =
        .ok ⟨tree.start, joinItems tree.children others.children⟩ ∧
      tree.children.length = 2 ∧ others.children.length = 2 ∧
      (joinItems tree.children others.children).length = 3 ∧
      (parse ["int"] [] (abandonedStruct ++ laterStruct) default).state.types.history =
        ["a", "c"] := by
  have happend := parse_append (by decide) ⟨_, rfl, rfl⟩
    (show (parse ["int"] [] abandonedStruct default).result = .ok _ from rfl) [] laterStruct default
  exact ⟨_, _, rfl, rfl, happend.1, rfl, rfl, rfl, happend.2.2 _ rfl⟩

end

end Flattener
