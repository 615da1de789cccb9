import Flattener.Proofs.Grammar.Loops

/-!
# Scans

Stars, statements and initializers are read in one go, as many tokens as belong to them.
They are loops as well, whose rounds read one token each and keep those that were read
so far (`runs_stars`, `runs_rawStatement`, `runs_initializer`): the span of a statement
ends where a round does.
-/

namespace Flattener.Parser

variable {α β : Type} {c : Context} {s s' : State}

/-! ## Single steps -/

/-- Tokens that are taken before a parser goes on leave no record. -/
theorem take_bind (n : Nat) (f : List Token → Parser β) :
    (take n >>= f) c s = f (s.rest.take n) c ⟨s.rest.drop n, s.types⟩ := rfl

theorem gets_bind (f : Context → State → α) (g : α → Parser β) : (gets f >>= g) c s = g (f c s) c s :=
  rfl

/-- A token that is not the end of input is consumed. -/
theorem length_lt_of_reads_pop {t : Token} (hend : (tokenAt c s.rest 0).isEnd = false)
    (h : pop.Reads c s t s') : s'.rest.length < s.rest.length := by
  obtain ⟨rest, types⟩ := s
  obtain ⟨-, rfl⟩ := reads_pop.1 h
  rw [behindNext_of_inside hend]
  cases rest with
  | nil => cases hend
  | cons t rest => exact Nat.lt_succ_self _

/-! ## Stars -/

/-- One round of the stars behind a type. -/
def starRound (_ : Unit) : Parser (Turn Unit Nat) := do
  if (← matchOperator "*").isSome then return .goes () (· + 1) else return .ends 0

theorem advances_starRound : Advances starRound := by
  refine advances_of_faultless (fun _ _ => ?_) fun {_ _ _ _ _ _} _ h => ?_
  · exact faultless_bind (faultless_matchOperator _) fun _ =>
      faultless_ite (faultless_pure _) (faultless_pure _)
  · obtain ⟨found, s₁, hfound, h⟩ := reads_bind.1 h
    rcases reads_matchOperator.1 hfound with ⟨t, -, rfl, rfl⟩ | ⟨-, -, rfl⟩
    · obtain ⟨-, rfl⟩ := reads_pure.1 h
      exact Nat.lt_succ_self _
    · obtain ⟨heq, -⟩ := reads_pure.1 h
      cases heq

theorem stars_apply : stars c s = ⟨.ok (s.rest.takeWhile (·.isOperator ["*"])).length,
    ⟨s.rest.drop (s.rest.takeWhile (·.isOperator ["*"])).length, s.types⟩, []⟩ := rfl

theorem stars_unfold : stars c s = (starRound () >>= turn fun _ => stars) c s := by
  rw [starRound, bind_assoc, matchOperator_eq]
  obtain ⟨rest, types⟩ := s
  rcases rest with _ | ⟨t, rest⟩
  · rfl
  cases hstar : t.isOperator ["*"] with
  | true =>
    have hview : operatorView "*" (tokenAt c (t :: rest) 0) = some t := if_pos hstar
    have haccept := @accept_of_some _ c ⟨t :: rest, types⟩ _ (blind_operator _) _ hview
    have htake : (t :: rest).takeWhile (·.isOperator ["*"]) =
        t :: rest.takeWhile (·.isOperator ["*"]) := by rw [List.takeWhile_cons, hstar]; rfl
    rw [bind_of_ok (congrArg Step.result haccept), haccept, stars_apply, htake]
    rfl
  | false =>
    have hview : operatorView "*" (tokenAt c (t :: rest) 0) = none :=
      if_neg (Bool.not_eq_true _ ▸ hstar)
    have htake : (t :: rest).takeWhile (·.isOperator ["*"]) = [] := by
      rw [List.takeWhile_cons, hstar]; rfl
    rw [bind_of_look (accept_of_none hview), stars_apply, htake]
    rfl

theorem runs_stars : Runs stars starRound () :=
  runs_of_unfold advances_starRound (fun _ _ _ _ _ => stars_unfold) ()

/-! ## Statements -/

/-- One round of a statement, with so many brackets open behind the tokens so far. -/
def statementRound : Nat × List Token → Parser (Turn (Nat × List Token) (List Token))
  | (depth, tokens) => do
    let t ← peek
    if t.isEnd then
      if 0 < depth then unexpected "closing bracket" else return .ends tokens
    else if depth = 0 ∧ t.isOperator closers then
      if tokens.isEmpty then unexpected "declaration or statement" else return .ends tokens
    else
      let _ ← pop
      if nesting depth t = 0 ∧ t.isOperator [";", closeBrace] then return .ends (tokens ++ [t])
      else return .goes (nesting depth t, tokens ++ [t]) id

/-- The end of a statement of tokens that leave so many brackets open. -/
def statementEnd (depth : Nat) (tokens : List Token) : Parser (List Token) := do
  if ← atEnd then
    if 0 < depth then unexpected "closing bracket" else return tokens
  else if tokens.isEmpty then unexpected "declaration or statement"
  else return tokens

/-- A statement, behind tokens of it. -/
def statementFrom : Nat × List Token → Parser (List Token)
  | (depth, tokens) => do
    let span ← gets fun _ s => statementSpan depth s.rest
    let others ← take span.length
    statementEnd (others.foldl nesting depth) (tokens ++ others)

theorem statementFrom_apply (depth : Nat) (tokens : List Token) {span rest : List Token}
    (hspan : statementSpan depth s.rest = span) (hrest : s.rest = span ++ rest) :
    statementFrom (depth, tokens) c s =
      statementEnd (span.foldl nesting depth) (tokens ++ span) c ⟨rest, s.types⟩ := by
  rw [statementFrom, gets_bind, take_bind, hspan, hrest, List.take_left, List.drop_left]

theorem statementEnd_apply (depth : Nat) (tokens : List Token) : statementEnd depth tokens c s =
    (if (tokenAt c s.rest 0).isEnd then
      if 0 < depth then unexpected "closing bracket" else pure tokens
    else if tokens.isEmpty then unexpected "declaration or statement" else pure tokens) c s :=
  rfl

theorem statementEnd_zero {tokens : List Token} (h : tokens ≠ []) :
    statementEnd 0 tokens c s = ⟨.ok tokens, s, []⟩ := by
  have hsome : ¬tokens.isEmpty = true := by rwa [List.isEmpty_iff]
  rw [statementEnd_apply, if_neg (Nat.lt_irrefl 0), if_neg hsome]
  split <;> rfl

/-- Where the tokens are used up, or the next one ends the statement, a round ends it. -/
theorem statementFrom_unfold (progress : Nat × List Token) :
    statementFrom progress c s = (statementRound progress >>= turn statementFrom) c s := by
  obtain ⟨depth, tokens⟩ := progress
  obtain ⟨rest, types⟩ := s
  rw [statementRound, bind_assoc, bind_of_look peek_apply]
  rcases rest with _ | ⟨t, rest⟩
  · rw [@statementFrom_apply c ⟨[], types⟩ depth tokens [] [] rfl rfl, List.append_nil]
    show (if 0 < depth then unexpected "closing bracket" else pure tokens) c _ =
      ((if 0 < depth then unexpected "closing bracket" else pure (.ends tokens)) >>=
        turn statementFrom) c _
    split <;> rfl
  have hhead : tokenAt c (State.mk (t :: rest) types).rest 0 = t := rfl
  rw [hhead]
  by_cases hend : t.isEnd = true
  · have hspan : statementSpan depth (t :: rest) = [] := if_pos (.inl hend)
    rw [if_pos hend, @statementFrom_apply c ⟨t :: rest, types⟩ depth tokens [] _ hspan rfl,
      List.append_nil, List.foldl_nil, statementEnd_apply, hhead, if_pos hend]
    split <;> rfl
  by_cases hblocked : depth = 0 ∧ t.isOperator closers = true
  · have hspan : statementSpan depth (t :: rest) = [] := if_pos (.inr hblocked)
    rw [if_neg hend, if_pos hblocked,
      @statementFrom_apply c ⟨t :: rest, types⟩ depth tokens [] _ hspan rfl, List.append_nil,
      statementEnd_apply, hhead, if_neg hend]
    split <;> rfl
  have hstops := not_or.2 ⟨hend, hblocked⟩
  have hinside : (tokenAt c (State.mk (t :: rest) types).rest 0).isEnd = false :=
    Bool.not_eq_true _ ▸ hend
  rw [if_neg hend, if_neg hblocked, bind_assoc, pop_bind_of_inside hinside]
  by_cases hlast : nesting depth t = 0 ∧ t.isOperator [";", closeBrace] = true
  · have hspan : statementSpan depth (t :: rest) = [t] := by
      rw [statementSpan, if_neg hstops, if_pos hlast]
    have hsome : tokens ++ [t] ≠ [] := by simp
    rw [if_pos hlast, @statementFrom_apply c ⟨t :: rest, types⟩ depth tokens [t] _ hspan rfl,
      List.foldl_cons, List.foldl_nil, hlast.1, statementEnd_zero hsome]
    rfl
  · have hspan : statementSpan depth (t :: rest) = t :: statementSpan (nesting depth t) rest := by
      rw [statementSpan, if_neg hstops, if_neg hlast]
    obtain ⟨behind, hbehind⟩ := statementSpan_prefix (nesting depth t) rest
    rw [if_neg hlast, @statementFrom_apply c ⟨t :: rest, types⟩ depth tokens _ behind hspan
      (congrArg (t :: ·) hbehind.symm), pure_bind, turn, id_map]
    have hnext := @statementFrom_apply c ⟨rest, types⟩ (nesting depth t) (tokens ++ [t]) _ behind
      rfl hbehind.symm
    rw [List.append_assoc] at hnext
    exact hnext.symm

theorem advances_statementRound : Advances statementRound := by
  refine advances_of_faultless (fun _ _ => ?_) fun {progress _ _ _ _ _} _ h => ?_
  · refine faultless_bind (faultless_gets _) fun t => ?_
    exact faultless_ite (faultless_ite (faultless_unexpected _) (faultless_pure _)) <|
      faultless_ite (faultless_ite (faultless_unexpected _) (faultless_pure _)) <|
        faultless_bind faultless_pop fun _ => faultless_ite (faultless_pure _) (faultless_pure _)
  · rw [statementRound, reads_peek_bind] at h
    split at h
    · split at h
      · exact absurd h not_reads_unexpected
      · cases (reads_pure.1 h).1
    next hinside =>
    split at h
    · split at h
      · exact absurd h not_reads_unexpected
      · cases (reads_pure.1 h).1
    · obtain ⟨t, s₁, hpop, h⟩ := reads_bind.1 h
      have hless := length_lt_of_reads_pop (Bool.not_eq_true _ ▸ hinside) hpop
      split at h
      · cases (reads_pure.1 h).1
      · obtain ⟨-, rfl⟩ := reads_pure.1 h
        exact hless

theorem runs_rawStatement : Runs rawStatement statementRound (0, []) :=
  runs_of_unfold advances_statementRound (fun progress _ _ _ _ => statementFrom_unfold progress)
    (0, [])

/-! ## Initializers -/

/-- One round of an initializer. -/
def initializerRound (stops : List String) :
    Nat × List Token → Parser (Turn (Nat × List Token) RawRun)
  | (depth, tokens) => do
    let t ← peek
    if t.isEnd ∨ depth = 0 ∧ t.isOperator (stops ++ closers) then
      match tokens with
      | first :: others =>
        if depth = 0 ∧ t.isOperator stops then return .ends ⟨first, others⟩
        else unexpected "initializer expression"
      | [] => unexpected "initializer expression"
    else
      let _ ← pop
      return .goes (nesting depth t, tokens ++ [t]) id

/-- The end of an initializer of tokens. -/
def initializerEnd (stops : List String) : List Token → Parser RawRun
  | first :: others => do
    if (← peek).isOperator stops then return ⟨first, others⟩
    else unexpected "initializer expression"
  | [] => unexpected "initializer expression"

/-- An initializer, behind tokens of it. -/
def initializerFrom (stops : List String) : Nat × List Token → Parser RawRun
  | (depth, tokens) => do
    let span ← gets fun _ s => initializerSpan stops depth s.rest
    let others ← take span.length
    initializerEnd stops (tokens ++ others)

theorem initializerFrom_apply (stops : List String) (depth : Nat) (tokens : List Token)
    {span rest : List Token} (hspan : initializerSpan stops depth s.rest = span)
    (hrest : s.rest = span ++ rest) : initializerFrom stops (depth, tokens) c s =
      initializerEnd stops (tokens ++ span) c ⟨rest, s.types⟩ := by
  rw [initializerFrom, gets_bind, take_bind, hspan, hrest, List.take_left, List.drop_left]

/-- What ends an initializer in a round is what ends it behind a span. -/
theorem initializerEnd_of_depth {stops : List String} {depth : Nat} (tokens : List Token)
    (h : (tokenAt c s.rest 0).isOperator stops = true → depth = 0) :
    initializerEnd stops tokens c s =
      ((match tokens with
        | first :: others =>
          if depth = 0 ∧ (tokenAt c s.rest 0).isOperator stops then pure (.ends ⟨first, others⟩)
          else unexpected "initializer expression"
        | [] => unexpected "initializer expression" :
          Parser (Turn (Nat × List Token) RawRun)) >>= turn (initializerFrom stops)) c s := by
  rcases tokens with _ | ⟨first, others⟩
  · rfl
  rw [initializerEnd, bind_of_look peek_apply]
  dsimp only
  by_cases hstop : (tokenAt c s.rest 0).isOperator stops = true
  · rw [if_pos hstop, if_pos ⟨h hstop, hstop⟩]
    rfl
  · rw [if_neg hstop, if_neg fun hboth => hstop hboth.2]
    rfl

theorem initializerFrom_unfold (stops : List String) (progress : Nat × List Token) :
    initializerFrom stops progress c s =
      (initializerRound stops progress >>= turn (initializerFrom stops)) c s := by
  obtain ⟨depth, tokens⟩ := progress
  obtain ⟨rest, types⟩ := s
  rw [initializerRound, bind_assoc, bind_of_look peek_apply]
  rcases rest with _ | ⟨t, rest⟩
  · have hnone : (tokenAt c (State.mk [] types).rest 0).isOperator stops = true → depth = 0 := nofun
    rw [@initializerFrom_apply c ⟨[], types⟩ stops depth tokens [] [] rfl rfl, List.append_nil]
    exact initializerEnd_of_depth tokens hnone
  have hhead : tokenAt c (State.mk (t :: rest) types).rest 0 = t := rfl
  rw [hhead]
  by_cases hstops : t.isEnd = true ∨ depth = 0 ∧ t.isOperator (stops ++ closers) = true
  · have hspan : initializerSpan stops depth (t :: rest) = [] := if_pos hstops
    have hzero (hstop : t.isOperator stops = true) : depth = 0 :=
      (hstops.resolve_left (by simp [Token.isEnd_of_isOperator hstop])).1
    rw [if_pos hstops,
      @initializerFrom_apply c ⟨t :: rest, types⟩ stops depth tokens [] _ hspan rfl, List.append_nil]
    exact initializerEnd_of_depth tokens hzero
  · have hspan : initializerSpan stops depth (t :: rest) =
        t :: initializerSpan stops (nesting depth t) rest := if_neg hstops
    have hfront : initializerSpan stops (nesting depth t) rest <+: rest :=
      initializerSpan_prefix (nesting depth t) rest
    obtain ⟨behind, hbehind⟩ := hfront
    have hinside : (tokenAt c (State.mk (t :: rest) types).rest 0).isEnd = false :=
      Bool.not_eq_true _ ▸ (not_or.1 hstops).1
    rw [if_neg hstops, bind_assoc, pop_bind_of_inside hinside, pure_bind, turn, id_map,
      @initializerFrom_apply c ⟨t :: rest, types⟩ stops depth tokens _ behind hspan
        (congrArg (t :: ·) hbehind.symm)]
    have hnext := @initializerFrom_apply c ⟨rest, types⟩ stops (nesting depth t) (tokens ++ [t]) _
      behind rfl hbehind.symm
    rw [List.append_assoc] at hnext
    exact hnext.symm

theorem advances_initializerRound (stops : List String) : Advances (initializerRound stops) := by
  refine advances_of_faultless (fun progress _ => ?_) fun {progress _ _ _ _ _} _ h => ?_
  · refine faultless_bind (faultless_gets _) fun t => faultless_ite ?_ <|
      faultless_bind faultless_pop fun _ => faultless_pure _
    split
    · exact faultless_ite (faultless_pure _) (faultless_unexpected _)
    · exact faultless_unexpected _
  · rw [initializerRound, reads_peek_bind] at h
    split at h
    · split at h
      · split at h
        · cases (reads_pure.1 h).1
        · exact absurd h not_reads_unexpected
      · exact absurd h not_reads_unexpected
    next hinside =>
    obtain ⟨t, s₁, hpop, h⟩ := reads_bind.1 h
    obtain ⟨-, rfl⟩ := reads_pure.1 h
    exact length_lt_of_reads_pop (Bool.not_eq_true _ ▸ fun hend => hinside (.inl hend)) hpop

theorem runs_initializer (stops : List String) :
    Runs (initializer stops) (initializerRound stops) (0, []) :=
  runs_of_unfold (advances_initializerRound stops)
    (fun progress _ _ _ _ => initializerFrom_unfold stops progress) (0, [])

end Flattener.Parser
