import Flattener.Proofs.Grammar.Scopes

/-!
# Rounds and their number

A scope ends, or it goes on with a round (`scopeItems_succ`). The number of
rounds is there to make the recursion end and plays no other part: what a parser
does with some rounds it does with any number more of them, unless it ran out of
them (`Approximates`, `approximates_scopeItems`).
-/

namespace Flattener.Parser

variable {α β : Type} {c : Context} {s : State} {n : Nat} {nested : Bool}

/-! ## One round of a scope -/

/-- A statement that is passed through, in front of other items. -/
def statementThen (others : Parser (List Item)) : Parser (List Item) := do
  let tokens ← rawStatement
  let behind ← others
  return Item.consRaw tokens behind

/-- What a round does that does not end the scope. -/
def round (n : Nat) (nested : Bool) : Option Production → Parser (List Item)
  | none => statementThen (scopeItems n nested)
  | some production => do
    match ← attempt (produce (scopeItems n true) production) with
    | some item =>
      let others ← scopeItems n nested
      return item :: others
    | none => statementThen (scopeItems n nested)

/-- A scope ends, or it goes on with a round. -/
theorem scopeItems_succ : scopeItems (n + 1) nested c s =
    if scopeEnds c nested s then ⟨.ok [], s, []⟩
    else round n nested (productionAt c s) c s := by
  have hatEnd : atEnd c s = ⟨.ok (tokenAt c s.rest 0).isEnd, s, []⟩ := rfl
  rw [scopeItems, bind_of_look hatEnd, scopeEnds]
  cases (tokenAt c s.rest 0).isEnd with
  | true => rfl
  | false =>
    rw [if_neg Bool.false_ne_true, bind_of_look checkOperator_apply, Bool.false_or]
    cases nested && (tokenAt c s.rest 0).isOperator [closeBrace] with
    | true => rfl
    | false =>
      rw [if_neg Bool.false_ne_true, if_neg Bool.false_ne_true, bind_of_look selectProduction_apply]
      cases productionAt c s with
      | none => rfl
      | some production => rfl

/-! ## More rounds -/

/-- The second parser does what the first one does, unless that runs out of
    rounds. -/
def Approximates (p q : Parser α) : Prop :=
  ∀ c s, (p c s).result ≠ .error (.misuse .exhausted) → q c s = p c s

theorem approximates_refl (p : Parser α) : p.Approximates p := fun _ _ _ => rfl

theorem Approximates.trans {p q r : Parser α} (h₁ : p.Approximates q) (h₂ : q.Approximates r) :
    p.Approximates r := by
  intro c s h
  have hq := h₁ c s h
  rw [h₂ c s (by rwa [hq]), hq]

/-- What has no rounds left is approximate to everything. -/
theorem approximates_of_exhausted (q : Parser α) :
    (fail (.misuse .exhausted) : Parser α).Approximates q := fun _ _ h => absurd rfl h

theorem approximates_bind {p q : Parser α} {f g : α → Parser β} (hp : p.Approximates q)
    (hf : ∀ a, (f a).Approximates (g a)) : (p >>= f).Approximates (q >>= g) := by
  intro c s h
  rcases hresult : (p c s).result with failure | a
  · rw [bind_of_error hresult] at h
    have hq := hp c s (by rw [hresult]; intro heq; cases heq; exact h rfl)
    rw [bind_of_error hresult, bind_of_error (hq ▸ hresult), hq]
  · rw [bind_of_ok hresult] at h
    have hq := hp c s (by rw [hresult]; exact nofun)
    rw [bind_of_ok hresult, bind_of_ok (hq ▸ hresult), hq, hf a c _ h]

theorem approximates_ite {b : Prop} [Decidable b] {p q p' q' : Parser α} (hp : p.Approximates p')
    (hq : q.Approximates q') : (if b then p else q).Approximates (if b then p' else q') := by
  split
  · exact hp
  · exact hq

theorem approximates_attempt {p q : Parser α} (hp : p.Approximates q) :
    (attempt p).Approximates (attempt q) := by
  intro c s h
  -- to run out of rounds is no error that a trial mends
  have hresult : (p c s).result ≠ .error (.misuse .exhausted) := by
    intro hexhausted
    rw [attempt_of_fatal hexhausted rfl] at h
    exact h rfl
  simp only [attempt, hp c s hresult]

theorem approximates_commaList (p : Parser α) (n : Nat) :
    (commaList p n).Approximates (commaList p (n + 1)) := by
  induction n with
  | zero => exact approximates_of_exhausted _
  | succ n ih =>
    exact approximates_bind (approximates_refl p) fun _ =>
      approximates_bind (approximates_refl _) fun _ =>
        approximates_ite (approximates_bind ih fun _ => approximates_refl _) (approximates_refl _)

theorem approximates_structMembers (n : Nat) :
    (structMembers n).Approximates (structMembers (n + 1)) := by
  induction n with
  | zero => exact approximates_of_exhausted _
  | succ n ih =>
    exact approximates_bind (approximates_refl _) fun _ => approximates_ite (approximates_refl _) <|
      approximates_bind (approximates_refl _) fun _ => approximates_bind ih fun _ =>
        approximates_refl _

theorem approximates_classMembers (n : Nat) (access : Access) :
    (classMembers n access).Approximates (classMembers (n + 1) access) := by
  induction n generalizing access with
  | zero => exact approximates_of_exhausted _
  | succ n ih =>
    refine approximates_bind (approximates_refl _) fun _ => approximates_ite (approximates_refl _) ?_
    refine approximates_bind (approximates_refl _) fun t => ?_
    dsimp only
    split
    · exact approximates_bind (approximates_refl _) fun _ =>
        approximates_bind (approximates_refl _) fun _ => ih _
    · exact approximates_bind (approximates_refl _) fun _ =>
        approximates_bind (approximates_refl _) fun _ => approximates_bind (ih _) fun _ =>
          approximates_refl _

theorem approximates_produce {body body' : Parser (List Item)} (h : body.Approximates body')
    (production : Production) :
    (produce body production).Approximates (produce body' production) := by
  cases production with
  | namespaceDecl =>
    exact approximates_bind (approximates_refl _) fun _ => approximates_bind (approximates_refl _)
      fun _ => approximates_bind (approximates_refl _) fun _ => approximates_bind h fun _ =>
        approximates_refl _
  | classDecl => exact approximates_refl _
  | structDecl => exact approximates_refl _
  | declaration => exact approximates_refl _

theorem approximates_round {n : Nat} (h : ∀ nested, (scopeItems n nested).Approximates
    (scopeItems (n + 1) nested)) (nested : Bool) (production : Option Production) :
    (round n nested production).Approximates (round (n + 1) nested production) := by
  have hstatement : (statementThen (scopeItems n nested)).Approximates
      (statementThen (scopeItems (n + 1) nested)) :=
    approximates_bind (approximates_refl _) fun _ => approximates_bind (h nested) fun _ =>
      approximates_refl _
  cases production with
  | none => exact hstatement
  | some production =>
    refine approximates_bind (approximates_attempt (approximates_produce (h true) production))
      fun item => ?_
    cases item with
    | none => exact hstatement
    | some item => exact approximates_bind (h nested) fun _ => approximates_refl _

theorem approximates_scopeItems (n : Nat) (nested : Bool) :
    (scopeItems n nested).Approximates (scopeItems (n + 1) nested) := by
  induction n generalizing nested with
  | zero => exact approximates_of_exhausted _
  | succ n ih =>
    intro c s h
    -- whether the scope ends does not depend on the rounds that are left
    rw [scopeItems_succ] at h ⊢
    rw [scopeItems_succ]
    split at h
    · next hends => rw [if_pos hends, if_pos hends]
    · next hends =>
      rw [if_neg hends, if_neg hends]
      exact approximates_round ih nested _ c s h

/-- A parser that takes its rounds one more at a time can be given any number more. -/
theorem approximates_of_le {p : Nat → Parser α} (h : ∀ n, (p n).Approximates (p (n + 1)))
    {n m : Nat} (hle : n ≤ m) : (p n).Approximates (p m) := by
  induction hle with
  | refl => exact approximates_refl _
  | step _ ih => exact ih.trans (h _)

end Flattener.Parser
