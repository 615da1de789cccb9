import Flattener.Proofs.Grammar.Aggregates
import Flattener.Proofs.Grammar.Movement
import Flattener.Proofs.Grammar.Views

/-!
# Rounds of a scope

A scope is read in rounds. Each of them ends the scope, reads an item by the
production that the next tokens call for (`productionAt`), or passes through a
statement (`reads_scopeItems_succ`). The state in which a statement begins is
the one in which the round began, whatever was tried and given up in between.
-/

namespace Flattener.Parser

variable {c : Context} {s s' : State} {nested : Bool} {n : Nat}

/-- A scope ends here: at the end of input, or in front of the brace that closes
    the braces around it. -/
def scopeEnds (c : Context) (nested : Bool) (s : State) : Bool :=
  (tokenAt c s.rest 0).isEnd || nested && (tokenAt c s.rest 0).isOperator [closeBrace]

/-- The next tokens begin a declaration. -/
def declarationAt (c : Context) (s : State) : Bool :=
  match (tokenAt c s.rest 0).name? with
  | none => false
  | some name => s.types.isType name.text || (tokenAt c s.rest 1).name?.isSome

/-- The production that the next tokens call for. -/
def productionAt (c : Context) (s : State) : Option Production :=
  if (tokenAt c s.rest 0).isKeyword ["namespace"] then some .namespaceDecl
  else if (tokenAt c s.rest 0).isKeyword ["class"] then some .classDecl
  else if (tokenAt c s.rest 0).isKeyword ["struct"] then some .structDecl
  else if declarationAt c s then some .declaration
  else none

/-- Choosing a production is a look at the state. -/
theorem selectProduction_apply : selectProduction c s = ⟨.ok (productionAt c s), s, []⟩ := by
  rw [selectProduction, bind_of_look peek_apply, productionAt]
  by_cases hnamespace : (tokenAt c s.rest 0).isKeyword ["namespace"] = true
  · rw [if_pos hnamespace, if_pos hnamespace]
    rfl
  rw [if_neg hnamespace, if_neg hnamespace]
  by_cases hclass : (tokenAt c s.rest 0).isKeyword ["class"] = true
  · rw [if_pos hclass, if_pos hclass]
    rfl
  rw [if_neg hclass, if_neg hclass]
  by_cases hstruct : (tokenAt c s.rest 0).isKeyword ["struct"] = true
  · rw [if_pos hstruct, if_pos hstruct]
    rfl
  rw [if_neg hstruct, if_neg hstruct]
  have hstarts : startsDeclaration c s = ⟨.ok (declarationAt c s), s, []⟩ := rfl
  rw [bind_of_look hstarts]
  cases declarationAt c s <;> rfl

theorem reads_selectProduction_bind {α : Type} {f : Option Production → Parser α} {a : α} :
    (selectProduction >>= f).Reads c s a s' ↔ (f (productionAt c s)).Reads c s a s' := by
  rw [Reads, bind_of_look selectProduction_apply, Reads]

/-- A namespace is read of its keyword, its name and braces around its items. -/
theorem reads_namespaceDecl {body : Parser (List Item)} {item : Item} :
    (namespaceDecl body).Reads c s item s' ↔ ∃ keyword name opening closing children s₁,
      keyword.isKeyword ["namespace"] = true ∧ name.text ∉ keywords ∧
      opening.isOperator [openBrace] = true ∧ closing.isOperator [closeBrace] = true ∧
      s = s₁.behind [keyword, name.token, opening] ∧
      body.Reads c s₁ children (s'.behind [closing]) ∧ item = .namespaceDecl name children := by
  simp only [namespaceDecl, reads_bind, reads_expectKeyword, reads_popName, reads_expectOperator,
    reads_pure]
  constructor
  · rintro ⟨keyword, _, ⟨hkeyword, rfl⟩, name, _, ⟨hkey, rfl⟩, opening, s₁, ⟨hopen, rfl⟩, children,
      _, hchildren, closing, _, ⟨hclose, rfl⟩, rfl, rfl⟩
    exact ⟨keyword, name, opening, closing, children, s₁, hkeyword, hkey, hopen, hclose, rfl,
      hchildren, rfl⟩
  · rintro ⟨keyword, name, opening, closing, children, s₁, hkeyword, hkey, hopen, hclose, rfl,
      hchildren, rfl⟩
    exact ⟨keyword, s₁.behind [name.token, opening], ⟨hkeyword, rfl⟩, name, s₁.behind [opening],
      ⟨hkey, rfl⟩, opening, s₁, ⟨hopen, rfl⟩, children, _, hchildren, closing, s', ⟨hclose, rfl⟩,
      rfl, rfl⟩

/-- What one round does. -/
theorem reads_scopeItems_succ {items : List Item} (hs : s.types.Consistent) :
    (scopeItems (n + 1) nested).Reads c s items s' ↔
      (scopeEnds c nested s = true ∧ items = [] ∧ s' = s) ∨
      (scopeEnds c nested s = false ∧ ∃ production item others s₁,
        productionAt c s = some production ∧
        (produce (scopeItems n true) production).Reads c s item s₁ ∧
        (scopeItems n nested).Reads c s₁ others s' ∧ items = item :: others) ∨
      (scopeEnds c nested s = false ∧
        (∀ production, productionAt c s = some production →
          (attempt (produce (scopeItems n true) production)).Reads c s none s) ∧
        ∃ tokens others s₁, rawStatement.Reads c s tokens s₁ ∧
          (scopeItems n nested).Reads c s₁ others s' ∧ items = Item.consRaw tokens others) := by
  have hraw : (do
      let tokens ← rawStatement
      let others ← scopeItems n nested
      return Item.consRaw tokens others : Parser (List Item)).Reads c s items s' ↔
        ∃ tokens others s₁, rawStatement.Reads c s tokens s₁ ∧
          (scopeItems n nested).Reads c s₁ others s' ∧ items = Item.consRaw tokens others := by
    simp only [reads_bind, reads_pure]
    exact ⟨fun ⟨tokens, s₁, htokens, others, _, hothers, hitems, hs₂⟩ =>
      ⟨tokens, others, s₁, htokens, hs₂ ▸ hothers, hitems⟩,
      fun ⟨tokens, others, s₁, htokens, hothers, hitems⟩ =>
      ⟨tokens, s₁, htokens, others, s', hothers, hitems, rfl⟩⟩
  rw [scopeItems, reads_atEnd_bind, scopeEnds]
  cases hend : (tokenAt c s.rest 0).isEnd with
  | true =>
    rw [reads_if_pos rfl, reads_pure]
    simp [eq_comm]
  | false =>
    rw [reads_if_neg Bool.false_ne_true, reads_checkOperator_bind, Bool.false_or]
    cases hclose : nested && (tokenAt c s.rest 0).isOperator [closeBrace] with
    | true =>
      rw [reads_if_pos rfl, reads_pure]
      simp [eq_comm]
    | false =>
      rw [reads_if_neg Bool.false_ne_true, reads_selectProduction_bind]
      simp only [Bool.false_eq_true, false_and, false_or, true_and]
      cases hproduction : productionAt c s with
      | none =>
        constructor
        · exact fun h => .inr ⟨nofun, hraw.1 h⟩
        · rintro (⟨_, _, _, _, hsome, -⟩ | ⟨-, h⟩)
          · cases hsome
          · exact hraw.2 h
      | some production =>
        have hmoves := moves_produce (moves_scopeItems n true) production
        simp only [Option.some.injEq, forall_eq']
        rw [reads_bind]
        constructor
        · rintro ⟨_ | item, s₁, hitem, h⟩
          · -- a production that was given up has left the state as it was
            cases eq_of_reads_attempt_none hmoves hs hitem
            exact .inr ⟨hitem, hraw.1 h⟩
          · obtain ⟨others, s₂, hothers, hpure⟩ := reads_bind.1 h
            obtain ⟨rfl, rfl⟩ := reads_pure.1 hpure
            exact .inl ⟨production, item, others, s₁, rfl, (reads_attempt_some hmoves hs).1 hitem,
              hothers, rfl⟩
        · rintro (⟨_, item, others, s₁, rfl, hitem, hothers, rfl⟩ | ⟨hnone, h⟩)
          · exact ⟨some item, s₁, (reads_attempt_some hmoves hs).2 hitem, reads_bind.2
              ⟨others, s', hothers, reads_pure.2 ⟨rfl, rfl⟩⟩⟩
          · exact ⟨none, s, hnone, hraw.2 h⟩

end Flattener.Parser
