import Flattener.Proofs.Grammar.Reading

/-!
# One token at a time

Nearly everything that a parser does, it does by looking at the next token
through a *view*: a partial function of tokens. If the view makes something of
the token, the token is consumed. If not, the token is left where it is, and
either the parser fails with an unexpected token (`demand`) or it goes on
without (`accept`). The small parsers are these two with different views
(`popName_eq`, `expectOperator_eq`, `matchOperator_eq`), so that what holds of
the two holds of all of them.
-/

namespace Flattener.Parser

variable {α β : Type} {c : Context} {s : State}

/-! ## Looking -/

/-- Behind a parser that only looks, another one goes on as if it came first. -/
theorem bind_of_look {p : Parser α} {a : α} (h : p c s = ⟨.ok a, s, []⟩) (f : α → Parser β) :
    (p >>= f) c s = f a c s := by
  have hresult : (p c s).result = .ok a := by rw [h]
  rw [bind_of_ok hresult, h]
  rfl

/-- A token that is not the end of input is consumed. -/
theorem pop_of_inside (h : (tokenAt c s.rest 0).isEnd = false) :
    pop c s = ⟨.ok (tokenAt c s.rest 0), ⟨s.rest.tail, s.types⟩, []⟩ := by
  rw [pop, behindNext_of_inside h]

theorem pop_bind_of_inside (h : (tokenAt c s.rest 0).isEnd = false) (f : Token → Parser β) :
    (pop >>= f) c s = f (tokenAt c s.rest 0) c ⟨s.rest.tail, s.types⟩ := by
  rw [bind_of_ok (congrArg Step.result (pop_of_inside h)), pop_of_inside h]
  rfl

theorem peek_apply : peek c s = ⟨.ok (tokenAt c s.rest 0), s, []⟩ := rfl

theorem checkOperator_apply {spelling : String} : checkOperator spelling c s =
    ⟨.ok ((tokenAt c s.rest 0).isOperator [spelling]), s, []⟩ := rfl

/-! ## Views -/

/-- The next token, which has to be one that the view makes something of. -/
def demand (view : Token → Option α) (expected : String) : Parser α := do
  match view (← peek) with
  | some a =>
    let _ ← pop
    return a
  | none => unexpected expected

/-- The next token, which is consumed if the view makes something of it. -/
def accept (view : Token → Option α) : Parser (Option α) := do
  match view (← peek) with
  | some a =>
    let _ ← pop
    return some a
  | none => return none

/-- The view makes nothing of the end of input. -/
def Blind (view : Token → Option α) : Prop :=
  ∀ stop, view (.ending stop) = none

theorem Blind.isEnd_eq_false {view : Token → Option α} (hview : Blind view) {t : Token} {a : α}
    (h : view t = some a) : t.isEnd = false := by
  by_contra hend
  rw [Bool.not_eq_false] at hend
  rw [t.eq_ending hend, hview] at h
  cases h

/-- An operator with one spelling. -/
def operatorView (spelling : String) (t : Token) : Option Token :=
  if t.isOperator [spelling] then some t else none

/-- A keyword. -/
def keywordView (name : String) (t : Token) : Option Token :=
  if t.isKeyword [name] then some t else none

/-- An integer and its value. -/
def integerView (t : Token) : Option (Token × Nat) :=
  match t.lexeme with
  | .integer _ value => some (t, value)
  | _ => none

theorem blind_name : Blind Token.name? := fun _ => rfl

theorem blind_operator (spelling : String) : Blind (operatorView spelling) := fun _ => rfl

theorem blind_keyword (name : String) : Blind (keywordView name) := fun _ => rfl

theorem blind_integer : Blind integerView := fun _ => rfl

theorem blind_label : Blind labelAccess? := fun _ => rfl

/-! ## What the two do -/

/-- The token at hand is not one that is demanded: it is left, and named. -/
theorem demand_of_none {view : Token → Option α} {expected : String}
    (h : view (tokenAt c s.rest 0) = none) :
    demand view expected c s = ⟨.error (.invalid (errorAt c (tokenAt c s.rest 0)
      (.unexpectedToken (tokenAt c s.rest 0).describe (some expected)))), s, []⟩ := by
  rw [demand, bind_of_look peek_apply, h]
  rfl

theorem demand_of_some {view : Token → Option α} (hview : Blind view) {expected : String} {a : α}
    (h : view (tokenAt c s.rest 0) = some a) :
    demand view expected c s = ⟨.ok a, ⟨s.rest.tail, s.types⟩, []⟩ := by
  rw [demand, bind_of_look peek_apply, h]
  exact pop_bind_of_inside (hview.isEnd_eq_false h) _

theorem accept_of_none {view : Token → Option α} (h : view (tokenAt c s.rest 0) = none) :
    accept view c s = ⟨.ok none, s, []⟩ := by
  rw [accept, bind_of_look peek_apply, h]
  rfl

theorem accept_of_some {view : Token → Option α} (hview : Blind view) {a : α}
    (h : view (tokenAt c s.rest 0) = some a) :
    accept view c s = ⟨.ok (some a), ⟨s.rest.tail, s.types⟩, []⟩ := by
  rw [accept, bind_of_look peek_apply, h]
  exact pop_bind_of_inside (hview.isEnd_eq_false h) _

theorem accept_bind (view : Token → Option α) (g : Option α → Parser β) :
    accept view >>= g = peek >>= fun t =>
      match view t with
      | some a => pop >>= fun _ => g (some a)
      | none => g none := by
  rw [accept, bind_assoc]
  refine congrArg (peek >>= ·) (funext fun t => ?_)
  cases view t with
  | none => exact pure_bind none g
  | some a => exact (bind_assoc _ _ _).trans (congrArg (pop >>= ·) (funext fun _ => pure_bind _ g))

/-! ## The small parsers -/

theorem popName_eq (expected : String) : popName expected = demand Token.name? expected := by
  funext c s
  rw [popName, demand, bind_of_look peek_apply, bind_of_look peek_apply]
  cases (tokenAt c s.rest 0).name? <;> rfl

theorem popInteger_eq (expected : String) : popInteger expected = demand integerView expected := by
  funext c s
  rw [popInteger, demand, bind_of_look peek_apply, bind_of_look peek_apply, integerView]
  cases (tokenAt c s.rest 0).lexeme <;> rfl

theorem expectOperator_eq (spelling : String) :
    expectOperator spelling = demand (operatorView spelling) s!"'{spelling}'" := by
  funext c s
  rw [expectOperator, expectOperatorAs, demand, bind_of_look checkOperator_apply,
    bind_of_look peek_apply, operatorView]
  cases (tokenAt c s.rest 0).isOperator [spelling] <;> rfl

theorem expectKeyword_eq (name : String) :
    expectKeyword name = demand (keywordView name) s!"keyword '{name}'" := by
  funext c s
  rw [expectKeyword, demand, bind_of_look peek_apply, bind_of_look peek_apply, keywordView]
  cases (tokenAt c s.rest 0).isKeyword [name] <;> rfl

theorem matchOperator_eq (spelling : String) :
    matchOperator spelling = accept (operatorView spelling) := by
  funext c s
  rw [matchOperator, accept, bind_of_look checkOperator_apply, bind_of_look peek_apply, operatorView]
  cases (tokenAt c s.rest 0).isOperator [spelling] <;> rfl

theorem matchKeyword_eq (name : String) : matchKeyword name = accept (keywordView name) := by
  funext c s
  rw [matchKeyword, accept, bind_of_look peek_apply, bind_of_look peek_apply, keywordView]
  cases (tokenAt c s.rest 0).isKeyword [name] <;> rfl

/-! ## Members -/

/-- The brace of a body is the token that the error stands at. -/
theorem functionTail_eq (returns : TypeRef) (name : Name) (isMethod : Bool) :
    functionTail returns name isMethod = (do
      let list ← parameterList
      let t ← peek
      if isMethod && t.isOperator [openBrace] then failAt t (.unimplemented "method bodies")
      else
        let _ ← expectOperator ";"
        return ⟨name, returns, list⟩) := by
  refine congrArg (parameterList >>= ·) (funext fun list => ?_)
  funext c s
  rw [bind_of_look checkOperator_apply, bind_of_look peek_apply]
  split
  · rfl
  · rfl

/-- A label in front of members is consumed if there is one. -/
theorem classMembers_succ (n : Nat) (access : Access) : classMembers (n + 1) access = (do
    if ← checkOperator closeBrace then return []
    else
      match ← accept labelAccess? with
      | some label =>
        let _ ← expectOperator ":"
        classMembers n label
      | none =>
        let overrides := (← matchKeyword "override").isSome
        let first ← classMember (if overrides then .overrideAccess else access)
        let others ← classMembers n access
        return first :: others) := by
  refine congrArg (checkOperator closeBrace >>= ·) (funext fun closes => ?_)
  refine congrArg (ite (closes = true) (pure []) ·) ?_
  rw [accept_bind]
  refine congrArg (peek >>= ·) (funext fun t => ?_)
  cases labelAccess? t with
  | none => rfl
  | some label => rfl

end Flattener.Parser
