import Flattener.Proofs.Grammar.Breaking
import Flattener.Proofs.Grammar.Trials

/-!
# Loops

Lists, members, items, stars, statements and initializers are read in rounds. A round
ends its loop or comes to another round (`Turn`, `loop`). Where each round that does
not end its loop consumes a token (`Advances`), a round for each token and one more
are enough: the loop comes to a result or to an error of the source, and it makes no
difference how many more rounds there could be (`invalid_of_loop`, `loop_eq`). So a
parser that does what the next round says, and then the same again, is the loop of that
round (`Runs`, `Runs.of_unfold`).
-/

namespace Flattener.Parser

variable {σ α β : Type} {c : Context} {s s' : State} {a : σ} {n m : Nat}

/-- What a round comes to: the end of the loop, or another round, whose result is to be
    completed. -/
inductive Turn (σ α : Type)
  | ends (result : α)
  | goes (next : σ) (complete : α → α)

/-- Behind a round, a parser for the others goes on, if there are others. -/
def turn (others : σ → Parser α) : Turn σ α → Parser α
  | .ends result => pure result
  | .goes next complete => complete <$> others next

/-- So many rounds, or fewer if one of them ends the loop. -/
def loop (round : σ → Parser (Turn σ α)) : Nat → σ → Parser α
  | 0, _ => fail (.misuse .exhausted)
  | n + 1, a => round a >>= turn (loop round n)

/-- A round comes to an error of the source, to the end of the loop, or to a state with
    fewer tokens, which are the last ones of those that there were. -/
structure Advances (round : σ → Parser (Turn σ α)) : Prop where
  moves : ∀ a, (round a).Moves
  invalid : ∀ {a : σ} {c : Context} {s : State} {failure : Failure}, s.types.Consistent →
    (round a c s).result = .error failure → ∃ error, failure = .invalid error
  shrinks : ∀ {a : σ} {c : Context} {s s' : State} {next : σ} {complete : α → α},
    s.types.Consistent → (round a).Reads c s (.goes next complete) s' →
      s'.rest.length < s.rest.length

/-- Two parsers in a row, of which the second one may be replaced where it comes to stand. -/
theorem bind_congr_of_reads {p : Parser α} {f g : α → Parser β}
    (h : ∀ a s', p.Reads c s a s' → f a c s' = g a c s') : (p >>= f) c s = (p >>= g) c s := by
  rcases hresult : (p c s).result with failure | a
  · rw [bind_of_error hresult, bind_of_error hresult]
  · rw [bind_of_ok hresult, bind_of_ok hresult, h a _ ⟨hresult, rfl⟩]

/-- The first one may be replaced too, where it does the same. -/
theorem bind_congr_of_eq {p q : Parser α} {f : α → Parser β} (h : p c s = q c s) :
    (p >>= f) c s = (q >>= f) c s := by
  show Parser.bind p f c s = Parser.bind q f c s
  rw [Parser.bind, Parser.bind, h]

theorem map_congr_of_eq {p q : Parser α} {f : α → β} (h : p c s = q c s) :
    (f <$> p) c s = (f <$> q) c s := by
  rw [← bind_pure_comp, ← bind_pure_comp]
  exact bind_congr_of_eq h

theorem error_of_map {p : Parser α} {f : α → β} {failure : Failure}
    (h : ((f <$> p) c s).result = .error failure) : (p c s).result = .error failure := by
  rw [← bind_pure_comp] at h
  rcases hresult : (p c s).result with failure' | a
  · rw [bind_of_error hresult] at h
    cases h
    rfl
  · rw [bind_of_ok hresult] at h
    cases h

section

variable {round : σ → Parser (Turn σ α)}

theorem advances_of_faultless (h : ∀ a n, Faultless n (round a))
    (hshrinks : ∀ {a c s s' next complete}, s.types.Consistent →
      (round a).Reads c s (.goes next complete) s' → s'.rest.length < s.rest.length) :
    Advances round :=
  ⟨fun a => (h a 0).moves, fun hs herror => (h _ _).invalid hs (Nat.lt_succ_self _) herror, hshrinks⟩

/-- Behind a round that goes on, the type names are still what they seem. -/
theorem Advances.consistent (h : Advances round) {found : Turn σ α} (hs : s.types.Consistent)
    (hread : (round a).Reads c s found s') : s'.types.Consistent :=
  hread.2 ▸ (h.moves a c s hs).consistent hs

/-- With a round for each token and one more, a loop comes to its end. -/
theorem invalid_of_loop (h : Advances round) {failure : Failure} (hs : s.types.Consistent)
    (hn : s.rest.length < n) (herror : (loop round n a c s).result = .error failure) :
    ∃ error, failure = .invalid error := by
  induction n generalizing a s with
  | zero => exact absurd hn (Nat.not_lt_zero _)
  | succ n ih =>
    rw [loop] at herror
    rcases hresult : (round a c s).result with failure' | found
    · rw [bind_of_error hresult] at herror
      cases herror
      exact h.invalid hs hresult
    · rw [bind_of_ok hresult] at herror
      cases found with
      | ends result => cases herror
      | goes next complete =>
        have hless := h.shrinks hs ⟨hresult, rfl⟩
        have hbehind := h.consistent hs ⟨hresult, rfl⟩
        exact ih hbehind (by omega) (error_of_map herror)

/-- What satisfies the equation of the loop is the loop, for any number of rounds that is
    large enough. -/
theorem eq_loop_of_unfold (h : Advances round) {p : σ → Parser α}
    (hp : ∀ a c s, s.types.Consistent → Endless s.rest → p a c s = (round a >>= turn p) c s)
    (hs : s.types.Consistent) (hend : Endless s.rest) (hn : s.rest.length < n) :
    p a c s = loop round n a c s := by
  induction n generalizing a s with
  | zero => exact absurd hn (Nat.not_lt_zero _)
  | succ n ih =>
    rw [hp a c s hs hend, loop]
    refine bind_congr_of_reads fun found s₁ hread => ?_
    cases found with
    | ends result => rfl
    | goes next complete =>
      have hless := h.shrinks hs hread
      have hsuffix : s₁.rest <:+ s.rest := hread.2 ▸ (h.moves a c s hs).1
      exact map_congr_of_eq (ih (h.consistent hs hread)
        (fun t ht => hend t (hsuffix.subset ht)) (by omega))

/-- How many more rounds there could be than those that are taken makes no difference. -/
theorem loop_eq (h : Advances round) (hs : s.types.Consistent) (hn : s.rest.length < n)
    (hm : s.rest.length < m) : loop round n a c s = loop round m a c s := by
  induction n generalizing a s m with
  | zero => exact absurd hn (Nat.not_lt_zero _)
  | succ n ih =>
    obtain ⟨m, rfl⟩ := Nat.exists_eq_add_one_of_ne_zero (Nat.ne_zero_of_lt hm)
    rw [loop, loop]
    refine bind_congr_of_reads fun found s₁ hread => ?_
    cases found with
    | ends result => rfl
    | goes next complete =>
      have hless := h.shrinks hs hread
      exact map_congr_of_eq (ih (h.consistent hs hread) (by omega) (by omega))

end

/-- The parser is a loop whose rounds advance, of as many rounds as it takes: a round for
    each token and one more are enough, and it comes to nothing but a result or an error of
    the source. -/
structure Runs (p : Parser α) (round : σ → Parser (Turn σ α)) (a : σ) : Prop where
  advances : Advances round
  eq_loop : ∀ {c : Context} {s : State} {n : Nat}, s.types.Consistent → Endless s.rest →
    s.rest.length < n → p c s = loop round n a c s
  invalid : ∀ {c : Context} {s : State} {failure : Failure}, s.types.Consistent →
    Endless s.rest → (p c s).result = .error failure → ∃ error, failure = .invalid error

theorem Advances.runs {round : σ → Parser (Turn σ α)} (h : Advances round) {p : Parser α}
    (hp : ∀ {c s n}, s.types.Consistent → Endless s.rest → s.rest.length < n →
      p c s = loop round n a c s) : Runs p round a :=
  ⟨h, hp, fun hs hend herror => invalid_of_loop h hs (Nat.lt_succ_self _)
    (hp hs hend (Nat.lt_succ_self _) ▸ herror)⟩

theorem runs_of_unfold {round : σ → Parser (Turn σ α)} (h : Advances round) {p : σ → Parser α}
    (hp : ∀ a c s, s.types.Consistent → Endless s.rest → p a c s = (round a >>= turn p) c s)
    (a : σ) : Runs (p a) round a :=
  h.runs (eq_loop_of_unfold h hp)

/-- What is a loop for every number of rounds runs as it should with a round for each token
    and one more. -/
theorem runs_budgeted {round : σ → Parser (Turn σ α)} {p : Nat → Parser α} (h : Advances round)
    (hp : ∀ n, p n = loop round n a) : Runs (budgeted p) round a :=
  h.runs fun {c s _} hs _ hn => (congrFun (congrFun (hp _) c) s).trans
    (loop_eq h hs (Nat.lt_succ_self _) hn)

/-! ## Lists and members -/

/-- A token that is consumed first stays consumed. -/
theorem shrinks_bind {p : Parser α} {f : α → Parser β} (hp : p.Shrinks) (hmoves : p.Moves)
    (hf : ∀ a, (f a).Moves) : (p >>= f).Shrinks := by
  intro c s b s' hs h
  obtain ⟨a, s₁, hread, hrest⟩ := reads_bind.1 h
  have hbehind : s₁.types.Consistent := hread.2 ▸ (hmoves c s hs).consistent hs
  have hsuffix : s'.rest <:+ s₁.rest := hrest.2 ▸ (hf a c s₁ hbehind).1
  exact hsuffix.length_le.trans_lt (hp hs hread)

/-- Whatever stands in front of it, a token that is consumed next is consumed. -/
theorem shrinks_behind {p : Parser α} {f : α → Parser β} (hmoves : p.Moves)
    (hf : ∀ a, (f a).Shrinks) : (p >>= f).Shrinks := by
  intro c s b s' hs h
  obtain ⟨a, s₁, hread, hrest⟩ := reads_bind.1 h
  have hreaches : s.Reaches s₁ := hread.2 ▸ hmoves c s hs
  exact (hf a (hreaches.consistent hs) hrest).trans_le hreaches.1.length_le

/-- One round of a list: an element, and the comma behind it if there is one. -/
def commaRound (p : Parser α) (_ : Unit) : Parser (Turn Unit (List α)) := do
  let first ← p
  if (← matchOperator ",").isSome then return .goes () (first :: ·) else return .ends [first]

/-- One round of the members of a struct. -/
def structRound (_ : Unit) : Parser (Turn Unit (List Member)) := do
  if ← checkOperator closeBrace then return .ends []
  else
    let first ← structMember
    return .goes () (first :: ·)

/-- One round of the members of a class: a label, or a member. -/
def classRound (access : Access) : Parser (Turn Access (List ClassMember)) := do
  if ← checkOperator closeBrace then return .ends []
  else
    match labelAccess? (← peek) with
    | some label =>
      let _ ← pop
      let _ ← expectOperator ":"
      return .goes label id
    | none =>
      let overrides := (← matchKeyword "override").isSome
      let first ← classMember (if overrides then .overrideAccess else access)
      return .goes access (first :: ·)

theorem commaList_eq_loop (p : Parser α) (n : Nat) : commaList p n = loop (commaRound p) n () := by
  induction n with
  | zero => rfl
  | succ n ih =>
    rw [commaList, loop, commaRound, bind_assoc, ih]
    refine congrArg (p >>= ·) (funext fun first => ?_)
    rw [bind_assoc]
    refine congrArg (matchOperator "," >>= ·) (funext fun comma => ?_)
    split
    · rw [pure_bind, turn, map_eq_pure_bind]
    · rw [pure_bind, turn]

theorem structMembers_eq_loop (n : Nat) : structMembers n = loop structRound n () := by
  induction n with
  | zero => rfl
  | succ n ih =>
    rw [structMembers, loop, structRound, bind_assoc, ih]
    refine congrArg (checkOperator closeBrace >>= ·) (funext fun closes => ?_)
    split
    · rw [pure_bind, turn]
    · rw [bind_assoc]
      refine congrArg (structMember >>= ·) (funext fun first => ?_)
      rw [pure_bind, turn, map_eq_pure_bind]

theorem classMembers_eq_loop (n : Nat) (access : Access) :
    classMembers n access = loop classRound n access := by
  induction n generalizing access with
  | zero => rfl
  | succ n ih =>
    rw [classMembers, loop, classRound, bind_assoc]
    refine congrArg (checkOperator closeBrace >>= ·) (funext fun closes => ?_)
    split
    · rw [pure_bind, turn]
    · rw [bind_assoc]
      refine congrArg (peek >>= ·) (funext fun t => ?_)
      cases labelAccess? t with
      | some label =>
        simp only [bind_assoc, pure_bind, turn, id_map, ih]
      | none =>
        simp only [bind_assoc, pure_bind, turn, map_eq_pure_bind, ih]

theorem advances_commaRound {p : Parser α} (hp : ∀ n, Faultless n p) (hshrinks : p.Shrinks) :
    Advances (commaRound p) := by
  refine advances_of_faultless (fun _ _ => ?_) fun {_ _ _ _ _ _} hs h => ?_
  · exact faultless_bind (hp _) fun _ => faultless_bind (faultless_matchOperator _) fun _ =>
      faultless_ite (faultless_pure _) (faultless_pure _)
  · exact shrinks_bind hshrinks (hp 0).moves (fun _ => moves_bind (moves_matchOperator _) fun _ =>
      moves_ite (moves_pure _) (moves_pure _)) hs h

/-- Members that do not end are consumed, also in front of nothing but the end of input. -/
theorem advances_structRound : Advances structRound := by
  refine advances_of_faultless (fun _ _ => ?_) fun {_ _ _ _ _ _} hs h => ?_
  · exact faultless_bind (faultless_checkOperator _) fun _ => faultless_ite (faultless_pure _) <|
      faultless_bind faultless_structMember fun _ => faultless_pure _
  · rw [structRound, reads_checkOperator_bind] at h
    split at h
    · obtain ⟨heq, -⟩ := reads_pure.1 h
      cases heq
    · exact shrinks_bind shrinks_structMember (@faultless_structMember 0).moves
        (fun _ => moves_pure _) hs h

/-- So are labels. -/
theorem advances_classRound : Advances classRound := by
  refine advances_of_faultless (fun access _ => ?_) fun {access _ _ _ _ _} hs h => ?_
  · refine faultless_bind (faultless_checkOperator _) fun _ => faultless_ite (faultless_pure _) ?_
    refine faultless_bind (faultless_gets _) fun t => ?_
    dsimp only
    split
    · exact faultless_bind faultless_pop fun _ =>
        faultless_bind (faultless_expectOperator _) fun _ => faultless_pure _
    · exact faultless_bind (matchKeyword_eq _ ▸ faultless_accept _) fun _ =>
        faultless_bind (faultless_classMember _) fun _ => faultless_pure _
  · rw [classRound, reads_checkOperator_bind] at h
    split at h
    · obtain ⟨heq, -⟩ := reads_pure.1 h
      cases heq
    rw [reads_peek_bind] at h
    split at h
    · exact shrinks_behind moves_pop (fun _ => shrinks_bind (shrinks_expectOperator ":")
        (moves_expectOperator _) fun _ => moves_pure _) hs h
    · exact shrinks_behind (moves_matchKeyword _) (fun _ => shrinks_bind (shrinks_classMember _)
        (moves_classMember _) fun _ => moves_pure _) hs h

theorem runs_structMembers : Runs (budgeted structMembers) structRound () :=
  runs_budgeted advances_structRound structMembers_eq_loop

theorem runs_classMembers (access : Access) :
    Runs (budgeted fun n => classMembers n access) classRound access :=
  runs_budgeted advances_classRound fun n => classMembers_eq_loop n access

theorem runs_commaList {p : Parser α} (hp : ∀ n, Faultless n p) (hshrinks : p.Shrinks) :
    Runs (budgeted (commaList p)) (commaRound p) () :=
  runs_budgeted (advances_commaRound hp hshrinks) (commaList_eq_loop p)

end Flattener.Parser
