import Flattener.Grammar.Session
import Flattener.Proofs.Grammar.Movement
import Flattener.Proofs.TypeNames.History
import Mathlib.Logic.Relation

/-!
# Savepoints

A savepoint is two numbers, a position and a length of the history. What is done to a
session in the meantime (`ParseSession.Step`) may move it anywhere, register names, undo
registrations and go back to other savepoints. As long as the history does not get
shorter than the savepoint has it, what was there at first is the head of the history,
and it was only added to (`ParseSession.Extends`). So the way back is there, and leads to
the very session of which the savepoint was taken (`ParseSession.restore_snapshot`).
-/

namespace Flattener

namespace ParseSession

variable {s s' s'' : ParseSession}

/-- What can be done to a session. Parsers that only move are all those of the grammar,
    from taking or matching a token to whole productions. A savepoint may be any, and
    what is refused has been tried. To take a savepoint changes nothing. -/
inductive Step (s : ParseSession) : ParseSession → Prop
  | run {α : Type} (p : Parser α) : p.Moves → Step s (s.run p).2
  | register (name : String) : Step s (s.register name)
  | rollbackTo (size : Int) : Step s (s.rollbackTo size).2
  | moveTo (position : Int) : Step s (s.moveTo position)
  | restore (point : Savepoint) : Step s (s.restore point).2

/-- A step behind which the history is not shorter than a savepoint has it. -/
def StepAbove (point : Savepoint) (s s' : ParseSession) : Prop :=
  s.Step s' ∧ point.historyLength ≤ s'.types.mark

/-- The later session has the same tokens, and all registrations of the earlier one at
    the head of its history. -/
structure Extends (s s' : ParseSession) : Prop where
  context : s'.context = s.context
  tokens : s'.tokens = s.tokens
  types : ∃ names, s'.types = s.types.registerAll names

theorem extends_refl (s : ParseSession) : s.Extends s :=
  ⟨rfl, rfl, [], rfl⟩

theorem Extends.consistent (h : s.Extends s') (hs : s.types.Consistent) : s'.types.Consistent := by
  obtain ⟨names, htypes⟩ := h.types
  rw [htypes]
  exact TypeNames.consistent_registerAll hs names

/-! ## One step -/

theorem rollbackTo_of_ok {size : Int} {types : TypeNames} {gone : List String}
    (h : s.types.rollbackTo size = .ok (types, gone)) :
    s.rollbackTo size = (.ok (), { s with types := types }) := by
  rw [ParseSession.rollbackTo, h]

theorem rollbackTo_of_error {size : Int} {fault : Fault}
    (h : s.types.rollbackTo size = .error fault) : s.rollbackTo size = (.error fault, s) := by
  rw [ParseSession.rollbackTo, h]

theorem Extends.run (hs : s.types.Consistent) (h : s.Extends s') {α : Type} {p : Parser α}
    (hp : p.Moves) : s.Extends (s'.run p).2 := by
  rw [ParseSession.run]
  split
  · exact h
  · next rest _ =>
    obtain ⟨names, htypes⟩ := h.types
    obtain ⟨-, more, hmore⟩ := hp s'.context ⟨rest, s'.types⟩ (h.consistent hs)
    refine ⟨h.context, h.tokens, names ++ more, ?_⟩
    show (p s'.context ⟨rest, s'.types⟩).state.types = _
    rw [hmore, htypes, TypeNames.registerAll_append]

theorem Extends.register (h : s.Extends s') (name : String) : s.Extends (s'.register name) := by
  obtain ⟨names, htypes⟩ := h.types
  refine ⟨h.context, h.tokens, names ++ [name], ?_⟩
  rw [TypeNames.registerAll_append, ← htypes]
  rfl

theorem Extends.moveTo (h : s.Extends s') (position : Int) : s.Extends (s'.moveTo position) :=
  ⟨h.context, h.tokens, h.types⟩

/-- A rollback that leaves what was there at first undoes only what came behind. -/
theorem Extends.rollbackTo (hs : s.types.Consistent) (h : s.Extends s') {size : Int}
    (hmark : s.types.mark ≤ (s'.rollbackTo size).2.types.mark) :
    s.Extends (s'.rollbackTo size).2 := by
  obtain ⟨names, htypes⟩ := h.types
  cases hback : s'.types.rollbackTo size with
  | error fault =>
    rw [rollbackTo_of_error hback]
    exact h
  | ok found =>
    obtain ⟨types, gone⟩ := found
    rw [rollbackTo_of_ok hback] at hmark ⊢
    have hsize : types.mark = size := TypeNames.mark_of_rollbackTo hback
    have hle : s.types.mark ≤ types.mark := hmark
    have hwithin : size ≤ s.types.mark + names.length := by
      have hfits : ¬(size < 0 ∨ s'.types.mark < size) := fun houtside => by
        rw [TypeNames.rollbackTo_of_outside houtside] at hback
        cases hback
      rw [htypes, TypeNames.mark_registerAll] at hfits
      omega
    obtain ⟨gone', hkept⟩ :=
      TypeNames.rollbackTo_registerAll_of_le hs (by omega) hwithin
    rw [← htypes, hback] at hkept
    exact ⟨h.context, h.tokens, _, (Prod.mk.inj (Except.ok.inj hkept)).1⟩

/-- No step touches what was there at first, unless the history gets shorter than that. -/
theorem Extends.step (hs : s.types.Consistent) (h : s.Extends s')
    (hstep : s'.StepAbove s.snapshot s'') : s.Extends s'' := by
  obtain ⟨hstep, hmark⟩ := hstep
  have hmark : s.types.mark ≤ s''.types.mark := Int.ofNat_le.1 hmark
  cases hstep with
  | run p hp => exact h.run hs hp
  | register name => exact h.register name
  | rollbackTo size => exact h.rollbackTo hs hmark
  | moveTo position => exact h.moveTo position
  | restore point => exact (h.moveTo point.position).rollbackTo hs hmark

/-! ## Runs of steps -/

theorem extends_of_stepsAbove (hs : s.types.Consistent)
    (h : Relation.ReflTransGen (StepAbove s.snapshot) s s') : s.Extends s' := by
  induction h with
  | refl => exact s.extends_refl
  | tail _ hstep ih => exact ih.step hs hstep

/-- A session that was opened on tokens has consistent type names at any time. -/
theorem consistent_of_steps {builtins lines : List String} {tokens : List Token}
    (hopen : ofTokens builtins lines tokens = .ok s) (h : Relation.ReflTransGen Step s s') :
    s'.types.Consistent := by
  obtain ⟨hempty, hconsistent⟩ : s.types.mark = 0 ∧ s.types.Consistent := by
    unfold ofTokens at hopen
    cases hsplit : splitEnd tokens with
    | error fault =>
      rw [hsplit] at hopen
      cases hopen
    | ok found =>
      rw [hsplit] at hopen
      cases hopen
      exact ⟨rfl, TypeNames.consistent_ofBuiltins builtins⟩
  -- the history cannot get shorter than an empty one
  have habove : ∀ s₁ s₂ : ParseSession, s₁.Step s₂ → s₁.StepAbove s.snapshot s₂ := fun _ _ hstep =>
    ⟨hstep, Int.ofNat_le.2 (hempty ▸ Nat.zero_le _)⟩
  have hextends := extends_of_stepsAbove hconsistent (Relation.ReflTransGen.mono habove _ _ h)
  exact hextends.consistent hconsistent

theorem Extends.restore (hs : s.types.Consistent) (h : s.Extends s') :
    s'.restore s.snapshot = (.ok (), s) := by
  obtain ⟨names, htypes⟩ := h.types
  obtain ⟨gone, hback⟩ := TypeNames.rollbackTo_registerAll hs names
  rw [← htypes] at hback
  have hrestored : (s'.moveTo s.position).rollbackTo s.types.mark =
      (.ok (), { s'.moveTo s.position with types := s.types }) := rollbackTo_of_ok hback
  refine hrestored.trans (congrArg (Prod.mk (Except.ok ())) ?_)
  show (⟨s'.context, s'.tokens, s.position, s.types⟩ : ParseSession) = s
  rw [h.context, h.tokens]

/-- Whatever was done to a session before a savepoint was taken of it, and whatever is
    done to it then, as long as its history is never shorter than the savepoint has it:
    to restore the savepoint succeeds, and gives back the session as it was, with its
    position, its history and its types. Then the same holds from there on. -/
theorem restore_snapshot {builtins lines : List String} {tokens : List Token}
    {opened : ParseSession} (hopen : ofTokens builtins lines tokens = .ok opened)
    (hs : Relation.ReflTransGen Step opened s)
    (h : Relation.ReflTransGen (StepAbove s.snapshot) s s') :
    s'.restore s.snapshot = (.ok (), s) ∧
    ∀ s'', Relation.ReflTransGen (StepAbove s.snapshot) (s'.restore s.snapshot).2 s'' →
      s''.restore s.snapshot = (.ok (), s) := by
  have hconsistent := consistent_of_steps hopen hs
  have hrestored := (extends_of_stepsAbove hconsistent h).restore hconsistent
  refine ⟨hrestored, fun s'' hagain => ?_⟩
  rw [hrestored] at hagain
  exact (extends_of_stepsAbove hconsistent hagain).restore hconsistent

/-- A session on the tokens of `a * b`. -/
def productSession : ParseSession :=
  ⟨⟨default, []⟩, [⟨.identifier "a", default⟩, ⟨.operator "*", default⟩, ⟨.identifier "b", default⟩],
    0, .ofBuiltins ["int"]⟩

/-- Behind the first token, which has become a type. -/
def markedSession : ParseSession :=
  (productSession.run (Parser.register "struct name")).2

/-- The star was matched and the type registered again, where an inner savepoint is
    taken; behind one more token and one more type the outer savepoint is restored, and
    then the inner one, whose history is gone by then. -/
def strayedSession : ParseSession :=
  let inner := (markedSession.run (Parser.matchOperator "*")).2.register "a"
  let outer := (((inner.run Parser.pop).2.register "c").restore markedSession.snapshot).2
  ((outer.restore inner.snapshot).2.rollbackTo 1).2.register "d"

theorem restore_snapshot_strayedSession :
    strayedSession.position = 2 ∧ strayedSession.types.history = ["a", "d"] ∧
    strayedSession.restore markedSession.snapshot = (.ok (), markedSession) ∧
    markedSession.position = 1 ∧ markedSession.types.history = ["a"] ∧
    ((strayedSession.restore markedSession.snapshot).2.register "e").restore
      markedSession.snapshot = (.ok (), markedSession) := by
  have hopen : ofTokens ["int"] [] productSession.allTokens = .ok productSession := rfl
  have hmarked : Relation.ReflTransGen Step productSession markedSession :=
    .single (.run _ (Parser.moves_register _))
  have hstrayed : Relation.ReflTransGen (StepAbove markedSession.snapshot) markedSession
      strayedSession :=
    .head ⟨.run _ (Parser.moves_matchOperator "*"), by decide⟩ <|
    .head ⟨.register "a", by decide⟩ <|
    .head ⟨.run _ Parser.moves_pop, by decide⟩ <|
    .head ⟨.register "c", by decide⟩ <|
    .head ⟨.restore markedSession.snapshot, by decide⟩ <|
    .head ⟨.restore ⟨2, 2⟩, by decide⟩ <|
    .head ⟨.rollbackTo 1, by decide⟩ <|
    .single ⟨.register "d", by decide⟩
  obtain ⟨hrestored, hagain⟩ := restore_snapshot hopen hmarked hstrayed
  exact ⟨rfl, by decide, hrestored, rfl, by decide,
    hagain _ (.single ⟨.register "e", by decide⟩)⟩

end ParseSession

end Flattener
