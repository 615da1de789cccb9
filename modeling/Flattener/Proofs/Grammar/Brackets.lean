import Flattener.Grammar.Span
import Flattener.Proofs.Grammar.Reading
import Mathlib.Algebra.Ring.Int.Defs

/-!
# Bracket depth

The depth of a run of tokens counts one up for each opening bracket and one down
for each closing one, of whatever kind. A run is *enclosed* if it closes exactly
the brackets that it opens, holds no stop outside of them, and does not hold the
end of input (`Enclosed`); those are the runs that can be read as initializers
(`reads_initializer`).
-/

namespace Flattener

/-- What a token adds to the bracket depth. -/
def bracketStep (t : Token) : Int :=
  if t.isOperator closers then -1 else if t.isOperator openers then 1 else 0

/-- How many more brackets tokens open than they close. -/
def bracketDepth (tokens : List Token) : Int :=
  (tokens.map bracketStep).sum

/-- None of the tokens is the end of input. -/
def Endless (tokens : List Token) : Prop :=
  ∀ t ∈ tokens, t.isEnd = false

theorem Endless.of_append {first second : List Token} (h : Endless (first ++ second)) :
    Endless second := fun t ht => h t (List.mem_append_right first ht)

/-- Behind brackets of the given depth, the tokens never close more than was
    open, end with nothing open, and hold no stop where nothing is open. -/
structure Enclosed (stops : List String) (depth : Int) (tokens : List Token) : Prop where
  endless : Endless tokens
  nonneg : ∀ front, front <+: tokens → 0 ≤ depth + bracketDepth front
  closed : depth + bracketDepth tokens = 0
  unstopped : ∀ front t, front ++ [t] <+: tokens → depth + bracketDepth front = 0 →
    t.isOperator stops = false

theorem bracketDepth_nil : bracketDepth [] = 0 := rfl

theorem bracketDepth_cons (t : Token) (tokens : List Token) :
    bracketDepth (t :: tokens) = bracketStep t + bracketDepth tokens := rfl

variable {stops : List String}

theorem enclosed_nil {depth : Int} : Enclosed stops depth [] ↔ depth = 0 := by
  constructor
  · intro h
    simpa [bracketDepth_nil] using h.closed
  · rintro rfl
    refine ⟨List.forall_mem_nil _, fun front hfront => ?_, rfl, fun front t hfront => ?_⟩
    · rw [List.prefix_nil.1 hfront, bracketDepth_nil]
      exact Int.le_refl _
    · simp at hfront

/-- What encloses a run of tokens encloses its first token and the others. -/
theorem enclosed_cons {depth : Int} {t : Token} {tokens : List Token} :
    Enclosed stops depth (t :: tokens) ↔
      t.isEnd = false ∧ 0 ≤ depth ∧ (depth = 0 → t.isOperator stops = false) ∧
        Enclosed stops (depth + bracketStep t) tokens := by
  constructor
  · intro h
    have hzero := h.nonneg [] (List.nil_prefix)
    have hfirst := h.unstopped [] t (List.cons_prefix_cons.2 ⟨rfl, List.nil_prefix⟩)
    rw [bracketDepth_nil, Int.add_zero] at hzero hfirst
    obtain ⟨hinside, hendless⟩ := List.forall_mem_cons.1 h.endless
    refine ⟨hinside, hzero, hfirst, hendless, fun front hfront => ?_, ?_,
      fun front u hfront hdepth => ?_⟩
    · rw [Int.add_assoc, ← bracketDepth_cons]
      exact h.nonneg (t :: front) (List.cons_prefix_cons.2 ⟨rfl, hfront⟩)
    · rw [Int.add_assoc, ← bracketDepth_cons]
      exact h.closed
    · rw [Int.add_assoc, ← bracketDepth_cons] at hdepth
      exact h.unstopped (t :: front) u (List.cons_prefix_cons.2 ⟨rfl, hfront⟩) hdepth
  · rintro ⟨hinside, hzero, hfirst, h⟩
    refine ⟨List.forall_mem_cons.2 ⟨hinside, h.endless⟩, fun front hfront => ?_, ?_,
      fun front u hfront hdepth => ?_⟩
    · cases front with
      | nil => rwa [bracketDepth_nil, Int.add_zero]
      | cons u front =>
        obtain ⟨rfl, htail⟩ := List.cons_prefix_cons.1 hfront
        rw [bracketDepth_cons, ← Int.add_assoc]
        exact h.nonneg front htail
    · rw [bracketDepth_cons, ← Int.add_assoc]
      exact h.closed
    · cases front with
      | nil =>
        obtain ⟨rfl, -⟩ := List.cons_prefix_cons.1 hfront
        rw [bracketDepth_nil, Int.add_zero] at hdepth
        exact hfirst hdepth
      | cons v front =>
        obtain ⟨rfl, htail⟩ := List.cons_prefix_cons.1 hfront
        rw [bracketDepth_cons, ← Int.add_assoc] at hdepth
        exact h.unstopped front u htail hdepth

theorem not_enclosed_of_neg {depth : Int} (h : depth < 0) (tokens : List Token) :
    ¬Enclosed stops depth tokens := fun henclosed => by
  have := henclosed.nonneg [] List.nil_prefix
  rw [bracketDepth_nil] at this
  omega

/-- The nesting that a parse follows is the depth, as long as nothing is closed
    that was not opened. -/
theorem nesting_eq {depth : Nat} {t : Token} (h : ¬(depth = 0 ∧ t.isOperator closers = true)) :
    (nesting depth t : Int) = depth + bracketStep t := by
  rw [nesting, bracketStep]
  split
  · next hclose =>
    have : depth ≠ 0 := fun hzero => h ⟨hzero, hclose⟩
    omega
  · split <;> omega

/-- What is no stop closes nothing that was not opened. -/
theorem not_closes_of_goes {depth : Nat} {t : Token}
    (h : ¬(depth = 0 ∧ t.isOperator (stops ++ closers) = true)) :
    ¬(depth = 0 ∧ t.isOperator closers = true) := fun hcloses =>
  h ⟨hcloses.1, by rw [Token.isOperator_append, hcloses.2, Bool.or_true]⟩

theorem bracketStep_of_closer {t : Token} (h : t.isOperator closers = true) :
    bracketStep t = -1 := if_pos h

/-! ## Initializers -/

theorem initializerSpan_prefix (depth : Nat) (tokens : List Token) :
    initializerSpan stops depth tokens <+: tokens := by
  induction tokens generalizing depth with
  | nil => exact List.nil_prefix
  | cons t rest ih =>
    rw [initializerSpan]
    split
    · exact List.nil_prefix
    · exact List.cons_prefix_cons.2 ⟨rfl, ih _⟩

/-- The span in front of a stop is a run of tokens exactly if that run is enclosed. -/
theorem initializerSpan_eq_iff {stop : Token} (hstop : stop.isOperator stops = true)
    (run rest : List Token) (depth : Nat) :
    initializerSpan stops depth (run ++ stop :: rest) = run ↔ Enclosed stops depth run := by
  induction run generalizing depth with
  | nil =>
    rw [enclosed_nil, List.nil_append, initializerSpan, Token.isOperator_append, hstop,
      Token.isEnd_of_isOperator hstop]
    by_cases hzero : depth = 0 <;> simp [hzero]
  | cons t run ih =>
    rw [enclosed_cons, List.cons_append, initializerSpan, Token.isOperator_append]
    cases hinside : t.isEnd with
    | true => simp
    | false =>
      by_cases hclose : depth = 0 ∧ t.isOperator closers = true
      · -- a closing bracket with nothing open stops the span and encloses nothing
        obtain ⟨rfl, hclose⟩ := hclose
        have hneg : ¬Enclosed stops (-1) run := not_enclosed_of_neg (by decide) run
        simp [hclose, bracketStep_of_closer hclose, hneg]
      · have hnesting : (nesting depth t : Int) = depth + bracketStep t :=
          nesting_eq hclose
        rw [← hnesting, ← ih]
        by_cases hzero : depth = 0 <;> by_cases hop : t.isOperator stops = true <;> simp_all

namespace Parser

variable {c : Context} {s s' : State}

/-- An initializer is an enclosed run of tokens in front of a stop. -/
theorem reads_initializer {run : RawRun} :
    (initializer stops).Reads c s run s' ↔
      Enclosed stops 0 run.tokens ∧ s = s'.behind run.tokens ∧
        (tokenAt c s'.rest 0).isOperator stops = true := by
  simp only [initializer, reads_bind, reads_gets, reads_take]
  obtain ⟨tokens, types⟩ := s
  constructor
  · rintro ⟨_, _, ⟨rfl, rfl⟩, _, _, ⟨rfl, rfl⟩, h⟩
    obtain ⟨rest, hrest⟩ : initializerSpan stops 0 tokens <+: tokens :=
      initializerSpan_prefix 0 tokens
    rcases hspan : initializerSpan stops 0 tokens with _ | ⟨first, others⟩
    · rw [hspan] at h
      exact absurd h not_reads_unexpected
    · rw [hspan] at h hrest
      subst hrest
      simp only [List.take_left', List.drop_left', reads_bind, reads_peek] at h
      obtain ⟨_, _, ⟨rfl, rfl⟩, h⟩ := h
      split at h
      · next hstop =>
        obtain ⟨rfl, rfl⟩ := reads_pure.1 h
        refine ⟨?_, rfl, hstop⟩
        cases rest with
        | nil => cases hstop
        | cons stop rest => exact (initializerSpan_eq_iff hstop (first :: others) rest 0).1 hspan
      · exact absurd h not_reads_unexpected
  · rintro ⟨henclosed, hs, hstop⟩
    cases hs
    obtain ⟨rest, types⟩ := s'
    cases rest with
    | nil => cases hstop
    | cons stop rest =>
      change (tokenAt c (stop :: rest) 0).isOperator stops = true at hstop
      have hspan : initializerSpan stops 0 (run.tokens ++ stop :: rest) = run.tokens :=
        (initializerSpan_eq_iff hstop run.tokens rest 0).2 henclosed
      refine ⟨_, _, ⟨rfl, rfl⟩, _, _, ⟨rfl, rfl⟩, ?_⟩
      dsimp only
      rw [hspan]
      simp only [List.take_left', List.drop_left', RawRun.tokens, reads_bind, reads_peek]
      exact ⟨_, _, ⟨rfl, rfl⟩, (reads_if_pos hstop).2 (reads_pure.2 ⟨rfl, rfl⟩)⟩

/-- A statement is a part of the tokens, whatever is in it. -/
theorem eq_behind_of_reads_rawStatement {tokens : List Token}
    (h : rawStatement.Reads c s tokens s') : s = s'.behind tokens := by
  have hs := s.eq_behind_take (statementSpan 0 s.rest).length
  simp only [rawStatement, reads_bind, reads_gets, reads_take, reads_atEnd] at h
  obtain ⟨_, _, ⟨rfl, rfl⟩, _, _, ⟨rfl, rfl⟩, _, _, ⟨rfl, rfl⟩, h⟩ := h
  split at h
  · split at h
    · exact absurd h not_reads_unexpected
    · obtain ⟨rfl, rfl⟩ := reads_pure.1 h
      exact hs
  · split at h
    · exact absurd h not_reads_unexpected
    · obtain ⟨rfl, rfl⟩ := reads_pure.1 h
      exact hs

end Parser

end Flattener
