import Flattener.Proofs.Grammar.Trials

/-!
# The cursor stays on the tokens

The place of a parse in a list of tokens is the number of tokens behind it. Wherever a
parse puts a production on trial, and wherever that stops, the place is one of the
list, or that of the end of input behind it (`OnToken`). The way back is open as well:
each registration that is undone on it is there, and is counted (`Contained`).
-/

namespace Flattener

/-- A name that is there is counted at least once. -/
theorem Tally.count_pos {t : Tally} {names : List String} (h : t.Counts names) {name : String}
    (hname : name ∈ names) : 0 < t.count name := by
  rw [count, h name, if_pos hname]
  exact List.count_pos_iff.2 hname

/-- Going back by some of a row of registrations leaves the others. -/
theorem TypeNames.undo_registerAll_append {t : TypeNames} (h : t.Consistent)
    (front behind : List String) :
    ((t.registerAll (front ++ behind)).undo behind.length).1 = t.registerAll front := by
  rw [registerAll_append]
  exact undo_registerAll (consistent_registerAll h front) behind

/-- The latest of a row of registrations, with some of those behind it undone, is there
    and is counted. -/
theorem TypeNames.exists_counted {t : TypeNames} (h : t.Consistent) {names : List String} {n : Nat}
    (hn : t.mark + n < (t.registerAll names).mark) :
    ∃ name older, ((t.registerAll names).undo n).1.registered = name :: older ∧
      0 < ((t.registerAll names).undo n).1.counts.count name := by
  rw [mark_registerAll] at hn
  have hlength : (names.drop (names.length - n)).length = n := by
    rw [List.length_drop]
    omega
  have hundo := undo_registerAll_append h (names.take (names.length - n))
    (names.drop (names.length - n))
  rw [List.take_append_drop, hlength] at hundo
  obtain ⟨front, name, hfront⟩ : ∃ front name, names.take (names.length - n) = front ++ [name] := by
    refine ⟨_, _, (List.dropLast_concat_getLast fun hnil => ?_).symm⟩
    have hnone := congrArg List.length hnil
    rw [List.length_take, List.length_nil] at hnone
    omega
  have hcounts := consistent_registerAll h (front ++ [name])
  rw [hundo, hfront]
  rw [registerAll_append] at hcounts ⊢
  exact ⟨name, _, rfl, Tally.count_pos hcounts List.mem_cons_self⟩

namespace Parser

variable {c : Context} {s s' : State} {tokens : List Token}

/-- The place of the state is one of the tokens, or of the end of input behind them, and
    the token there is the next one. -/
def OnToken (c : Context) (tokens : List Token) (s : State) : Prop :=
  ∃ place, place ≤ tokens.length ∧ s.rest = tokens.drop place ∧
    (tokens ++ [.ending c.stop])[place]? = some (tokenAt c s.rest 0)

theorem onToken_of_suffix (h : s.rest <:+ tokens) : OnToken c tokens s := by
  obtain ⟨front, rfl⟩ := h
  refine ⟨front.length, by simp, List.drop_left.symm, ?_⟩
  rw [List.append_assoc, List.getElem?_append_right (Nat.le_refl _), Nat.sub_self]
  cases s.rest with
  | nil => rfl
  | cons t rest => rfl

/-- The integer that is read is the token in front of the place behind it. -/
theorem getElem?_of_reads_unsigned {t : Token} {size : Nat} (h : unsigned.Reads c s (t, size) s')
    (hs : s.rest <:+ tokens) :
    ∃ place, s'.rest = tokens.drop (place + 1) ∧ tokens[place]? = some t := by
  obtain ⟨read, hread⟩ : ∃ read, s.rest = read ++ t :: s'.rest := by
    simp only [unsigned, reads_bind, reads_matchOperator] at h
    obtain ⟨sign, s₁, hsign, ⟨t', value⟩, s₂, hinteger, h⟩ := h
    obtain ⟨-, rfl⟩ := reads_popInteger.1 hinteger
    have hsame : t' = t ∧ s₂ = s' := by
      cases sign with
      | none =>
        obtain ⟨heq, rfl⟩ := reads_pure.1 h
        exact ⟨(congrArg Prod.fst heq).symm, rfl⟩
      | some sign =>
        dsimp only at h
        split at h
        · exact absurd h not_reads_failAt
        · obtain ⟨heq, rfl⟩ := reads_pure.1 h
          exact ⟨(congrArg Prod.fst heq).symm, rfl⟩
    obtain ⟨rfl, rfl⟩ := hsame
    rcases hsign with ⟨sign, -, rfl, -⟩ | ⟨-, rfl, -⟩
    · exact ⟨[sign], rfl⟩
    · exact ⟨[], rfl⟩
  obtain ⟨front, rfl⟩ := hs
  refine ⟨(front ++ read).length, ?_, ?_⟩
  · rw [hread, ← List.append_assoc, List.drop_append, List.drop_eq_nil_of_le (Nat.le_succ _),
      Nat.add_sub_cancel_left]
    rfl
  · rw [hread, ← List.append_assoc, List.getElem?_append_right (Nat.le_refl _), Nat.sub_self]
    rfl

namespace Visit

variable {v v' : Visit} {production : Production}

/-- No round goes back in front of where it began. -/
theorem Sound.suffix (hv : v.Sound) (h : v.Step c v') : v'.state.rest <:+ v.state.rest := by
  cases h with
  | @item n nested s s' production item hgoes hproduction hitem =>
    have hmoves := moves_attempt (faultless_trial ⟨n + 1, nested, s⟩ production).moves
    exact hitem.2 ▸ (hmoves c s hv.consistent).1
  | @abandoned n nested s s₁ s' production tokens hgoes hproduction hnone htokens =>
    have hmoves := (faultless_trial ⟨n + 1, nested, s⟩ production).moves
    cases eq_of_reads_attempt_none hmoves hv.consistent hnone
    exact htokens.2 ▸ (moves_rawStatement c s hv.consistent).1
  | @statement n nested s s' tokens hgoes hproduction htokens =>
    exact htokens.2 ▸ (moves_rawStatement c s hv.consistent).1
  | @inside n nested s s' name hgoes hproduction hhead =>
    obtain ⟨tokens, -, rfl⟩ := behind_of_reads_namespaceHead hhead
    exact List.suffix_append tokens s'.rest

theorem Reachable.suffix {builtins : List String} (h : v.Reachable c builtins tokens) :
    v.state.rest <:+ tokens := by
  induction h with
  | start => exact List.suffix_refl _
  | step hreachable hstep ih => exact (hreachable.sound.suffix hstep).trans ih

/-- A production on trial begins and stops on tokens, and the way back from where it
    stops is open: each registration since then is there to be undone, with its name
    counted, and what comes out is what was there before. -/
structure Contained (c : Context) (tokens : List Token) (v : Visit) (production : Production) :
    Prop where
  before : OnToken c tokens v.state
  behind : OnToken c tokens (v.trial production c v.state).state
  counted : ∀ n, v.state.types.mark + n < (v.trial production c v.state).state.types.mark →
    ∃ name older,
      ((v.trial production c v.state).state.types.undo n).1.registered = name :: older ∧
      0 < ((v.trial production c v.state).state.types.undo n).1.counts.count name
  rollback : ∃ gone, (v.trial production c v.state).state.types.rollbackTo v.state.types.mark =
    .ok (v.state.types, gone)

theorem Reachable.contained {builtins : List String} (h : v.Reachable c builtins tokens)
    (production : Production) : v.Contained c tokens production := by
  have hsound := h.sound
  have hreaches := (faultless_trial v production).moves c v.state hsound.consistent
  refine ⟨onToken_of_suffix h.suffix, onToken_of_suffix (hreaches.1.trans h.suffix), fun n hn => ?_,
    rollbackTo_of_reaches hsound.consistent hreaches⟩
  obtain ⟨-, names, htypes⟩ := hreaches
  rw [htypes] at hn ⊢
  exact TypeNames.exists_counted hsound.consistent hn

end Visit

end Parser

end Flattener
