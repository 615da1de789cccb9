import Flattener.Proofs.Text.Stretch
import Flattener.Text.Ansi

/-!
# Texts without control sequences

Taking the control sequences out of a text goes from its head to its end. Where a
text has no escape character, nothing is taken out of it whatever follows
(`stripChars_append`). No sequence goes over the end of a line (`stripChars_newline`).
A styled text loses what the style put around it (`stripChars_styled`): the sequences of
a style end in front of the text, so that they never take any of it with them.
-/

namespace Flattener.Text

variable {c : Char} {text : List Char}

theorem stripChars_cons_of_ne (h : c ≠ escape) (text : List Char) :
    stripChars (c :: text) = c :: stripChars text := by
  rcases text with _ | ⟨d, text⟩
  · simp [stripChars]
  · by_cases hd : d = '['
    · rw [hd, stripChars, if_neg h]
    · rw [stripChars]
      simp [hd]

/-- A text without an escape character stays, in front of whatever stays. -/
theorem stripChars_append (h : escape ∉ text) (rest : List Char) :
    stripChars (text ++ rest) = text ++ stripChars rest := by
  induction text with
  | nil => rfl
  | cons c text ih =>
    obtain ⟨hc, htext⟩ := not_or.1 (mt List.mem_cons.2 h)
    rw [List.cons_append, stripChars_cons_of_ne (Ne.symm hc), ih htext, List.cons_append]

/-! ## Lines -/

theorem length_takeWhile_drop_le (p q : Char → Bool) (text : List Char) :
    (text.takeWhile p).length + ((text.drop (text.takeWhile p).length).takeWhile q).length ≤
      text.length := by
  have hfirst : (text.takeWhile p).length ≤ text.length := (List.takeWhile_prefix p).length_le
  have hsecond := (List.takeWhile_prefix q (l := text.drop (text.takeWhile p).length)).length_le
  rw [List.length_drop] at hsecond
  omega

/-- A sequence does not go over the end of a line. -/
theorem sequenceLength?_newline (text rest : List Char) :
    sequenceLength? (text ++ '\n' :: rest) = sequenceLength? text := by
  have hwithin := length_takeWhile_drop_le isParameterChar isIntermediateChar text
  have hbehind : (text ++ '\n' :: rest).drop (text.takeWhile isParameterChar).length =
      text.drop (text.takeWhile isParameterChar).length ++ '\n' :: rest :=
    List.drop_append_of_le_length (List.takeWhile_prefix _).length_le
  rw [sequenceLength?, sequenceLength?, takeWhile_append_cons (by decide), hbehind,
    takeWhile_append_cons (by decide), List.drop_append_of_le_length hwithin]
  cases text.drop _ with
  | nil => rfl
  | cons c others => rfl

theorem le_length_of_sequenceLength? {n : Nat} (h : sequenceLength? text = some n) :
    n ≤ text.length := by
  rw [sequenceLength?] at h
  split at h
  · next c others hdrop =>
    have hlength := congrArg List.length hdrop
    rw [List.length_drop, List.length_cons] at hlength
    split at h
    · cases h
      omega
    · cases h
  · cases h

/-- The lines of a text lose their sequences each on its own. -/
theorem stripChars_newline (text rest : List Char) :
    stripChars (text ++ '\n' :: rest) = stripChars text ++ '\n' :: stripChars rest := by
  induction text using stripChars.induct with
  | case1 =>
    have hnewline : '\n' ≠ escape := by decide
    rw [List.nil_append, stripChars_cons_of_ne hnewline, stripChars]
    rfl
  | case2 text n hn ih =>
    rw [List.cons_append, List.cons_append, stripChars, stripChars, if_pos rfl, if_pos rfl,
      sequenceLength?_newline, hn]
    dsimp only
    rw [List.drop_append_of_le_length (le_length_of_sequenceLength? hn), ih]
  | case3 text hnone ih =>
    rw [List.cons_append, List.cons_append, stripChars, stripChars, if_pos rfl, if_pos rfl,
      sequenceLength?_newline, hnone]
    dsimp only
    rw [← List.cons_append, ih]
    rfl
  | case4 c text hc ih =>
    rw [List.cons_append, List.cons_append, stripChars, stripChars, if_neg hc, if_neg hc,
      ← List.cons_append, ih]
    rfl
  | case5 c text hbracket ih =>
    rw [List.cons_append, stripChars, stripChars, ih]
    · rfl
    · exact hbracket
    · intro others heq
      cases text with
      | nil => cases heq
      | cons d text =>
        cases heq
        exact hbracket _ rfl

/-! ## Styles -/

theorem isParameterChar_of_isDigit (h : c.isDigit = true) : isParameterChar c = true := by
  rw [Char.isDigit, Bool.and_eq_true, decide_eq_true_eq, decide_eq_true_eq] at h
  rw [isParameterChar, Bool.and_eq_true, decide_eq_true_eq, decide_eq_true_eq]
  exact ⟨h.1, UInt32.le_trans h.2 (by decide)⟩

/-- A number and an `m` are the rest of a sequence, whatever follows them. -/
theorem sequenceLength?_toDigits (code : Nat) (rest : List Char) :
    sequenceLength? (Nat.toDigits 10 code ++ 'm' :: rest) =
      some ((Nat.toDigits 10 code).length + 1) := by
  have hparameters : (Nat.toDigits 10 code ++ 'm' :: rest).takeWhile isParameterChar =
      Nat.toDigits 10 code := by
    refine takeWhile_eq_iff.2 ⟨fun c hc => ?_, fun c hc => ?_⟩
    · exact isParameterChar_of_isDigit (Nat.isDigit_of_mem_toDigits (by decide) (by decide) hc)
    · cases hc
      rfl
  rw [sequenceLength?, hparameters, List.drop_left' rfl, List.takeWhile_cons_of_neg (by decide),
    List.length_nil, Nat.add_zero, List.drop_left' rfl]
  rfl

/-- The sequences that set codes are taken out. -/
theorem stripChars_rendition (codes : List Nat) (rest : List Char) :
    stripChars ((rendition codes).toList ++ rest) = stripChars rest := by
  induction codes with
  | nil => rfl
  | cons code codes ih =>
    have hsequence : (rendition (code :: codes)).toList =
        escape :: '[' :: (Nat.toDigits 10 code ++ 'm' :: (rendition codes).toList) := by
      have hjoin : rendition (code :: codes) =
          s!"{escape}[{code}m" ++ rendition codes := by
        rw [rendition, List.map_cons, String.join_cons, rendition]
      rw [hjoin, Nat.toString_eq_ofList_toDigits]
      simp only [String.toList_append, String.toList_ofList, List.append_assoc]
      rfl
    rw [hsequence, List.cons_append, List.cons_append, List.append_assoc, List.cons_append,
      stripChars, if_pos rfl, sequenceLength?_toDigits]
    dsimp only
    rw [← List.drop_drop, List.drop_left' rfl, List.drop_one, List.tail_cons]
    exact ih

/-- A styled text is left without its style. -/
theorem stripChars_styled {text : String} (h : escape ∉ text.toList) (codes : List Nat)
    (rest : List Char) :
    stripChars ((styled codes text).toList ++ rest) = text.toList ++ stripChars rest := by
  rw [styled, String.toList_append, String.toList_append, List.append_assoc, List.append_assoc,
    stripChars_rendition, stripChars_append h, stripChars_rendition]

end Flattener.Text
