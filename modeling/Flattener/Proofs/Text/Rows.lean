import Flattener.Proofs.Text.Stretch
import Flattener.Text.Lines
import Mathlib.Data.List.DropRight

/-!
# Rows of a text

The rows of a text are what stands between its newlines (`rows`), so that there is
one more of them than newlines. What is in front of a place in the text tells the
row on which the place is, and how far it is into that row (`getElem?_rows`).

The lines of a text are its rows as long as no other line break stands there. A
carriage return in front of a newline belongs to the line break, and moves nothing
but the end of its line; any other break makes a line more, and from there on the
numbers disagree. `Aligned` says of a row that none is in front of it and none in
it, and then the line of that number is the row (`getElem?_rows_of_linesOf`).
-/

namespace Flattener.Text

variable {row rest text line : List Char} {k : Nat}

/-- What stands between the newlines of a text. -/
def rows (text : List Char) : List (List Char) :=
  text.splitOn '\n'

theorem rows_of_not_mem (h : '\n' ∉ row) : rows row = [row] :=
  List.splitOn_eq_singleton h

theorem rows_append_newline (h : '\n' ∉ row) (rest : List Char) :
    rows (row ++ '\n' :: rest) = row :: rows rest :=
  List.splitOn_append_cons_self_of_not_mem h rest

/-- A text is a row, or a row and a newline in front of a shorter text. -/
@[elab_as_elim]
theorem rows_induction {motive : List Char → Prop} (last : ∀ row, '\n' ∉ row → motive row)
    (next : ∀ row rest, '\n' ∉ row → motive rest → motive (row ++ '\n' :: rest))
    (text : List Char) : motive text := by
  induction hn : text.length using Nat.strong_induction_on generalizing text with
  | h n ih =>
    by_cases hmem : '\n' ∈ text
    · obtain ⟨row, rest, rfl, hrow⟩ := List.eq_append_cons_of_mem hmem
      rw [List.length_append, List.length_cons] at hn
      exact next row rest hrow (ih rest.length (by omega) rest rfl)
    · exact last text hmem

/-! ## The row of a place -/

theorem takeWhile_of_not_mem (h : '\n' ∉ row) : row.takeWhile (· ≠ '\n') = row :=
  List.takeWhile_eq_self_iff.2 fun _ hc => decide_eq_true fun heq => h (heq ▸ hc)

theorem rtakeWhile_append_newline (row rest : List Char) :
    (row ++ '\n' :: rest).rtakeWhile (· ≠ '\n') = rest.rtakeWhile (· ≠ '\n') := by
  rw [List.rtakeWhile, List.rtakeWhile, List.reverse_append, List.reverse_cons, List.append_assoc,
    List.takeWhile_append]
  split
  · next hall =>
    rw [(List.takeWhile_prefix _).eq_of_length hall]
    simp
  · rfl

theorem rtakeWhile_append_of_not_mem (before : List Char) (h : '\n' ∉ row) :
    (before ++ row).rtakeWhile (· ≠ '\n') = before.rtakeWhile (· ≠ '\n') ++ row := by
  have hrow : ∀ c ∈ row.reverse, decide (c ≠ '\n') = true :=
    fun _ hc => decide_eq_true fun heq => h (heq ▸ List.mem_reverse.1 hc)
  rw [List.rtakeWhile, List.rtakeWhile, List.reverse_append, List.takeWhile_append_of_pos hrow,
    List.reverse_append, List.reverse_reverse]

/-- The rows from that of a place on are the rows of the text there. -/
theorem drop_rows (before rest : List Char) :
    (rows (before ++ rest)).drop (before.count '\n') =
      rows (before.rtakeWhile (· ≠ '\n') ++ rest) := by
  induction before using rows_induction with
  | last row hrow =>
    rw [List.count_eq_zero.2 hrow, List.drop_zero, ← List.nil_append row,
      rtakeWhile_append_of_not_mem [] hrow, List.rtakeWhile_nil]
  | next row front hrow ih =>
    rw [List.append_assoc, List.cons_append, rows_append_newline hrow, rtakeWhile_append_newline,
      List.count_append, List.count_cons_self, List.count_eq_zero.2 hrow, Nat.zero_add,
      List.drop_succ_cons, ih]

theorem getElem?_rows_zero (text : List Char) :
    (rows text)[0]? = some (text.takeWhile (· ≠ '\n')) := by
  induction text using rows_induction with
  | last row hrow => rw [rows_of_not_mem hrow, takeWhile_of_not_mem hrow]; rfl
  | next row rest hrow _ =>
    have hstop : (row ++ '\n' :: rest).takeWhile (· ≠ '\n') = row := by
      refine takeWhile_eq_iff.2 ⟨fun c hc => decide_eq_true fun heq => hrow (heq ▸ hc), ?_⟩
      rintro _ ⟨⟩
      rfl
    rw [rows_append_newline hrow, hstop]
    rfl

/-- The end of the row in front of a place goes on with the beginning of what stands
    there. -/
theorem takeWhile_rtakeWhile_append (before rest : List Char) :
    (before.rtakeWhile (· ≠ '\n') ++ rest).takeWhile (· ≠ '\n') =
      before.rtakeWhile (· ≠ '\n') ++ rest.takeWhile (· ≠ '\n') :=
  List.takeWhile_append_of_pos fun c hc => by simpa using List.mem_rtakeWhile_imp hc

/-- The row of a place is what stands there on both sides, up to a newline. -/
theorem getElem?_rows (before rest : List Char) : (rows (before ++ rest))[before.count '\n']? =
    some (before.rtakeWhile (· ≠ '\n') ++ rest.takeWhile (· ≠ '\n')) := by
  rw [← Nat.add_zero (before.count '\n'), ← List.getElem?_drop, drop_rows, getElem?_rows_zero,
    takeWhile_rtakeWhile_append]

/-! ## Lines that are rows -/

/-- A row without the carriage return that goes with its newline. -/
def trimmed (row : List Char) : List Char :=
  if row.getLast? = some '\r' then row.dropLast else row

/-- There is no line break in the row with a number, and none but those of the row
    ends in front of it. -/
structure Aligned (text : List Char) (k : Nat) : Prop where
  before : ∀ row ∈ (rows text).take k, ∀ c ∈ trimmed row, c ∉ lineBreaks
  here : ∀ row ∈ (rows text)[k]?, ∀ c ∈ row, c ∉ lineBreaks

instance (text : List Char) (k : Nat) : Decidable (Aligned text k) :=
  decidable_of_iff ((((rows text).take k).all fun row => (trimmed row).all (· ∉ lineBreaks)) = true ∧
      ((rows text)[k]?.all fun row => row.all (· ∉ lineBreaks)) = true) <| by
    simp only [List.all_eq_true, Option.all_eq_true, decide_eq_true_eq]
    exact ⟨fun ⟨hbefore, hhere⟩ => ⟨hbefore, hhere⟩, fun ⟨hbefore, hhere⟩ => ⟨hbefore, hhere⟩⟩

theorem linesOf_cons {c : Char} (hc : c ∉ lineBreaks) : linesOf (c :: rest) =
    match linesOf rest with
    | [] => [[c]]
    | line :: others => (c :: line) :: others := by
  have hreturn : c ≠ '\r' := by
    rintro rfl
    exact hc (by decide)
  rw [linesOf]
  · exact if_neg hc
  · exact fun _ h => absurd h hreturn

theorem linesOf_newline (rest : List Char) : linesOf ('\n' :: rest) = [] :: linesOf rest := by
  rw [linesOf, if_pos (by decide)]
  exact nofun

/-- A line goes up to the first break. -/
theorem linesOf_append {others : List (List Char)} (hrow : ∀ c ∈ row, c ∉ lineBreaks)
    (hrest : linesOf rest = [] :: others) : linesOf (row ++ rest) = row :: others := by
  induction row with
  | nil => exact hrest
  | cons c row ih =>
    obtain ⟨hc, hrow⟩ := List.forall_mem_cons.1 hrow
    rw [List.cons_append, linesOf_cons hc, ih hrow]

theorem linesOf_of_plain (hrow : ∀ c ∈ row, c ∉ lineBreaks) (hne : row ≠ []) :
    linesOf row = [row] := by
  induction row with
  | nil => exact absurd rfl hne
  | cons c row ih =>
    obtain ⟨hc, hrow⟩ := List.forall_mem_cons.1 hrow
    rw [linesOf_cons hc]
    cases row with
    | nil => rfl
    | cons d row => rw [ih hrow (List.cons_ne_nil _ _)]

/-- A row is itself without a carriage return at its end, or is what is in front of
    that. -/
theorem eq_trimmed_or (row : List Char) : row = trimmed row ∨ row = trimmed row ++ ['\r'] := by
  rw [trimmed]
  split
  · next hlast =>
    obtain ⟨front, rfl⟩ := List.getLast?_eq_some_iff.1 hlast
    exact .inr (by rw [List.dropLast_concat])
  · exact .inl rfl

theorem linesOf_append_newline (hrow : ∀ c ∈ trimmed row, c ∉ lineBreaks) (rest : List Char) :
    linesOf (row ++ '\n' :: rest) = trimmed row :: linesOf rest := by
  rcases eq_trimmed_or row with hsame | hreturn
  · rw [← hsame] at hrow ⊢
    exact linesOf_append hrow (linesOf_newline rest)
  · have hbreak : linesOf ('\r' :: '\n' :: rest) = [] :: linesOf rest := by rw [linesOf]
    have hlines := linesOf_append hrow hbreak
    rwa [← List.singleton_append, ← List.append_assoc, ← hreturn] at hlines

/-- The last row is one line at most. -/
theorem length_linesOf_le_one (hrow : ∀ c ∈ trimmed row, c ∉ lineBreaks) :
    (linesOf row).length ≤ 1 := by
  rcases eq_trimmed_or row with hsame | hreturn
  · rw [← hsame] at hrow
    by_cases hne : row = []
    · rw [hne]
      exact Nat.zero_le 1
    · rw [linesOf_of_plain hrow hne]
      exact Nat.le_refl 1
  · have hlines := linesOf_append hrow (show linesOf ['\r'] = [] :: [] by decide)
    rw [← hreturn] at hlines
    rw [hlines]
    exact Nat.le_refl 1

/-- A line is the row of its number if no line break but newlines has been met. -/
theorem getElem?_rows_of_linesOf (h : Aligned text k) (hline : (linesOf text)[k]? = some line) :
    (rows text)[k]? = some line := by
  induction text using rows_induction generalizing k with
  | last row hrow =>
    obtain ⟨hbefore, hhere⟩ := h
    rw [rows_of_not_mem hrow] at hbefore hhere ⊢
    cases k with
    | zero =>
      -- an empty row is not a line at all
      have hne : row ≠ [] := by
        rintro rfl
        cases hline
      rwa [linesOf_of_plain (hhere row rfl) hne] at hline
    | succ k =>
      have hlength := length_linesOf_le_one (hbefore row List.mem_cons_self)
      have hlt := (List.getElem?_eq_some_iff.1 hline).1
      omega
  | next row rest hrow ih =>
    obtain ⟨hbefore, hhere⟩ := h
    rw [rows_append_newline hrow] at hbefore hhere ⊢
    cases k with
    | zero =>
      rwa [linesOf_append (hhere row rfl) (linesOf_newline rest)] at hline
    | succ k =>
      rw [linesOf_append_newline (hbefore row List.mem_cons_self), List.getElem?_cons_succ] at hline
      rw [List.getElem?_cons_succ]
      exact ih ⟨fun row hmem => hbefore row (List.mem_cons_of_mem _ hmem), hhere⟩ hline

end Flattener.Text
