import Mathlib.Data.List.TakeWhile

/-!
# Longest stretches

The elements at the head of a list that pass a test end in front of the first
one that fails it. What a list begins with is its longest such stretch exactly
if all of it passes and what follows, if anything does, begins with a failure.
-/

namespace Flattener

variable {α : Type} {p : α → Bool}

theorem takeWhile_eq_iff {run rest : List α} :
    (run ++ rest).takeWhile p = run ↔ (∀ a ∈ run, p a = true) ∧ ∀ a ∈ rest.head?, p a = false := by
  constructor
  · intro h
    have hall : ∀ a ∈ run, p a = true := fun a ha => List.mem_takeWhile_imp (h ▸ ha)
    refine ⟨hall, fun a ha => ?_⟩
    rw [List.takeWhile_append_of_pos hall, List.append_right_eq_self] at h
    cases rest with
    | nil => cases ha
    | cons b rest =>
      cases ha
      by_contra hpass
      rw [List.takeWhile_cons_of_pos (by simpa using hpass)] at h
      cases h
  · rintro ⟨hall, hhead⟩
    rw [List.takeWhile_append_of_pos hall, List.append_right_eq_self]
    cases rest with
    | nil => rfl
    | cons b rest => exact List.takeWhile_cons_of_neg (by simp [hhead b rfl])

/-- A stretch does not go beyond an element that fails the test. -/
theorem takeWhile_append_cons {a : α} (ha : p a = false) (l rest : List α) :
    (l ++ a :: rest).takeWhile p = l.takeWhile p := by
  induction l with
  | nil => exact List.takeWhile_cons_of_neg (by simp [ha])
  | cons b l ih =>
    by_cases hb : p b = true
    · rw [List.cons_append, List.takeWhile_cons_of_pos hb, List.takeWhile_cons_of_pos hb, ih]
    · rw [List.cons_append, List.takeWhile_cons_of_neg hb, List.takeWhile_cons_of_neg hb]

/-- What is in front of the first element that fails a test can be told. -/
theorem append_cons_inj {front front' rest rest' : List α} {a a' : α}
    (hfront : ∀ x ∈ front, p x = true) (hfront' : ∀ x ∈ front', p x = true) (ha : p a = false)
    (ha' : p a' = false) (h : front ++ a :: rest = front' ++ a' :: rest') :
    front = front' ∧ a = a' ∧ rest = rest' := by
  have htake := congrArg (List.takeWhile p) h
  rw [List.takeWhile_append_of_pos hfront, List.takeWhile_append_of_pos hfront',
    List.takeWhile_cons_of_neg (by simp [ha]), List.takeWhile_cons_of_neg (by simp [ha']),
    List.append_nil, List.append_nil] at htake
  subst htake
  exact ⟨rfl, List.cons.inj (List.append_cancel_left h)⟩

/-- Every list is its longest stretch with something behind it. -/
theorem exists_takeWhile (p : α → Bool) (l : List α) :
    ∃ run rest, l = run ++ rest ∧ (run ++ rest).takeWhile p = run := by
  refine ⟨l.takeWhile p, l.dropWhile p, List.takeWhile_append_dropWhile.symm, ?_⟩
  rw [List.takeWhile_append_dropWhile]

end Flattener
