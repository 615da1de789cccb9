import Flattener.Files.Tree

/-!
# What is written can be read

A file that is written to a tree is read back by the same path
(`FileTree.read_write`): all the directories on the way to it are still there,
since nothing but a file is put in the place of a file, or where there was nothing.
-/

namespace Flattener.FileTree

variable {t t' : FileTree} {path : String} {names : List String} {bytes : List UInt8}

theorem entry?_put_self (t : FileTree) (names : List String) (bytes : List UInt8) :
    FileTree.entry? (t.put names bytes) names = some (.file bytes) := by
  rw [ entry?, put, List.lookup_cons_self]

/-- No other entry is lost. -/
theorem lookup_put_of_ne {others : List String} (h : others ≠ names) :
    (t.put names bytes).entries.lookup others = t.entries.lookup others := by
  obtain ⟨entries⟩ := t
  rw [put, List.lookup_cons, beq_false_of_ne h]
  dsimp only
  induction entries with
  | nil => rfl
  | cons entry entries ih =>
    by_cases hentry : entry.1 = names
    · rw [List.filter_cons_of_neg (by simpa using hentry), ih, List.lookup_cons, hentry,
        beq_false_of_ne h]
    · rw [List.filter_cons_of_pos (by simpa using hentry), List.lookup_cons, List.lookup_cons, ih]

/-- There is still something below the names, if only what was put there. -/
theorem any_put {others : List String}
    (h : t.entries.any (fun entry => others.isPrefixOf entry.1) = true) :
    (t.put names bytes).entries.any (fun entry => others.isPrefixOf entry.1) = true := by
  obtain ⟨entry, hentry, hprefix⟩ := List.any_eq_true.1 h
  refine List.any_eq_true.2 ?_
  by_cases hnames : entry.1 = names
  · exact ⟨(names, .file bytes), List.mem_cons_self, hnames ▸ hprefix⟩
  · refine ⟨entry, List.mem_cons_of_mem _ (List.mem_filter.2 ⟨hentry, ?_⟩), hprefix⟩
    exact decide_eq_true hnames

/-- A directory stays one, unless a file was put in its place. -/
theorem at?_put_of_directory {place : Place} (h : t.at? place = some .directory)
    (hne : place ≠ .inside names) : (t.put names bytes).at? place = some .directory := by
  cases place with
  | outside => rfl
  | nowhere => cases h
  | inside others =>
    have hlookup : (t.put names bytes).entries.lookup others = t.entries.lookup others :=
      lookup_put_of_ne fun heq => hne (congrArg _ heq)
    rw [at?, entry?] at h ⊢
    rw [hlookup]
    cases hentry : t.entries.lookup others with
    | some entry =>
      rw [hentry] at h
      exact h
    | none =>
      rw [hentry] at h
      dsimp only at h ⊢
      split at h
      · next hbelow =>
        rw [if_pos]
        rw [Bool.or_eq_true] at hbelow ⊢
        exact hbelow.imp_right any_put
      · cases h

theorem follow_put (hfree : t.at? (.inside names) ≠ some .directory) {place last : Place}
    {parts : List String} (h : t.follow path place parts = .ok last) :
    (t.put names bytes).follow path place parts = .ok last := by
  induction parts generalizing place with
  | nil => exact h
  | cons part parts ih =>
    rw [follow] at h
    split at h
    · next hdirectory =>
      have hne : place ≠ .inside names := fun heq => hfree (heq ▸ hdirectory)
      rw [follow, at?_put_of_directory hdirectory hne]
      dsimp only
      split at h
      · cases h
      · next hlength =>
        rw [if_neg hlength]
        exact ih h
    · cases h
    · cases h

theorem find_put (hfree : t.at? (.inside names) ≠ some .directory) {last : Place}
    (h : t.find path = .ok last) : (t.put names bytes).find path = .ok last := by
  rw [find] at h ⊢
  split at h
  · cases h
  · next hempty =>
    rw [if_neg hempty]
    split at h
    · cases h
    · next hlength =>
      rw [if_neg hlength]
      exact follow_put hfree h

/-- The bytes that were written to a path are read of it. -/
theorem read_write (h : t.write path bytes = .ok t') : t'.read path = .ok bytes := by
  rw [write] at h
  cases hfind : t.find path with
  | error error =>
    rw [hfind] at h
    cases h
  | ok place =>
    rw [hfind] at h
    dsimp only [bind, Except.bind] at h
    split at h
    · cases h
    · next names hfree =>
      cases h
      rw [read, find_put hfree hfind]
      dsimp only [bind, Except.bind]
      rw [at?, entry?_put_self]
      rfl
    · cases h

end Flattener.FileTree
