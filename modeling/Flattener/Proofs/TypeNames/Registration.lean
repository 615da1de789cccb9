import Mathlib.Data.List.Induction
import Flattener.TypeNames

/-!
# Registering and undoing

The history of registrations is the only state of `TypeNames` that matters: the
counts are those of the names in it (`TypeNames.Consistent`), so a name is a
type exactly if it is built in or registered (`isType_iff`), and so it is when
all types are listed (`mem_known`).

* `registerAll`: a row of registrations, the only change that a parse makes;
* `rollbackTo_registerAll`: going back to a mark gives what was there, exactly,
  whatever was registered since.
-/

namespace Flattener

namespace Tally

/-- The tally holds each of the names as often as it occurs, and no other. -/
def Counts (t : Tally) (names : List String) : Prop :=
  ∀ name, t.entries.lookup name = if name ∈ names then some (names.count name) else none

theorem counts_empty : empty.Counts [] := fun _ => rfl

/-- One more of a name changes the entry of that name only. -/
theorem lookup_raise (name other : String) (entries : List (String × Nat)) :
    (raise name entries).lookup other =
      if other = name then some ((entries.lookup name).getD 0 + 1) else entries.lookup other := by
  induction entries with
  | nil =>
    by_cases h : other = name
    · simp [raise, h]
    · have hother : (other == name) = false := beq_eq_false_iff_ne.2 h
      simp [raise, List.lookup_cons, h, hother]
  | cons entry rest ih =>
    obtain ⟨key, n⟩ := entry
    by_cases hkey : key = name
    · subst hkey
      by_cases h : other = key
      · simp [raise, h]
      · have hother : (other == key) = false := beq_eq_false_iff_ne.2 h
        simp [raise, List.lookup_cons, h, hother]
    · have hname : (name == key) = false := beq_eq_false_iff_ne.2 (Ne.symm hkey)
      by_cases h : other = key
      · subst h
        simp [raise, hkey]
      · have hother : (other == key) = false := beq_eq_false_iff_ne.2 h
        simp [raise, List.lookup_cons, hkey, hname, hother, ih]

theorem counts_insert {t : Tally} {names : List String} (h : t.Counts names) (name : String) :
    (t.insert name).Counts (name :: names) := by
  intro other
  rw [insert, lookup_raise, h name, h other]
  by_cases hother : other = name
  · subst hother
    by_cases hmem : other ∈ names
    · simp [hmem]
    · simp [hmem, List.count_eq_zero_of_not_mem hmem]
  · simp [hother, List.count_cons_of_ne (Ne.symm hother)]

/-- One more and one less of a name is nothing, if no entry is empty. -/
theorem lower_raise {name : String} {entries : List (String × Nat)}
    (h : ∀ n, entries.lookup name = some n → 0 < n) : lower name (raise name entries) = entries := by
  induction entries with
  | nil => simp [raise, lower]
  | cons entry rest ih =>
    obtain ⟨key, n⟩ := entry
    by_cases hkey : key = name
    · subst hkey
      have hn : 0 < n := h n (by simp)
      simp [raise, lower, Nat.ne_of_gt hn]
    · have hname : (name == key) = false := by simpa using Ne.symm hkey
      rw [List.lookup_cons, hname] at h
      simp [raise, lower, hkey, ih h]

theorem erase_insert {t : Tally} {names : List String} (h : t.Counts names) (name : String) :
    (t.insert name).erase name = t := by
  have hpos : ∀ n, t.entries.lookup name = some n → 0 < n := by
    intro n hn
    rw [h name] at hn
    split at hn
    · next hmem =>
      cases hn
      exact List.count_pos_iff.2 hmem
    · cases hn
  rw [insert, erase, lower_raise hpos]

theorem contains_iff {t : Tally} {names : List String} (h : t.Counts names) (name : String) :
    t.contains name = true ↔ name ∈ names := by
  rw [contains, h name]
  by_cases hmem : name ∈ names <;> simp [hmem]

theorem mem_names_iff {t : Tally} {names : List String} (h : t.Counts names) (name : String) :
    name ∈ t.names ↔ name ∈ names := by
  rw [← contains_iff h, contains, List.lookup_isSome_iff, Tally.names, List.mem_map]
  constructor
  · rintro ⟨entry, hentry, rfl⟩
    exact ⟨entry, hentry, by simp⟩
  · rintro ⟨entry, hentry, hname⟩
    exact ⟨entry, hentry, (by simpa using hname : name = entry.1).symm⟩

end Tally

namespace TypeNames

/-- The counts are those of the registered names. -/
def Consistent (t : TypeNames) : Prop :=
  t.counts.Counts t.registered

/-- The names that are types: the built-in ones, and the registered ones in the
    order of their registration. -/
def visible (t : TypeNames) : List String :=
  t.builtins ++ t.history

theorem consistent_ofBuiltins (builtins : List String) : (ofBuiltins builtins).Consistent :=
  Tally.counts_empty

theorem visible_ofBuiltins (builtins : List String) : (ofBuiltins builtins).visible = builtins :=
  List.append_nil builtins

theorem consistent_register {t : TypeNames} (h : t.Consistent) (name : String) :
    (t.register name).Consistent :=
  Tally.counts_insert h name

theorem isType_iff {t : TypeNames} (h : t.Consistent) (name : String) :
    t.isType name = true ↔ name ∈ t.visible := by
  simp [isType, visible, history, Tally.contains_iff h]

theorem isType_eq_false_iff {t : TypeNames} (h : t.Consistent) (name : String) :
    t.isType name = false ↔ name ∉ t.visible := by
  rw [← isType_iff h, Bool.not_eq_true]

/-- The list of all types holds what is a type. -/
theorem mem_known {t : TypeNames} (h : t.Consistent) (name : String) :
    name ∈ t.known ↔ name ∈ t.visible := by
  simp [known, sorted, visible, history, Tally.mem_names_iff h]

/-! ## Rows of registrations -/

/-- All of the names become types, in order. -/
def registerAll (t : TypeNames) (names : List String) : TypeNames :=
  names.foldl register t

theorem registerAll_append (t : TypeNames) (first second : List String) :
    t.registerAll (first ++ second) = (t.registerAll first).registerAll second :=
  List.foldl_append

theorem consistent_registerAll {t : TypeNames} (h : t.Consistent) (names : List String) :
    (t.registerAll names).Consistent := by
  induction names generalizing t with
  | nil => exact h
  | cons name names ih => exact ih (consistent_register h name)

theorem builtins_registerAll (t : TypeNames) (names : List String) :
    (t.registerAll names).builtins = t.builtins := by
  induction names generalizing t with
  | nil => rfl
  | cons name names ih => exact ih (t.register name)

theorem history_registerAll (t : TypeNames) (names : List String) :
    (t.registerAll names).history = t.history ++ names := by
  induction names generalizing t with
  | nil => exact (List.append_nil _).symm
  | cons name names ih =>
    rw [registerAll, List.foldl_cons, ← registerAll, ih, history_register, List.append_assoc]
    rfl

theorem visible_registerAll (t : TypeNames) (names : List String) :
    (t.registerAll names).visible = t.visible ++ names := by
  rw [visible, builtins_registerAll, history_registerAll, ← List.append_assoc, visible]

theorem mark_registerAll (t : TypeNames) (names : List String) :
    (t.registerAll names).mark = t.mark + names.length := by
  rw [mark_eq_length_history, history_registerAll, List.length_append, ← mark_eq_length_history]

theorem undo_register {t : TypeNames} (h : t.Consistent) (name : String) (n : Nat) :
    ((t.register name).undo (n + 1)).1 = (t.undo n).1 := by
  have herase := Tally.erase_insert h name
  simp only [undo, register]
  rw [herase]

/-- The latest registrations are undone first, so the last name of a row goes
    before the others. -/
theorem undo_registerAll {t : TypeNames} (h : t.Consistent) (names : List String) :
    ((t.registerAll names).undo names.length).1 = t := by
  -- from the last name on, since the latest registration is the first to be undone
  induction names using List.reverseRecOn with
  | nil => rfl
  | append_singleton names name ih =>
    rw [registerAll_append, List.length_append]
    exact (undo_register (consistent_registerAll h names) name names.length).trans ih

/-- Back to a mark means back to what was there, whatever was registered since. -/
theorem rollbackTo_registerAll {t : TypeNames} (h : t.Consistent) (names : List String) :
    ∃ gone, (t.registerAll names).rollbackTo t.mark = .ok (t, gone) := by
  have hmark := mark_registerAll t names
  refine ⟨((t.registerAll names).undo names.length).2, ?_⟩
  rw [rollbackTo, if_neg (by omega), hmark, Int.toNat_natCast, Nat.add_sub_cancel_left]
  exact congrArg Except.ok (Prod.ext (undo_registerAll h names) rfl)

end TypeNames

end Flattener
