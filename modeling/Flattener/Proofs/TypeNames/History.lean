import Flattener.Proofs.TypeNames.Registration

/-!
# The history is a list

To the type names two things can be done: a name is registered, and the history is
rolled back (`Change`). On the history as a list, the first one appends and the second
one truncates, unless the list is not that long (`Change.onList`).

* `afterAll_ofBuiltins`: after any run of changes the type names are exactly what they
  are when nothing but the names of the list has ever been registered, in its order;
* `afterAll_tracks_list`: so the history is that list, the counts are how often each name
  is in it, a type is what is built in or in it, and a rollback fails exactly if the
  list is not that long, and then changes nothing.

A rollback over a part of what was registered behind a mark gives what was there when
the part in front of it was all (`rollbackTo_registerAll_of_le`).
-/

namespace Flattener

/-- A change of the type names that is asked for. -/
inductive Change
  | register (name : String)
  | rollbackTo (size : Int)
  deriving DecidableEq, Repr

/-- What a change does to a list. A length that the list does not have changes nothing. -/
def Change.onList (list : List String) : Change → List String
  | .register name => list ++ [name]
  | .rollbackTo size =>
    if 0 ≤ size ∧ size ≤ list.length then list.take size.toNat else list

namespace TypeNames

/-! ## Rollbacks -/

theorem rollbackTo_of_outside {t : TypeNames} {size : Int} (h : size < 0 ∨ t.mark < size) :
    t.rollbackTo size = .error (.rollback size t.mark) := by
  rw [rollbackTo, if_pos h]

/-- A rollback fails only if the history is not that long. -/
theorem rollbackTo_eq_error_iff {t : TypeNames} {size : Int} {fault : Fault} :
    t.rollbackTo size = .error fault ↔
      fault = .rollback size t.mark ∧ (size < 0 ∨ t.mark < size) := by
  rw [rollbackTo]
  split
  · next h => simp [h, eq_comm]
  · next h => simp [h]

/-- Back to somewhere behind a mark, only what was registered from there on is undone. -/
theorem rollbackTo_registerAll_of_le {t : TypeNames} (h : t.Consistent) {names : List String}
    {size : Int} (hmark : t.mark ≤ size) (hsize : size ≤ t.mark + names.length) :
    ∃ gone, (t.registerAll names).rollbackTo size =
      .ok (t.registerAll (names.take (size - t.mark).toNat), gone) := by
  have hkept := consistent_registerAll h (names.take (size - t.mark).toNat)
  obtain ⟨gone, hback⟩ := rollbackTo_registerAll hkept (names.drop (size - t.mark).toNat)
  rw [← registerAll_append, List.take_append_drop] at hback
  have hlength : (t.registerAll (names.take (size - t.mark).toNat)).mark = size := by
    rw [mark_registerAll, List.length_take]
    omega
  rw [hlength] at hback
  exact ⟨gone, hback⟩

theorem mark_undo (n : Nat) (t : TypeNames) : (t.undo n).1.mark = t.mark - n := by
  induction n generalizing t with
  | zero => rfl
  | succ n ih =>
    obtain ⟨builtins, registered, counts⟩ := t
    cases registered with
    | nil => simp [undo, mark]
    | cons name older =>
      show (undo n ⟨builtins, older, counts.erase name⟩).1.mark = older.length + 1 - (n + 1)
      rw [ih, Nat.add_sub_add_right]
      rfl

/-- As many registrations are left as were asked for. -/
theorem mark_of_rollbackTo {t t' : TypeNames} {size : Int} {gone : List String}
    (h : t.rollbackTo size = .ok (t', gone)) : t'.mark = size := by
  rw [rollbackTo] at h
  split at h
  · cases h
  · have hleft : (t.undo (t.mark - size.toNat)).1 = t' := congrArg Prod.fst (Except.ok.inj h)
    have hmark := mark_undo (t.mark - size.toNat) t
    rw [hleft] at hmark
    omega

/-! ## Runs of changes -/

/-- The type names after a change. A rollback that fails changes nothing. -/
def after (t : TypeNames) : Change → TypeNames
  | .register name => t.register name
  | .rollbackTo size =>
    match t.rollbackTo size with
    | .ok (t', _) => t'
    | .error _ => t

/-- The type names after a run of changes. -/
def afterAll (t : TypeNames) (changes : List Change) : TypeNames :=
  changes.foldl after t

theorem after_rollbackTo_of_outside {t : TypeNames} {size : Int} (h : size < 0 ∨ t.mark < size) :
    t.after (.rollbackTo size) = t := by
  rw [after, rollbackTo_of_outside h]

/-- A change of what was registered is a change of the list. -/
theorem after_registerAll (builtins list : List String) (change : Change) :
    ((ofBuiltins builtins).registerAll list).after change =
      (ofBuiltins builtins).registerAll (change.onList list) := by
  have hzero : (ofBuiltins builtins).mark = 0 := rfl
  have hmark := mark_registerAll (ofBuiltins builtins) list
  cases change with
  | register name =>
    rw [Change.onList, registerAll_append]
    rfl
  | rollbackTo size =>
    rw [Change.onList]
    split
    · next hsize =>
      have hwithin : size ≤ (ofBuiltins builtins).mark + list.length := by omega
      obtain ⟨gone, hback⟩ :=
        rollbackTo_registerAll_of_le (consistent_ofBuiltins builtins) hsize.1 hwithin
      rw [after, hback, hzero, Int.natCast_zero, Int.sub_zero]
    · next hsize => exact after_rollbackTo_of_outside (by omega)

/-- Only the list matters, and not how it came about. -/
theorem afterAll_ofBuiltins (builtins : List String) (changes : List Change) :
    (ofBuiltins builtins).afterAll changes =
      (ofBuiltins builtins).registerAll (changes.foldl Change.onList []) := by
  induction changes using List.reverseRecOn with
  | nil => rfl
  | append_singleton changes change ih =>
    rw [afterAll, List.foldl_append, List.foldl_append]
    show ((ofBuiltins builtins).afterAll changes).after change = _
    rw [ih, after_registerAll]
    rfl

/-- After any registrations and rollbacks, the history is the list that was appended to
    and truncated. Each name is counted as often as it is in the list, and a name that
    is not is not counted at all; the types are the built-in ones and the names in the
    list. A rollback fails exactly if the list is not that long, and then all is as it
    was. -/
theorem afterAll_tracks_list (builtins : List String) (changes : List Change) :
    let t := (ofBuiltins builtins).afterAll changes
    let list := changes.foldl Change.onList []
    t.history = list ∧
    (∀ name, t.counts.entries.lookup name =
      if name ∈ list then some (list.count name) else none) ∧
    (∀ name, t.isType name = true ↔ name ∈ builtins ∨ name ∈ list) ∧
    (∀ name, name ∈ t.known ↔ name ∈ builtins ∨ name ∈ list) ∧
    ∀ size : Int,
      (∀ fault, t.rollbackTo size = .error fault ↔
        fault = .rollback size list.length ∧ (size < 0 ∨ list.length < size)) ∧
      (size < 0 ∨ list.length < size → t.after (.rollbackTo size) = t) := by
  intro t list
  have ht : t = (ofBuiltins builtins).registerAll list := afterAll_ofBuiltins builtins changes
  have hconsistent : t.Consistent := ht ▸ consistent_registerAll (consistent_ofBuiltins _) list
  have hhistory : t.history = list := by
    rw [ht, history_registerAll]
    rfl
  have hmark : t.mark = list.length := by rw [mark_eq_length_history, hhistory]
  have hvisible (name : String) : name ∈ t.visible ↔ name ∈ builtins ∨ name ∈ list := by
    rw [ht, visible_registerAll, visible_ofBuiltins, List.mem_append]
  refine ⟨hhistory, fun name => ?_, fun name => (isType_iff hconsistent name).trans (hvisible name),
    fun name => (mem_known hconsistent name).trans (hvisible name), fun size => ⟨fun fault => ?_, ?_⟩⟩
  · -- the counts are those of the registered names, the latest of which comes first
    have hregistered : t.registered = list.reverse := by
      rw [← hhistory, history, List.reverse_reverse]
    rw [hconsistent name, hregistered]
    simp
  · rw [rollbackTo_eq_error_iff, hmark]
  · exact fun h => after_rollbackTo_of_outside (hmark ▸ h)

/-- Names that are registered again, one of them built in, and rollbacks over some of
    them and to lengths that there are not. -/
def tangledChanges : List Change :=
  [.register "a", .register "int", .register "a", .rollbackTo 4, .rollbackTo 2, .register "b",
    .register "int", .rollbackTo (-1), .rollbackTo 3]

theorem afterAll_tracks_list_tangledChanges :
    let t := (ofBuiltins ["int"]).afterAll tangledChanges
    t.history = ["a", "int", "b"] ∧ t.counts.entries.lookup "int" = some 1 ∧
    t.rollbackTo 4 = .error (.rollback 4 3) ∧ t.after (.rollbackTo 4) = t := by
  have hlist : tangledChanges.foldl Change.onList [] = ["a", "int", "b"] := by decide
  obtain ⟨hhistory, hcounts, -, -, hroll⟩ := afterAll_tracks_list ["int"] tangledChanges
  rw [hlist] at hhistory hcounts hroll
  obtain ⟨hfails, hkeeps⟩ := hroll 4
  exact ⟨hhistory, hcounts "int", (hfails _).2 ⟨rfl, .inr (by decide)⟩, hkeeps (.inr (by decide))⟩

end TypeNames

end Flattener
