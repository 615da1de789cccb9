import Flattener.Flattening.Naming

/-!
# What a type name means

A name means the innermost declaration around it (`Naming.Means`), or none
(`Naming.Undeclared`), and is written accordingly (`Naming.resolved_cases`). Both can be
told, and outside of namespaces every name is written as it is (`Naming.resolved_nil`).
-/

namespace Flattener.Naming

/-- Under a path, the name means the type that is declared under the outer path:
    no path between the two declares the name. -/
structure Means (n : Naming) (path : Path) (name : String) (outer : Path) : Prop where
  around : outer <+: path
  declared : outer ++ [name] ∈ n.declared
  innermost : ∀ other, other <+: path → other ++ [name] ∈ n.declared → other <+: outer

/-- No path around this one declares the name. -/
def Undeclared (n : Naming) (path : Path) (name : String) : Prop :=
  ∀ outer, outer <+: path → outer ++ [name] ∉ n.declared

theorem mem_enclosing {path outer : Path} : outer ∈ enclosing path ↔ outer <+: path := by
  rw [enclosing, List.mem_map]
  constructor
  · rintro ⟨depth, -, rfl⟩
    exact List.take_prefix depth path
  · intro h
    refine ⟨outer.length, ?_, (List.prefix_iff_eq_take.1 h).symm⟩
    rw [List.mem_reverse, List.mem_range]
    exact Nat.lt_succ_of_le h.length_le

instance (n : Naming) (path : Path) (name : String) : Decidable (n.Undeclared path name) :=
  decidable_of_iff (∀ outer ∈ enclosing path, outer ++ [name] ∉ n.declared)
    (forall_congr' fun _ => imp_congr_left mem_enclosing)

instance (n : Naming) (path : Path) (name : String) (outer : Path) :
    Decidable (n.Means path name outer) :=
  decidable_of_iff (outer <+: path ∧ outer ++ [name] ∈ n.declared ∧
      ∀ other ∈ enclosing path, other ++ [name] ∈ n.declared → other <+: outer)
    ⟨fun ⟨haround, hdeclared, hinner⟩ =>
        ⟨haround, hdeclared, fun other hother => hinner other (mem_enclosing.2 hother)⟩,
      fun h => ⟨h.around, h.declared,
        fun other hother => h.innermost other (mem_enclosing.1 hother)⟩⟩

/-- Each path is around those in front of it. -/
theorem pairwise_enclosing (path : Path) :
    (enclosing path).Pairwise fun inner outer => outer <+: inner := by
  rw [enclosing, List.pairwise_map, List.pairwise_reverse]
  exact List.pairwise_lt_range.imp fun h => List.take_prefix_take_left (Nat.le_of_lt h)

/-- A name is written as that of the type that it means, or as itself. -/
theorem resolved_cases (n : Naming) (path : Path) (name : String) :
    (∃ outer, n.Means path name outer ∧ n.resolved path name = n.qualified outer name) ∨
      n.Undeclared path name ∧ n.resolved path name = name := by
  rw [resolved]
  cases hfind : (enclosing path).find? fun outer => n.declared.contains (outer ++ [name]) with
  | none =>
    refine .inr ⟨fun outer houter hdeclared => ?_, rfl⟩
    have hnone := List.find?_eq_none.1 hfind outer (mem_enclosing.2 houter)
    exact hnone (List.contains_iff_mem.2 hdeclared)
  | some outer =>
    obtain ⟨hcontains, inner, others, hsplit, hinner⟩ := List.find?_eq_some_iff_append.1 hfind
    refine .inl ⟨outer, ⟨?_, List.contains_iff_mem.1 hcontains, ?_⟩, rfl⟩
    · exact mem_enclosing.1 (List.mem_of_find?_eq_some hfind)
    · intro other hother hdeclared
      have hpairwise := pairwise_enclosing path
      have hmem := mem_enclosing.2 hother
      rw [hsplit] at hpairwise hmem
      -- what stands in front of the path found does not declare the name
      rcases List.mem_append.1 hmem with hfront | hmem
      · have hnone := hinner other hfront
        rw [List.contains_iff_mem.2 hdeclared] at hnone
        cases hnone
      · rcases List.mem_cons.1 hmem with rfl | hbehind
        · exact List.prefix_rfl
        · exact (List.pairwise_cons.1 (List.pairwise_append.1 hpairwise).2.1).1 other hbehind

section

variable {n : Naming} {path outer : Path} {name : String}

theorem resolved_of_undeclared (h : n.Undeclared path name) : n.resolved path name = name := by
  rcases n.resolved_cases path name with ⟨outer, hmeans, -⟩ | ⟨-, hwritten⟩
  · exact absurd hmeans.declared (h outer hmeans.around)
  · exact hwritten

/-- A name means one type only. -/
theorem resolved_of_means (h : n.Means path name outer) :
    n.resolved path name = n.qualified outer name := by
  rcases n.resolved_cases path name with ⟨other, hmeans, hwritten⟩ | ⟨hnone, -⟩
  · have hsame := (h.innermost other hmeans.around hmeans.declared).eq_of_length_le
      (hmeans.innermost outer h.around h.declared).length_le
    rw [hwritten, hsame]
  · exact absurd h.declared (hnone outer h.around)

/-- Outside of namespaces, names are written as they are. -/
theorem qualified_nil (n : Naming) (name : String) : n.qualified [] name = name :=
  String.intercalate_singleton

theorem resolved_nil (n : Naming) (name : String) : n.resolved [] name = name := by
  rcases n.resolved_cases [] name with ⟨outer, hmeans, hwritten⟩ | ⟨-, hwritten⟩
  · rw [hwritten, List.prefix_nil.1 hmeans.around, qualified_nil]
  · exact hwritten

end

end Flattener.Naming
