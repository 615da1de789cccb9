/-!
# Tallies

A tally counts how often each name is held. A name whose count falls to zero
leaves the tally, so the names present are exactly those held at least once.
-/

namespace Flattener

/-- Names and how often each is held, in the order in which they were first
    taken up. -/
structure Tally where
  entries : List (String × Nat)
  deriving DecidableEq, Repr

namespace Tally

/-- The tally of nothing. -/
def empty : Tally :=
  ⟨[]⟩

/-- How often a name is held. -/
def count (t : Tally) (name : String) : Nat :=
  (t.entries.lookup name).getD 0

/-- The name is present. -/
def contains (t : Tally) (name : String) : Bool :=
  (t.entries.lookup name).isSome

/-- The names that have a count. -/
def names (t : Tally) : List String :=
  t.entries.map (·.1)

/-- One more of a name in a list of entries. -/
def raise (name : String) : List (String × Nat) → List (String × Nat)
  | [] => [(name, 1)]
  | (other, n) :: rest =>
    if other = name then (other, n + 1) :: rest else (other, n) :: raise name rest

/-- One less of a name in a list of entries, without the entry once nothing of
    it is left. -/
def lower (name : String) : List (String × Nat) → List (String × Nat)
  | [] => []
  | (other, n) :: rest =>
    if other = name then (if n ≤ 1 then rest else (other, n - 1) :: rest)
    else (other, n) :: lower name rest

/-- The tally with one more of a name. -/
def insert (t : Tally) (name : String) : Tally :=
  ⟨raise name t.entries⟩

/-- The tally with one less of a name. -/
def erase (t : Tally) (name : String) : Tally :=
  ⟨lower name t.entries⟩

end Tally

end Flattener
