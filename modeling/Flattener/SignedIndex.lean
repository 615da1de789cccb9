import Flattener.Fault

/-!
# Places counted from either end

A list has its elements at the places from zero on and, counted from its end,
at those from minus one down.
-/

namespace Flattener

/-- The index in a list of the given length of a place, which counts from the
    end if it is negative. -/
def signedIndex (length : Nat) (place : Int) : Except Fault Nat :=
  let index := if 0 ≤ place then place else length + place
  if !fitsWord place then .error .noPosition
  else if 0 ≤ index ∧ index < length then .ok index.toNat
  else .error .outOfRange

/-- The element at a place, which counts from the end if it is negative. -/
def signedGet {α : Type} (list : List α) (place : Int) : Except Fault α := do
  match list[← signedIndex list.length place]? with
  | some element => return element
  | none => throw .outOfRange

end Flattener
