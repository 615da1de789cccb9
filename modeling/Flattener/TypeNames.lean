import Flattener.Diagnostic
import Flattener.TypeNames.Tally

/-!
# Names that are types

The grammar cannot tell a declaration `foo * a;` from a product: it depends on
whether `foo` is a type at that point. `TypeNames` holds the names that are
types: the built-in ones for good, and the registered ones until the history of
registrations is rolled back behind them. A name that was registered several
times stays a type until its last registration is undone.
-/

namespace Flattener

/-- The types that every program knows unless its reader says otherwise. -/
def standardTypes : List String :=
  ["void", "char", "int", "double"]

/-- The names that are types at a point of a program. -/
structure TypeNames where
  builtins : List String
  /-- The registered names, the latest first. -/
  registered : List String
  /-- How many registrations of each name are left. -/
  counts : Tally
  deriving DecidableEq, Repr

namespace TypeNames

/-- Nothing but the built-in types. -/
def ofBuiltins (builtins : List String) : TypeNames :=
  ⟨builtins, [], .empty⟩

/-- The registrations in the order in which they were made. -/
def history (t : TypeNames) : List String :=
  t.registered.reverse

/-- The length of the history, to roll back to. -/
def mark (t : TypeNames) : Nat :=
  t.registered.length

/-- The name is a type. -/
def isType (t : TypeNames) (name : String) : Bool :=
  t.builtins.contains name || t.counts.contains name

/-- Names by code points, each one once. -/
def sorted (names : List String) : List String :=
  names.eraseDups.mergeSort fun a b => !decide (b < a)

/-- Every name that is a type. -/
def known (t : TypeNames) : List String :=
  sorted (t.builtins ++ t.counts.names)

/-- The name becomes a type, or one that is registered once more. -/
def register (t : TypeNames) (name : String) : TypeNames :=
  { t with registered := name :: t.registered, counts := t.counts.insert name }

/-- A registration is the last one of the history. -/
theorem history_register (t : TypeNames) (name : String) :
    (t.register name).history = t.history ++ [name] :=
  List.reverse_cons

theorem mark_eq_length_history (t : TypeNames) : t.mark = t.history.length :=
  List.length_reverse.symm

/-- The latest `n` registrations are undone. Also returned are the names that
    ceased to be registered, in that order. -/
def undo : Nat → TypeNames → TypeNames × List String
  | 0, t => (t, [])
  | n + 1, t =>
    match t.registered with
    | [] => (t, [])
    | name :: older =>
      let counts := t.counts.erase name
      let (t', gone) := undo n { t with registered := older, counts := counts }
      (t', if counts.contains name then gone else name :: gone)

/-- The history is cut back to its first `size` registrations. Also returned
    are the names that ceased to be registered. -/
def rollbackTo (t : TypeNames) (size : Int) : Except Fault (TypeNames × List String) :=
  if size < 0 ∨ t.mark < size then .error (.rollback size t.mark)
  else .ok (t.undo (t.mark - size.toNat))

end TypeNames

end Flattener
