/-!
# Likeness of texts

How much two texts have in common: their longest common stretch, what the texts
before it have in common, and what those behind it have. Two texts are alike if
three fifths of their characters, those of both counted, are in common.
-/

namespace Flattener.Text

/-- How many characters two texts begin with in common. -/
def commonLead : List Char → List Char → Nat
  | a :: as, b :: bs => if a = b then commonLead as bs + 1 else 0
  | _, _ => 0

/-- A stretch that two texts have in common: what stands before it in each, and
    how long it is. -/
structure CommonStretch where
  before : Nat
  otherBefore : Nat
  length : Nat
  deriving DecidableEq, Repr

/-- All stretches that two texts have in common, each as far as it goes, in the
    order of where they begin in the first one and then in the other. -/
def commonStretches (as bs : List Char) : List CommonStretch :=
  (List.range as.length).flatMap fun i =>
    (List.range bs.length).map fun j => ⟨i, j, commonLead (as.drop i) (bs.drop j)⟩

/-- The first of the longest stretches, or one of no length. -/
def longestStretch (as bs : List Char) : CommonStretch :=
  (commonStretches as bs).foldl
    (fun best stretch => if best.length < stretch.length then stretch else best) ⟨0, 0, 0⟩

/-- How many characters two texts have in common, with so many stretches at
    most. -/
def commonWithin (as bs : List Char) : Nat → Nat
  | 0 => 0
  | stretches + 1 =>
    let stretch := longestStretch as bs
    if stretch.length = 0 then 0
    else
      commonWithin (as.take stretch.before) (bs.take stretch.otherBefore) stretches +
        stretch.length +
        commonWithin (as.drop (stretch.before + stretch.length))
          (bs.drop (stretch.otherBefore + stretch.length)) stretches

/-- How many characters two texts have in common. There are no more stretches
    than characters in the first one. -/
def commonLength (as bs : String) : Nat :=
  commonWithin as.toList bs.toList as.length

/-- The characters of two texts, counted together. -/
def jointLength (as bs : String) : Nat :=
  as.length + bs.length

/-- At least three fifths of two texts are in common. -/
def areAlike (as bs : String) : Bool :=
  3 * jointLength as bs ≤ 10 * commonLength as bs

/-- The first text is more like the third one than the second is, or just as much
    and later in the order of texts. -/
def isCloser (first second target : String) : Bool :=
  let here := commonLength first target * jointLength second target
  let there := commonLength second target * jointLength first target
  there < here || (here = there && second < first)

/-- Of some texts those that are like another one, but at most the three that are
    most like it. -/
def closestTo (target : String) (texts : List String) : List String :=
  let alike := texts.filter (areAlike · target)
  alike.filter fun text => (alike.filter fun other => isCloser other text target).length < 3

end Flattener.Text
