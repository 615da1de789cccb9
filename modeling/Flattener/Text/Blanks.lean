import Flattener.Fault

/-!
# Stretches of blanks

A stretch of blanks is a width, taken a number of times; if that is negative, there
are no blanks. The product is an integer of any size, but blanks can only be counted
by one that fits in a word. There is room for every stretch that can be counted.
-/

namespace Flattener.Text

/-- Why there are no blanks of a width taken so many times, if there are none. -/
def blanksFault (times : Nat) (width : Int) : Option Fault :=
  if fitsWord (times * width) then none else some .tooWide

end Flattener.Text
