import Flattener.Flattening.Naming
import Flattener.Flattening.Page

/-!
# Passages

What is written for a tree is a list of passages, each for what one namespace
holds. Where a page stops short, the passage tells in which namespace it does.
-/

namespace Flattener

/-- Directives that are all performed in the namespace of a path. -/
structure Passage where
  path : Path
  directives : List Directive
  deriving DecidableEq, Repr

/-- The page after the passages that can be written in order. If not all of them
    can, the path of the first one that cannot, and why. -/
def Page.attemptPassages (p : Page) : List Passage → Except (Path × Fault) Unit × Page
  | [] => (.ok (), p)
  | passage :: others =>
    match p.attemptAll passage.directives with
    | (.ok (), page) => page.attemptPassages others
    | (.error fault, page) => (.error (passage.path, fault), page)

end Flattener
