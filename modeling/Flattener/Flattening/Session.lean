import Flattener.Flattening.Declaration
import Flattener.SignedIndex

/-!
# Stepping through a rendering

A `RenderSession` holds a rendering open: namespaces are entered and left by
hand, and any node of the tree is written under the path that this leaves. No
type is known to be declared until the whole tree is rendered for the first
time. Where writing stops short, what was written stays, and so does the path of
the namespace in which it stopped.
-/

namespace Flattener

/-- A rendering that is held open. -/
structure RenderSession where
  scope : Scope
  naming : Naming
  /-- The namespaces entered, the outermost first. -/
  path : Path
  page : Page

namespace RenderSession

/-- A session with an empty page, outside of all namespaces. -/
def start (scope : Scope) (settings : PageSettings) (separator : String)
    (builtins : List String) : RenderSession :=
  ⟨scope, ⟨separator, builtins, []⟩, [], .empty settings⟩

/-- The session inside of one more namespace. -/
def enter (s : RenderSession) (name : String) : RenderSession :=
  { s with path := s.path ++ [name] }

/-- The innermost namespace is left; there has to be one. -/
def leave (s : RenderSession) : Except Fault RenderSession :=
  if s.path.isEmpty then .error .emptyStack else .ok { s with path := s.path.dropLast }

/-- The name of something declared where the session is. -/
def qualified (s : RenderSession) (name : String) : String :=
  s.naming.qualified s.path name

/-- The name of a type referred to where the session is. -/
def resolved (s : RenderSession) (name : String) : String :=
  s.naming.resolved s.path name

/-- Passages at the end of the page. -/
def attempt (s : RenderSession) (passages : List Passage) : Except Fault Unit × RenderSession :=
  match s.page.attemptPassages passages with
  | (.ok (), page) => (.ok (), { s with page := page })
  | (.error (path, fault), page) => (.error fault, { s with path := path, page := page })

/-- A text is written, if the page has room for the indentation in front of it. -/
def write (s : RenderSession) (text : String) (style : Style) :
    Except Fault Unit × RenderSession :=
  s.attempt [⟨s.path, [.write text style]⟩]

/-- A node, by its place in preorder. -/
def visit (s : RenderSession) (place : Int) : Except Fault Unit × RenderSession :=
  match signedGet s.scope.nodes place with
  | .ok node => s.attempt (s.naming.node s.path node)
  | .error fault => (.error fault, s)

/-- The whole tree, under the path entered. From now on its types are known. -/
def render (s : RenderSession) : Except Fault Unit × RenderSession :=
  let naming := { s.naming with declared := typePathsOf [] s.scope.children }
  { s with naming := naming }.attempt (naming.items s.path s.scope.children)

end RenderSession

end Flattener
