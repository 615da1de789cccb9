import Flattener.Text.Ansi
import Flattener.Text.Blanks

/-!
# Pages

A page is text that is written from its head to its end. It knows how deep it is
indented and whether it stands at the start of a line, and puts the indentation
before the first text of each line. What is written is a list of `Directive`s,
which can be made without knowing the page; only `gap` and `freshLine` depend on
it, as both do nothing at the start of a line.

An indentation may be too wide to be written at all. Directives are then performed
up to the one that asks for it (`attemptAll`); if none does, that is all of them
(`performAll`).
-/

namespace Flattener

/-- What a stretch of text is, to be shown in a color of its own. -/
inductive Style
  | plain
  | keyword
  | identifier
  | number
  | string
  | operator
  | comment
  deriving DecidableEq, Repr

/-- The graphic rendition of a style: blue and bold keywords, yellow
    identifiers, cyan numbers, green strings, white operators, gray comments. -/
def Style.codes : Style → List Nat
  | .plain => []
  | .keyword => [34, 1]
  | .identifier => [33]
  | .number => [36]
  | .string => [32]
  | .operator => [37]
  | .comment => [90]

/-- How pages look. -/
structure PageSettings where
  /-- Spaces for each level of indentation; a negative number is none. -/
  indentWidth : Int
  /-- Styles are shown. -/
  color : Bool
  deriving DecidableEq, Repr

/-- Four spaces for each level, and no colors. -/
def PageSettings.standard : PageSettings :=
  ⟨4, false⟩

/-- One thing to do to a page. -/
inductive Directive
  /-- Text in a style, none of it a line end. -/
  | write (text : String) (style : Style)
  /-- A space, unless the page stands at the start of a line. -/
  | gap
  | newline
  /-- A newline, unless the page stands at the start of a line. -/
  | freshLine
  | indent
  | dedent
  deriving DecidableEq, Repr

/-- Text written so far, and where that leaves the writer. -/
structure Page where
  settings : PageSettings
  text : String
  level : Nat
  atLineStart : Bool
  deriving DecidableEq, Repr

namespace Page

/-- A page with nothing on it. -/
def empty (settings : PageSettings) : Page :=
  ⟨settings, "", 0, true⟩

/-- The spaces at the head of a line. -/
def indentation (p : Page) : String :=
  String.ofList (List.replicate (p.level * p.settings.indentWidth).toNat ' ')

/-- Text as the page shows it. -/
def shown (p : Page) (text : String) (style : Style) : String :=
  if p.settings.color && !style.codes.isEmpty then Text.styled style.codes text else text

/-- Text at the end of the page, behind the indentation if it is the first one
    of its line. Empty text changes nothing. -/
def write (p : Page) (text : String) (style : Style) : Page :=
  if text = "" then p
  else
    let lead := if p.atLineStart then p.indentation else ""
    { p with text := p.text ++ lead ++ p.shown text style, atLineStart := false }

/-- The page with its line ended. -/
def newline (p : Page) : Page :=
  { p with text := p.text ++ "\n", atLineStart := true }

/-- The page after one directive. -/
def perform (p : Page) : Directive → Page
  | .write text style => p.write text style
  | .gap => if p.atLineStart then p else p.write " " .plain
  | .newline => p.newline
  | .freshLine => if p.atLineStart then p else p.newline
  | .indent => { p with level := p.level + 1 }
  | .dedent => { p with level := p.level - 1 }

/-- Why a directive cannot be performed, if it cannot. -/
def fault? (p : Page) : Directive → Option Fault
  | .write text _ =>
    if p.atLineStart && text ≠ "" then Text.blanksFault p.level p.settings.indentWidth else none
  | _ => none

/-- The page after all directives, in order. -/
def performAll (p : Page) (directives : List Directive) : Page :=
  directives.foldl perform p

/-- Directives in a row are performed one list after the other. -/
theorem performAll_append (p : Page) (first second : List Directive) :
    p.performAll (first ++ second) = (p.performAll first).performAll second :=
  List.foldl_append

/-- The page after the directives that can be performed in order, and why not all
    of them can, if so. -/
def attemptAll (p : Page) : List Directive → Except Fault Unit × Page
  | [] => (.ok (), p)
  | directive :: others =>
    match p.fault? directive with
    | some fault => (.error fault, p)
    | none => (p.perform directive).attemptAll others

/-- Directives do not change how a page looks. -/
theorem settings_perform (p : Page) (directive : Directive) :
    (p.perform directive).settings = p.settings := by
  cases directive <;> simp only [perform, write, newline] <;> (repeat' split) <;> rfl

end Page

end Flattener
