import Flattener.Flattening.Session
import Flattener.Proofs.Flattening.Levels

/-!
# Namespaces that are entered and left

A tree can be written by going through it with a session: a namespace is entered in
front of what it holds and left behind it, and so is a class around its methods
(`visitItems`). Every namespace that is left was entered before, so that the stack of
them is never empty there, and what is written is what the passages of the tree say
(`visitItems_eq`). The one thing that can go wrong is an indentation that does not fit
(`Scope.visit_fst`).
-/

namespace Flattener

namespace Page

theorem attemptPassages_append (p : Page) (first second : List Passage) :
    p.attemptPassages (first ++ second) =
      match p.attemptPassages first with
      | (.ok (), page) => page.attemptPassages second
      | (.error found, page) => (.error found, page) := by
  induction first generalizing p with
  | nil => rfl
  | cons passage first ih =>
    rw [List.cons_append, attemptPassages, attemptPassages]
    split
    · exact ih _
    · rfl

end Page

namespace RenderSession

/-- One thing after another, up to the first one that fails. -/
def andThen (done : Except Fault Unit × RenderSession)
    (next : RenderSession → Except Fault Unit × RenderSession) :
    Except Fault Unit × RenderSession :=
  match done with
  | (.ok (), s) => next s
  | (.error fault, s) => (.error fault, s)

/-- A namespace is entered, and left behind what is inside. -/
def within (s : RenderSession) (name : String)
    (inside : RenderSession → Except Fault Unit × RenderSession) :
    Except Fault Unit × RenderSession :=
  andThen (inside (s.enter name)) fun s =>
    match s.leave with
    | .ok s => (.ok (), s)
    | .error fault => (.error fault, s)

mutual

/-- An item at the end of the page, with the namespaces in it entered and left. -/
def visitItem (s : RenderSession) : Item → Except Fault Unit × RenderSession
  | .namespaceDecl name children => s.within name.text fun s => s.visitItems children
  | .classDecl declared =>
    match declared.body with
    | none => s.attempt (s.naming.classDecl s.path declared)
    | some body =>
      let members := s.naming.traitComment s.path body.traits ++
        body.members.flatMap (s.naming.member s.path)
      andThen (s.attempt [⟨s.path, s.naming.structAround s.path declared.name members⟩]) fun s =>
        s.within declared.name.text fun s =>
          s.attempt [⟨s.path, body.methods.flatMap (s.naming.functionDecl s.path)⟩]
  | .raw run => s.attempt [⟨s.path, s.naming.rawRun run⟩]
  | .variableDecl declared => s.attempt [⟨s.path, s.naming.variableDecl s.path declared⟩]
  | .functionDecl declared => s.attempt [⟨s.path, s.naming.functionDecl s.path declared⟩]
  | .structDecl declared => s.attempt [⟨s.path, s.naming.structDecl s.path declared⟩]

/-- Items at the end of the page, in order. -/
def visitItems (s : RenderSession) : List Item → Except Fault Unit × RenderSession
  | [] => (.ok (), s)
  | first :: others => andThen (s.visitItem first) fun s => s.visitItems others

end

variable {s : RenderSession}

theorem attempt_of_fits {passages : List Passage}
    (h : Text.Fits (s.page.levels (directivesOf passages)) s.page.settings.indentWidth) :
    s.attempt passages = (.ok (), { s with page := s.page.performAll (directivesOf passages) }) := by
  rw [attempt, Page.attemptPassages_eq_performAll h]

theorem attempt_of_not_fits {passages : List Passage}
    (h : ¬Text.Fits (s.page.levels (directivesOf passages)) s.page.settings.indentWidth) :
    (s.attempt passages).1 = .error .tooWide := by
  obtain ⟨path, page, hpage⟩ := Page.exists_attemptPassages_of_not_fits h
  rw [attempt, hpage]

/-- Passages are written one list after the other. -/
theorem attempt_append (s : RenderSession) (first second : List Passage) :
    s.attempt (first ++ second) = andThen (s.attempt first) fun s => s.attempt second := by
  unfold attempt
  rw [Page.attemptPassages_append]
  rcases s.page.attemptPassages first with ⟨⟨⟩ | ⟨⟩, page⟩ <;> rfl

/-- Where all is written, the session is at the path where it was. -/
theorem andThen_attempt {passages : List Passage}
    {next next' : RenderSession → Except Fault Unit × RenderSession}
    (h : ∀ page, next { s with page := page } = next' { s with page := page }) :
    andThen (s.attempt passages) next = andThen (s.attempt passages) next' := by
  unfold attempt
  rcases s.page.attemptPassages passages with ⟨⟨⟩ | ⟨⟩, page⟩
  · rfl
  · exact h page

/-- The namespace that is left is the one that was entered. -/
theorem within_eq {name : String} {passages : List Passage}
    {inside : RenderSession → Except Fault Unit × RenderSession}
    (h : inside (s.enter name) = (s.enter name).attempt passages) :
    s.within name inside = s.attempt passages := by
  rw [within, h]
  unfold attempt enter
  rcases s.page.attemptPassages passages with ⟨⟨⟩ | ⟨⟩, page⟩
  · rfl
  · simp [andThen, leave]

mutual

theorem visitItem_eq : ∀ (item : Item) (s : RenderSession),
    s.visitItem item = s.attempt (s.naming.item s.path item)
  | .raw run, s => by rw [visitItem, Naming.item]
  | .variableDecl declared, s => by rw [visitItem, Naming.item]
  | .functionDecl declared, s => by rw [visitItem, Naming.item]
  | .structDecl declared, s => by rw [visitItem, Naming.item]
  | .classDecl declared, s => by
    rw [visitItem, Naming.item]
    cases hbody : declared.body with
    | none => rfl
    | some body =>
      rw [Naming.classDecl, hbody]
      exact (andThen_attempt fun page => within_eq rfl).trans (attempt_append s [_] [_]).symm
  | .namespaceDecl name children, s => by
    rw [visitItem, Naming.item]
    exact within_eq (visitItems_eq children (s.enter name.text))

/-- Going through items with a session writes their passages. -/
theorem visitItems_eq : ∀ (items : List Item) (s : RenderSession),
    s.visitItems items = s.attempt (s.naming.items s.path items)
  | [], s => by
    rw [visitItems, Naming.items]
    rfl
  | first :: others, s => by
    rw [visitItems, Naming.items, visitItem_eq first s, attempt_append]
    exact andThen_attempt fun page => visitItems_eq others _

end

end RenderSession

/-- A tree that is gone through, with no namespace around it. -/
def Scope.visit (tree : Scope) (settings : PageSettings) (separator : String)
    (builtins : List String) : Except Fault Unit × RenderSession :=
  RenderSession.visitItems
    ⟨tree, ⟨separator, builtins, typePathsOf [] tree.children⟩, [], .empty settings⟩ tree.children

/-- A tree is rendered by going through it. -/
theorem Scope.render_eq_visit (tree : Scope) (settings : PageSettings) (separator : String)
    (builtins : List String) : tree.render settings separator builtins =
      (tree.visit settings separator builtins).1.map fun _ =>
        (tree.visit settings separator builtins).2.page.text := by
  rw [visit, RenderSession.visitItems_eq, render]
  unfold RenderSession.attempt
  dsimp only
  rcases (Page.empty settings).attemptPassages _ with ⟨⟨⟩ | ⟨⟩, page⟩ <;> rfl

/-- Nothing but an indentation that does not fit stops the way through a tree. -/
theorem Scope.visit_fst (tree : Scope) (settings : PageSettings) (separator : String)
    (builtins : List String) : (tree.visit settings separator builtins).1 =
      if Text.Fits (tree.levels separator builtins) settings.indentWidth then .ok ()
      else .error .tooWide := by
  rw [visit, RenderSession.visitItems_eq, levels_eq tree settings]
  split
  · next hfits => rw [RenderSession.attempt_of_fits hfits]
  · next hwide => exact RenderSession.attempt_of_not_fits hwide

end Flattener
