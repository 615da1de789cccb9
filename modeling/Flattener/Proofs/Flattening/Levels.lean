import Flattener.Flattening.Declaration

/-!
# The levels of lines

A page puts an indentation in front of the first text of each line, as wide as the
level of that line says. Of directives it is known which lines they begin, and at
which levels (`Page.levels`); the text of the page and the width of its indentation
play no part in that (`Page.levels_congr`). So directives are all performed if the
width fits at each of those levels (`Page.attemptAll_eq_performAll`), and stop short
if it does not (`Page.exists_attemptAll_of_not_fits`), and the same goes for a tree
that is rendered (`Scope.render_eq_ok`, `Scope.render_eq_error`).

Each level is reached by directives that indent, and declarations do that for the
members of a struct only. All else that is written for them is `Steady`.
-/

namespace Flattener

/-- Blanks of the width can be written at each of the levels. -/
def Text.Fits (levels : List Nat) (width : Int) : Prop :=
  ∀ level ∈ levels, fitsWord (level * width) = true

instance (levels : List Nat) (width : Int) : Decidable (Text.Fits levels width) :=
  inferInstanceAs (Decidable (∀ level ∈ levels, fitsWord (level * width) = true))

theorem Text.fits_append {first second : List Nat} {width : Int} :
    Fits (first ++ second) width ↔ Fits first width ∧ Fits second width :=
  List.forall_mem_append

/-- Where blanks can be written at a level, they can be at all that are less deep. -/
theorem fitsWord_of_le {m n : Nat} {width : Int} (h : m ≤ n) (hfits : fitsWord (n * width) = true) :
    fitsWord (m * width) = true := by
  have hle : (m : Int) ≤ n := Int.ofNat_le.2 h
  simp only [fitsWord, Bool.and_eq_true, decide_eq_true_eq] at hfits ⊢
  -- the product lies between zero and the one that fits
  rcases Int.le_total 0 width with hpos | hneg
  · have hlow := Int.mul_nonneg (Int.natCast_nonneg m) hpos
    have hhigh := Int.mul_le_mul_of_nonneg_right hle hpos
    omega
  · have hhigh := Int.mul_nonpos_of_nonneg_of_nonpos (Int.natCast_nonneg m) hneg
    have hlow := Int.mul_le_mul_of_nonpos_right hle hneg
    omega

/-- What passages write, without the namespaces that they write it in. -/
def directivesOf (passages : List Passage) : List Directive :=
  passages.flatMap (·.directives)

namespace Page

/-- The level of the line that a directive begins, if it writes the first text of one. -/
def begun (p : Page) : Directive → List Nat
  | .write text _ => if p.atLineStart && text ≠ "" then [p.level] else []
  | _ => []

/-- The levels of the lines that directives begin, in order. -/
def levels (p : Page) : List Directive → List Nat
  | [] => []
  | directive :: others => p.begun directive ++ (p.perform directive).levels others

variable {p q : Page} {directive : Directive} {directives : List Directive}

/-! ## Attempts -/

/-- Only the line that it begins can keep a directive from being performed. -/
theorem fault?_eq (p : Page) (directive : Directive) : p.fault? directive =
    if Text.Fits (p.begun directive) p.settings.indentWidth then none else some .tooWide := by
  cases directive with
  | write text style =>
    rw [fault?, begun]
    split
    · rw [Text.blanksFault]
      simp only [Text.Fits, List.forall_mem_singleton]
    · exact (if_pos (List.forall_mem_nil _)).symm
  | gap | newline | freshLine | indent | dedent => exact (if_pos (List.forall_mem_nil _)).symm

/-- Where the indentation fits at all levels, all directives are performed. -/
theorem attemptAll_eq_performAll (h : Text.Fits (p.levels directives) p.settings.indentWidth) :
    p.attemptAll directives = (.ok (), p.performAll directives) := by
  induction directives generalizing p with
  | nil => rfl
  | cons directive others ih =>
    obtain ⟨hfirst, hothers⟩ := Text.fits_append.1 h
    rw [attemptAll, fault?_eq, if_pos hfirst]
    exact ih (by rw [settings_perform]; exact hothers)

/-- Where it does not, they stop short. -/
theorem exists_attemptAll_of_not_fits
    (h : ¬Text.Fits (p.levels directives) p.settings.indentWidth) :
    ∃ q, p.attemptAll directives = (.error .tooWide, q) := by
  induction directives generalizing p with
  | nil => exact absurd (List.forall_mem_nil _) h
  | cons directive others ih =>
    rw [levels, Text.fits_append, not_and] at h
    by_cases hfirst : Text.Fits (p.begun directive) p.settings.indentWidth
    · have hothers := h hfirst
      rw [← settings_perform p directive] at hothers
      obtain ⟨q, hq⟩ := ih hothers
      exact ⟨q, by rw [attemptAll, fault?_eq, if_pos hfirst]; exact hq⟩
    · exact ⟨p, by rw [attemptAll, fault?_eq, if_neg hfirst]⟩

theorem levels_append (p : Page) (first second : List Directive) :
    p.levels (first ++ second) = p.levels first ++ (p.performAll first).levels second := by
  induction first generalizing p with
  | nil => rfl
  | cons directive others ih =>
    rw [List.cons_append, levels, ih, levels, List.append_assoc]
    rfl

theorem settings_performAll (p : Page) (directives : List Directive) :
    (p.performAll directives).settings = p.settings := by
  induction directives generalizing p with
  | nil => rfl
  | cons directive others ih => exact (ih _).trans (settings_perform p directive)

/-- Where the indentation fits at all levels, all passages are written. -/
theorem attemptPassages_eq_performAll {passages : List Passage}
    (h : Text.Fits (p.levels (directivesOf passages)) p.settings.indentWidth) :
    p.attemptPassages passages = (.ok (), p.performAll (directivesOf passages)) := by
  induction passages generalizing p with
  | nil => rfl
  | cons passage others ih =>
    rw [directivesOf, List.flatMap_cons, levels_append] at h
    obtain ⟨hfirst, hothers⟩ := Text.fits_append.1 h
    rw [attemptPassages, attemptAll_eq_performAll hfirst, directivesOf, List.flatMap_cons,
      performAll_append]
    exact ih (by rw [settings_performAll]; exact hothers)

theorem exists_attemptPassages_of_not_fits {passages : List Passage}
    (h : ¬Text.Fits (p.levels (directivesOf passages)) p.settings.indentWidth) :
    ∃ path q, p.attemptPassages passages = (.error (path, .tooWide), q) := by
  induction passages generalizing p with
  | nil => exact absurd (List.forall_mem_nil _) h
  | cons passage others ih =>
    rw [directivesOf, List.flatMap_cons, levels_append, Text.fits_append, not_and] at h
    by_cases hfirst : Text.Fits (p.levels passage.directives) p.settings.indentWidth
    · have hothers := h hfirst
      rw [← settings_performAll p passage.directives] at hothers
      obtain ⟨path, q, hq⟩ := ih hothers
      exact ⟨path, q, by rw [attemptPassages, attemptAll_eq_performAll hfirst]; exact hq⟩
    · obtain ⟨q, hq⟩ := exists_attemptAll_of_not_fits hfirst
      exact ⟨passage.path, q, by rw [attemptPassages, hq]⟩

/-! ## Where a page stands -/

/-- The pages are indented alike, and both or none of them is at the start of a line. -/
def StandsLike (p q : Page) : Prop :=
  p.level = q.level ∧ p.atLineStart = q.atLineStart

theorem StandsLike.perform (h : p.StandsLike q) (directive : Directive) :
    (p.perform directive).StandsLike (q.perform directive) := by
  obtain ⟨hlevel, hline⟩ := h
  cases directive <;> simp only [StandsLike, Page.perform, write, newline, hline] <;>
    (repeat' split) <;> simp_all

theorem StandsLike.begun_eq (h : p.StandsLike q) (directive : Directive) :
    p.begun directive = q.begun directive := by
  cases directive with
  | write text style => rw [begun, begun, h.1, h.2]
  | gap | newline | freshLine | indent | dedent => rfl

/-- What pages look like plays no part in which lines are begun. -/
theorem levels_congr (h : p.StandsLike q) (directives : List Directive) :
    p.levels directives = q.levels directives := by
  induction directives generalizing p q with
  | nil => rfl
  | cons directive others ih => rw [levels, levels, h.begun_eq, ih (h.perform directive)]

theorem level_perform_le (p : Page) (directive : Directive) :
    (p.perform directive).level ≤ p.level + [directive].count .indent := by
  cases directive <;> simp only [perform, write, newline] <;> (repeat' split) <;> simp

/-- No line is deeper than as often as the directives indent. -/
theorem le_of_mem_levels {level : Nat} (h : level ∈ p.levels directives) :
    level ≤ p.level + directives.count .indent := by
  induction directives generalizing p with
  | nil => cases h
  | cons directive others ih =>
    rcases List.mem_append.1 h with hbegun | hothers
    · cases directive with
      | write text style =>
        rw [begun] at hbegun
        split at hbegun
        · exact List.mem_singleton.1 hbegun ▸ Nat.le_add_right _ _
        · cases hbegun
      | gap | newline | freshLine | indent | dedent => cases hbegun
    · have hlevel := p.level_perform_le directive
      have hcount : (directive :: others).count Directive.indent =
          [directive].count .indent + others.count .indent :=
        @List.count_append _ _ _ [directive] others
      have := ih hothers
      omega

end Page

/-! ## Declarations -/

/-- The directives leave the level as it is, all of the way. -/
def Steady (directives : List Directive) : Prop :=
  Directive.indent ∉ directives ∧ Directive.dedent ∉ directives

instance (directives : List Directive) : Decidable (Steady directives) :=
  inferInstanceAs (Decidable (_ ∧ _))

section

variable {first second directives : List Directive}

theorem Steady.append (h : Steady first) (h' : Steady second) : Steady (first ++ second) :=
  ⟨List.not_mem_append h.1 h'.1, List.not_mem_append h.2 h'.2⟩

theorem steady_flatMap {α : Type} {directives : α → List Directive} {list : List α}
    (h : ∀ a ∈ list, Steady (directives a)) : Steady (list.flatMap directives) := by
  refine ⟨fun hmem => ?_, fun hmem => ?_⟩ <;> obtain ⟨a, ha, hdirective⟩ := List.mem_flatMap.1 hmem
  · exact (h a ha).1 hdirective
  · exact (h a ha).2 hdirective

theorem steady_write (text : String) (style : Style) : Steady [.write text style] := by
  simp [Steady]

theorem Steady.count_indent (h : Steady directives) : directives.count .indent = 0 :=
  List.count_eq_zero.2 h.1

end

namespace Naming

variable (n : Naming) (path : Path)

theorem steady_terminator : Steady terminator := by
  decide

theorem steady_typeLead (t : TypeRef) : Steady (n.typeLead path t) := by
  unfold typeLead
  split <;> simp [Steady, typeName]

theorem steady_initialSuffix (v : Variable) : Steady (n.initialSuffix v) := by
  unfold initialSuffix
  split <;> simp [Steady, initializer]

theorem steady_arraySuffix (t : TypeRef) : Steady (arraySuffix t) := by
  unfold arraySuffix
  split <;> simp [Steady]

theorem steady_variableAs (name : String) (v : Variable) : Steady (n.variableAs path name v) :=
  ((n.steady_typeLead path v.type).append ((steady_write name .identifier).append
    (steady_arraySuffix v.type))).append (n.steady_initialSuffix v)

theorem steady_parameters (list : List Variable) : Steady (n.parameters path list) := by
  have hbetween {inside : List Directive} (h : Steady inside) :
      Steady (.write "(" .operator :: inside ++ [.write ")" .operator]) :=
    ((steady_write "(" .operator).append h).append (steady_write ")" .operator)
  cases list with
  | nil => exact hbetween (steady_write "void" .keyword)
  | cons first others =>
    have hcomma : Steady [.write "," .operator, .write " " .plain] := by decide
    exact hbetween ((n.steady_variableAs path first.name.text first).append
      (steady_flatMap fun v _ => hcomma.append (n.steady_variableAs path v.name.text v)))

/-- A function up to its `;`. -/
theorem steady_prototype (s : Signature) : Steady (n.typeLead path s.returns ++
    .write (n.qualified path s.name.text) .identifier :: n.parameters path s.parameters) :=
  (n.steady_typeLead path s.returns).append
    ((steady_write (n.qualified path s.name.text) .identifier).append
      (n.steady_parameters path s.parameters))

/-- A pointer to a function up to its `;`. -/
theorem steady_pointer (s : Signature) : Steady (n.typeLead path s.returns ++
    [.write "(*" .operator, .write s.name.text .identifier, .write ")" .operator] ++
    n.parameters path s.parameters) := by
  have hname : Steady [.write "(*" .operator, .write s.name.text .identifier,
      .write ")" .operator] := by simp [Steady]
  exact ((n.steady_typeLead path s.returns).append hname).append
    (n.steady_parameters path s.parameters)

theorem steady_member (m : Member) : Steady (n.member path m) := by
  cases m with
  | field f =>
    exact (n.steady_variableAs path f.declared.name.text f.declared).append steady_terminator
  | functionPointer s => exact (n.steady_pointer path s).append steady_terminator

theorem steady_functionDecl (s : Signature) : Steady (n.functionDecl path s) :=
  (n.steady_prototype path s).append steady_terminator

theorem steady_variableDecl (v : Variable) : Steady (n.variableDecl path v) :=
  (n.steady_variableAs path (n.qualified path v.name.text) v).append steady_terminator

theorem steady_structLead (name : Name) : Steady (n.structLead path name) := by
  simp [Steady, structLead]

theorem steady_traitComment (traits : List TypeRef) : Steady (n.traitComment path traits) := by
  unfold traitComment
  split <;> simp [Steady]

/-- What is inside of a struct is indented once. -/
theorem count_indent_structAround (name : Name) {inside : List Directive} (h : Steady inside) :
    (n.structAround path name inside).count .indent = 1 := by
  rw [structAround, List.count_append, List.count_append, List.count_append,
    (n.steady_structLead path name).count_indent, h.count_indent]
  rfl

end Naming

/-! ## Trees -/

namespace Scope

/-- What is written for a tree. -/
def directives (s : Scope) (separator : String) (builtins : List String) : List Directive :=
  directivesOf ((Naming.mk separator builtins (typePathsOf [] s.children)).items [] s.children)

/-- The levels of the lines that are written for a tree, in order. -/
def levels (s : Scope) (separator : String) (builtins : List String) : List Nat :=
  (Page.empty .standard).levels (s.directives separator builtins)

variable {s : Scope} {settings : PageSettings} {separator : String} {builtins : List String}

theorem levels_eq (s : Scope) (settings : PageSettings) (separator : String)
    (builtins : List String) : s.levels separator builtins =
      (Page.empty settings).levels (s.directives separator builtins) :=
  @Page.levels_congr (.empty .standard) (.empty settings) ⟨rfl, rfl⟩ _

/-- Where the indentation fits at all levels of a tree, the tree is rendered. -/
theorem render_eq_ok (h : Text.Fits (s.levels separator builtins) settings.indentWidth) :
    s.render settings separator builtins =
      .ok ((Page.empty settings).performAll (s.directives separator builtins)).text := by
  rw [levels_eq s settings] at h
  rw [render, Page.attemptPassages_eq_performAll (p := .empty settings) h]
  rfl

/-- Where it does not, the tree is not rendered. -/
theorem render_eq_error (h : ¬Text.Fits (s.levels separator builtins) settings.indentWidth) :
    s.render settings separator builtins = .error .tooWide := by
  rw [levels_eq s settings] at h
  obtain ⟨path, page, hpage⟩ := Page.exists_attemptPassages_of_not_fits (p := .empty settings) h
  rw [render, hpage]

/-- A tree that is rendered has an indentation that fits at all levels. -/
theorem fits_of_render {output : String} (h : s.render settings separator builtins = .ok output) :
    Text.Fits (s.levels separator builtins) settings.indentWidth := by
  refine Decidable.by_contra fun hwide => ?_
  cases h.symm.trans (render_eq_error hwide)

theorem output_of_render {output : String} (h : s.render settings separator builtins = .ok output) :
    output = ((Page.empty settings).performAll (s.directives separator builtins)).text :=
  Except.ok.inj (h.symm.trans (render_eq_ok (fits_of_render h)))

end Scope

end Flattener
