import Flattener.Grammar.Span
import Flattener.Proofs.Flattening.Levels
import Flattener.Proofs.Token.Composition

/-!
# Pages that can be read back

The text of a page can be read back if, behind it, every text goes on that is
allowed to stand there (`Page.Opens`). What is allowed depends on what was written
last: anything at the start of a line, but only a delimiter behind a name. Each
directive is a step from one such page to another, and adds lexemes or none
(`Adds`); directives in a row add their lexemes in a row (`Adds.append`). So for
every stretch of directives it is said once what it adds, and what it allows to
stand in front of it and behind it.
-/

namespace Flattener

/-- What may follow a text for it to be read as it was meant. -/
abbrev Follower := List Char → Prop

/-- Everything may follow. -/
def Anything : Follower := fun _ => True

/-- What follows makes no assignment of the star in front of it. -/
def Unassigned : Follower := fun rest => ∀ c ∈ rest.head?, c ≠ '='

theorem unassigned_of_delimited {rest : List Char} (h : Delimited rest) : Unassigned rest := by
  rintro c hc rfl
  exact absurd (h '=' hc) (by decide)

/-- Without colors, text is shown as it is. -/
theorem Page.shown_of_plain {p : Page} (h : p.settings.color = false) (text : String)
    (style : Style) : p.shown text style = text := by
  rw [shown, h]
  rfl

/-- Without colors, the text of the page spells the lexemes together with what
    follows it, if that is allowed to. At the start of a line all is. -/
structure Page.Opens (p : Page) (ls : List Lexeme) (follower : Follower) : Prop where
  plain : p.settings.color = false
  spells : ∀ {rest ms}, p.atLineStart = true ∨ follower rest → Spells rest ms →
    Spells (p.text.toList ++ rest) (ls ++ ms)

theorem Page.Opens.mono {p : Page} {ls : List Lexeme} {follower follower' : Follower}
    (h : p.Opens ls follower) (himp : ∀ {rest}, follower' rest → follower rest) :
    p.Opens ls follower' :=
  ⟨h.plain, fun hfollow => h.spells (hfollow.imp_right himp)⟩

/-- Nothing is written on an empty page. -/
theorem Page.opens_empty {settings : PageSettings} (h : settings.color = false) :
    (Page.empty settings).Opens [] Anything :=
  ⟨h, fun _ hrest => hrest⟩

/-- All of the text is read back when nothing follows. -/
theorem Page.Opens.spells_text {p : Page} {ls : List Lexeme} (h : p.Opens ls Anything) :
    Spells p.text.toList ls := by
  have hspells := h.spells (.inr trivial) .nil
  rwa [List.append_nil, List.append_nil] at hspells

/-- Behind a page that allows the one, the directives add the lexemes and leave a
    page that allows the other. -/
def Adds (before : Follower) (directives : List Directive) (ls : List Lexeme)
    (behind : Follower) : Prop :=
  ∀ (p : Page) (front : List Lexeme), p.Opens front before →
    (p.performAll directives).Opens (front ++ ls) behind

namespace Adds

variable {a b c : Follower} {ds ds' : List Directive} {ls ls' : List Lexeme}

theorem nil : Adds a [] [] a := by
  intro p front h
  rw [List.append_nil]
  exact h

theorem append (h : Adds a ds ls b) (h' : Adds b ds' ls' c) : Adds a (ds ++ ds') (ls ++ ls') c := by
  intro p front hp
  rw [Page.performAll_append, ← List.append_assoc]
  exact h' _ _ (h p front hp)

/-- What each part adds between the same pages, a list adds in a row. -/
theorem flatMap {α : Type} {directives : α → List Directive} {lexemes : α → List Lexeme}
    {list : List α} (h : ∀ x ∈ list, Adds a (directives x) (lexemes x) a) :
    Adds a (list.flatMap directives) (list.flatMap lexemes) a := by
  induction list with
  | nil => exact nil
  | cons x others ih =>
    obtain ⟨hx, hothers⟩ := List.forall_mem_cons.1 h
    rw [List.flatMap_cons, List.flatMap_cons]
    exact hx.append (ih hothers)

/-- More may stand in front, and less behind. -/
theorem mono {a' b' : Follower} (h : Adds a ds ls b) (ha : ∀ {rest}, a rest → a' rest)
    (hb : ∀ {rest}, b' rest → b rest) : Adds a' ds ls b' :=
  fun p front hp => (h p front (hp.mono ha)).mono hb

/-- Where anything is allowed to follow, so is what the directives need. -/
theorem ofAnything (h : Adds a ds ls b) : Adds Anything ds ls b :=
  h.mono (fun _ => trivial) id

/-- Whatever is needed behind the directives, anything may follow them. -/
theorem toAny (h : Adds a ds ls Anything) : Adds a ds ls b :=
  h.mono id fun _ => trivial

end Adds

/-! ## One directive -/

/-- Text adds lexemes if it is allowed to follow what is in front of it, and spells
    the lexemes together with all that is allowed to follow it. Indentation in
    front of it makes no difference. -/
theorem adds_write {before behind : Follower} {text : String} {ls : List Lexeme} (hne : text ≠ "")
    (hbefore : ∀ rest, before (text.toList ++ rest))
    (hspells : ∀ {rest ms}, behind rest → Spells rest ms →
      Spells (text.toList ++ rest) (ls ++ ms)) (style : Style) :
    Adds before [.write text style] ls behind := by
  intro p front h
  have hshown := Page.shown_of_plain h.plain text style
  show (p.write text style).Opens _ _
  rw [Page.write, if_neg hne]
  refine ⟨h.plain, fun {rest ms} hfollow hrest => ?_⟩
  have hbehind : behind rest := hfollow.resolve_left Bool.false_ne_true
  rw [hshown, String.toList_append, String.toList_append, List.append_assoc, List.append_assoc,
    List.append_assoc]
  -- only at the start of a line is the text behind indentation
  cases hstart : p.atLineStart with
  | true =>
    refine h.spells (.inl hstart) ?_
    rw [if_pos rfl, Page.indentation, String.toList_ofList]
    exact (hspells hbehind hrest).behindBlanks (blanks_replicate _)
  | false =>
    rw [if_neg Bool.false_ne_true]
    exact h.spells (.inr (hbefore rest)) (hspells hbehind hrest)

/-- A line end is a gap that everything can follow. -/
theorem Page.Opens.newline {p : Page} {ls : List Lexeme} {follower : Follower}
    (h : p.Opens ls follower) (hline : ∀ rest, follower ('\n' :: rest)) :
    p.newline.Opens ls Anything := by
  refine ⟨h.plain, fun {rest ms} _ hrest => ?_⟩
  show Spells ((p.text ++ "\n").toList ++ rest) _
  rw [String.toList_append, List.append_assoc]
  exact h.spells (.inr (hline rest)) (.blank (by decide) hrest)

theorem adds_newline {follower : Follower} (hline : ∀ rest, follower ('\n' :: rest)) :
    Adds follower [.newline] [] Anything := by
  intro p front h
  rw [List.append_nil]
  exact h.newline hline

/-- At the start of a line, everything can follow. -/
theorem Page.Opens.ofLineStart {p : Page} {ls : List Lexeme} {follower : Follower}
    (h : p.Opens ls follower) (hstart : p.atLineStart = true) : p.Opens ls Anything :=
  ⟨h.plain, fun _ => h.spells (.inl hstart)⟩

theorem adds_freshLine : Adds Delimited [.freshLine] [] Anything := by
  intro p front h
  rw [List.append_nil]
  -- at the start of a line nothing is written, since everything is allowed there
  show (if p.atLineStart then p else p.newline).Opens front Anything
  split
  · next hstart => exact h.ofLineStart hstart
  · exact h.newline (delimited_cons (by decide))

theorem adds_space (style : Style) : Adds Delimited [.write " " style] [] Anything := by
  have hne : " " ≠ "" := by decide
  refine adds_write hne (fun rest => delimited_cons (by decide) rest) (fun _ hrest => ?_) style
  exact .blank (by decide) hrest

theorem adds_gap : Adds Delimited [.gap] [] Anything := by
  intro p front h
  show (if p.atLineStart then p else p.write " " .plain).Opens _ Anything
  split
  · next hstart =>
    rw [List.append_nil]
    exact h.ofLineStart hstart
  · exact adds_space .plain p front h

theorem adds_indent {a : Follower} : Adds a [.indent] [] a := by
  intro p front h
  rw [List.append_nil]
  exact ⟨h.plain, h.spells⟩

theorem adds_dedent {a : Follower} : Adds a [.dedent] [] a := by
  intro p front h
  rw [List.append_nil]
  exact ⟨h.plain, h.spells⟩

/-! ## Lexemes that are written -/

theorem Lexeme.Stands.spelling_ne {l : Lexeme} {rest : List Char} (h : l.Stands rest) :
    l.spelling ≠ "" := by
  obtain ⟨first, others, hspelling, -, -⟩ := h
  intro hnil
  rw [hnil] at hspelling
  cases hspelling

/-- A lexeme that stands in front of all that may follow is added as itself. -/
theorem adds_lexeme {before behind : Follower} {l : Lexeme} (hne : l.spelling ≠ "")
    (hbefore : ∀ rest, before (l.spelling.toList ++ rest))
    (hstands : ∀ rest, behind rest → l.Stands rest) (style : Style) :
    Adds before [.write l.spelling style] [l] behind :=
  adds_write hne hbefore (fun hbehind hrest => .lexeme (hstands _ hbehind) hrest) style

/-- What was read can be written where anything is allowed, in front of a
    delimiter. -/
theorem Lexeme.Readable.adds {l : Lexeme} (h : l.Readable) (style : Style) :
    Adds Anything [.write l.spelling style] [l] Delimited :=
  adds_lexeme (h.stands delimited_nil).spelling_ne (fun _ => trivial) (fun _ => h.stands) style

/-- A name can be written behind stars. -/
theorem IsWord.adds {name : String} (h : IsWord name.toList) (style : Style) :
    Adds Unassigned [.write name style] [.identifier name] Delimited := by
  have hstands (rest : List Char) (hrest : Delimited rest) : (Lexeme.identifier name).Stands rest :=
    h.stands (hrest.head_eq_false (by decide))
  refine adds_lexeme (l := .identifier name) (hstands [] delimited_nil).spelling_ne
    (fun rest => ?_) hstands style
  obtain ⟨first, others, hname, hfirst, -⟩ := h
  show Unassigned (name.toList ++ rest)
  rw [hname]
  rintro _ ⟨⟩ rfl
  exact absurd hfirst (by decide)

/-- A bracket, comma or semicolon can be written behind a name, and in front of
    anything. -/
theorem adds_punctuation {c : Char} (h : c ∈ punctuation) (style : Style) :
    Adds Delimited [.write (String.ofList [c]) style] [.operator (String.ofList [c])] Anything := by
  refine adds_lexeme (l := .operator (String.ofList [c])) ?_ (fun rest => ?_)
    (fun rest _ => stands_punctuation h rest) style
  · exact (stands_punctuation h []).spelling_ne
  · show Delimited ((String.ofList [c]).toList ++ rest)
    rw [String.toList_ofList]
    exact delimited_cons (List.mem_append_right _ h) rest

/-! ## Chunks of several lexemes -/

theorem unassigned_star (rest : List Char) : Unassigned ('*' :: rest) := by
  rintro _ ⟨⟩
  decide

/-- Stars do not join each other. -/
theorem Spells.stars {rest : List Char} {ms : List Lexeme} (hrest : Unassigned rest)
    (h : Spells rest ms) (n : Nat) :
    Spells (List.replicate n '*' ++ rest) (List.replicate n (.operator "*") ++ ms) := by
  induction n with
  | zero => exact h
  | succ n ih =>
    refine .lexeme (l := .operator "*") (stands_star ?_) ih
    cases n with
    | zero => exact hrest
    | succ n => exact unassigned_star _

/-- A run of stars, in front of the name of what points. -/
theorem adds_stars {n : Nat} (hn : n ≠ 0) (style : Style) :
    Adds Anything [.write (String.ofList (List.replicate n '*')) style]
      (List.replicate n (.operator "*")) Unassigned := by
  have hne : String.ofList (List.replicate n '*') ≠ "" := by
    rw [ne_eq, String.ofList_eq_empty_iff, List.replicate_eq_nil_iff]
    exact hn
  refine adds_write hne (fun _ => trivial) (fun hrest h => ?_) style
  rw [String.toList_ofList]
  exact h.stars hrest n

/-- The opening of a pointer to a function, in front of its name. -/
theorem adds_pointerOpening (style : Style) :
    Adds Delimited [.write "(*" style] [.operator "(", .operator "*"] Unassigned := by
  have hne : "(*" ≠ "" := by decide
  refine adds_write hne (delimited_cons (by decide)) (fun hrest h => ?_) style
  exact .lexeme (l := .operator "(") (stands_punctuation (c := '(') (by decide) _)
    (.lexeme (l := .operator "*") (stands_star hrest) h)

/-- The end of a struct. -/
theorem adds_structEnd (style : Style) :
    Adds Anything [.write (closeBrace ++ ";") style] [.operator closeBrace, .operator ";"] Anything := by
  have hne : closeBrace ++ ";" ≠ "" := by decide
  refine adds_write hne (fun _ => trivial) (fun _ h => ?_) style
  exact .lexeme (l := .operator closeBrace) (stands_punctuation (c := '\x7d') (by decide) _)
    (.lexeme (l := .operator ";") (stands_punctuation (c := ';') (by decide) _) h)

/-- A comment up to the end of the line adds nothing. -/
theorem adds_comment {body : String} (h : '\n' ∉ body.toList) (style : Style) :
    Adds Anything [.write ("//" ++ body) style, .newline] [] Anything := by
  have hne : "//" ++ body ≠ "" := by
    intro hempty
    have hlist := congrArg String.toList hempty
    rw [String.toList_append] at hlist
    cases hlist
  have hwrite : Adds Anything [.write ("//" ++ body) style] []
      fun rest => rest.head? = some '\n' := by
    refine adds_write hne (fun _ => trivial) (fun {rest ms} hline hrest => ?_) style
    obtain ⟨tail, rfl⟩ := List.head?_eq_some_iff.1 hline
    rw [String.toList_append, List.append_assoc]
    exact .comment h hrest
  exact hwrite.append (adds_newline fun _ => rfl)

/-! ## Text that stays -/

namespace Page

theorem exists_text_write (p : Page) (text : String) (style : Style) :
    ∃ added, (p.write text style).text = p.text ++ added := by
  rw [write]
  split
  · exact ⟨"", String.append_empty.symm⟩
  · exact ⟨_, String.append_assoc⟩

/-- Directives only add to the text. -/
theorem exists_text_perform (p : Page) (directive : Directive) :
    ∃ added, (p.perform directive).text = p.text ++ added := by
  have hnothing : ∃ added, p.text = p.text ++ added := ⟨"", String.append_empty.symm⟩
  cases directive with
  | write text style => exact p.exists_text_write text style
  | gap =>
    rw [perform]
    split
    · exact hnothing
    · exact p.exists_text_write _ _
  | newline => exact ⟨"\n", rfl⟩
  | freshLine =>
    rw [perform]
    split
    · exact hnothing
    · exact ⟨"\n", rfl⟩
  | indent => exact hnothing
  | dedent => exact hnothing

theorem exists_text_performAll (p : Page) (directives : List Directive) :
    ∃ added, (p.performAll directives).text = p.text ++ added := by
  induction directives generalizing p with
  | nil => exact ⟨"", String.append_empty.symm⟩
  | cons directive others ih =>
    obtain ⟨first, hfirst⟩ := p.exists_text_perform directive
    obtain ⟨rest, hrest⟩ := ih (p.perform directive)
    exact ⟨first ++ rest, hrest.trans (by rw [hfirst, String.append_assoc])⟩

/-- Without colors, text is written as it is, behind the indentation if it is the
    first of its line. -/
theorem text_write {p : Page} (hplain : p.settings.color = false) (text : String) (style : Style) :
    ∃ width, (p.write text style).text =
      p.text ++ String.ofList (List.replicate width ' ') ++ text := by
  rw [write, shown_of_plain hplain]
  split
  · next hempty => exact ⟨0, by rw [hempty]; simp⟩
  · cases p.atLineStart with
    | true => exact ⟨_, rfl⟩
    | false => exact ⟨0, rfl⟩

theorem settings_write (p : Page) (text : String) (style : Style) :
    (p.write text style).settings = p.settings :=
  settings_perform p (.write text style)

/-- Text that was written does not end its line. -/
theorem atLineStart_write {p : Page} {text : String} (h : text ≠ "" ∨ p.atLineStart = false)
    (style : Style) : (p.write text style).atLineStart = false := by
  rw [write]
  split
  · next hempty => exact h.resolve_left (not_not_intro hempty)
  · rfl

/-- Inside of a line, there is no indentation. -/
theorem text_write_inside {p : Page} (hplain : p.settings.color = false)
    (hinside : p.atLineStart = false) (text : String) (style : Style) :
    (p.write text style).text = p.text ++ text := by
  rw [write, shown_of_plain hplain, hinside]
  split
  · next hempty => rw [hempty, String.append_empty]
  · exact congrArg (· ++ text) String.append_empty

end Page

end Flattener
