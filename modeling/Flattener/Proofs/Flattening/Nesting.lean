import Flattener.Proofs.Flattening.Levels
import Flattener.Proofs.Flattening.Rendering
import Flattener.SourceFile

/-!
# How deep a source can be nested

For a struct or class that is read, one line is indented more, and for a raw run as many
as it has braces. So a tree has no deeper line than it has tokens (`count_indent_items`),
and a source no fewer characters than tokens. An indentation that fits once for each
character of a source fits at all levels of its tree (`Scope.fits_of_length`).
-/

namespace Flattener

/-! ## Tokens of a tree -/

namespace Naming

theorem count_indent_lines (n : Naming) (depth : Nat) (behind : Bool) (tokens : List Token) :
    (n.lines depth behind tokens).count .indent ≤ tokens.length := by
  induction tokens generalizing depth behind with
  | nil => exact Nat.le_refl 0
  | cons t tokens ih =>
    have hrest := ih (parenDepth depth t) true
    have hlead : (leadOf depth t).count .indent = 0 := by
      unfold leadOf
      split <;> rfl
    have hgap : (if behind then [Directive.gap] else []).count .indent = 0 := by
      split <;> rfl
    have htrail : (trailOf depth t).count .indent ≤ 1 := by
      unfold trailOf
      split <;> (try split) <;> decide
    have hword : (Directive.write t.text (n.tokenStyle t) :: trailOf depth t).count .indent =
        (trailOf depth t).count .indent := List.count_cons_of_ne (by simp)
    rw [lines, List.count_append, List.count_append, List.count_append, hlead, hgap, hword,
      List.length_cons]
    omega

theorem count_indent_rawRun (n : Naming) (run : RawRun) :
    (n.rawRun run).count .indent ≤ run.tokens.length := by
  rw [rawRun, List.count_append]
  exact n.count_indent_lines 0 false run.tokens

theorem count_indent_structDecl (n : Naming) (path : Path) (d : Struct) :
    (n.structDecl path d).count .indent ≤ 1 := by
  unfold structDecl
  split
  · rw [((n.steady_structLead path d.name).append steady_terminator).count_indent]
    exact Nat.zero_le 1
  · exact (n.count_indent_structAround path d.name
      (steady_flatMap fun m _ => n.steady_member path m)).le

theorem count_indent_classDecl (n : Naming) (path : Path) (d : Class) :
    (directivesOf (n.classDecl path d)).count .indent ≤ 1 := by
  unfold classDecl
  split
  · simp [directivesOf, ((n.steady_structLead path d.name).append steady_terminator).count_indent]
  · next body _ =>
    have hinside := (n.steady_traitComment path body.traits).append
      (steady_flatMap fun m (_ : m ∈ body.members) => n.steady_member path m)
    have hmethods := steady_flatMap fun s (_ : s ∈ body.methods) =>
      n.steady_functionDecl (path ++ [d.name.text]) s
    simp [directivesOf, n.count_indent_structAround path d.name hinside, hmethods.count_indent]

mutual

/-- An item indents no more often than it has tokens. -/
theorem count_indent_item : ∀ (n : Naming) (path : Path) {item : Item} {tokens : List Token},
    item.Spelled tokens → (directivesOf (n.item path item)).count .indent ≤ tokens.length
  | n, path, .raw run, _, .raw _ => by
    rw [item, directivesOf, List.flatMap_singleton]
    exact n.count_indent_rawRun run
  | n, path, .variableDecl v, _, _ => by
    rw [item, directivesOf, List.flatMap_singleton, (n.steady_variableDecl path v).count_indent]
    exact Nat.zero_le _
  | n, path, .functionDecl s, _, _ => by
    rw [item, directivesOf, List.flatMap_singleton, (n.steady_functionDecl path s).count_indent]
    exact Nat.zero_le _
  | n, path, .structDecl d, _, h => by
    rw [item, directivesOf, List.flatMap_singleton]
    exact (n.count_indent_structDecl path d).trans (List.length_pos_iff.2 h.ne_nil)
  | n, path, .classDecl d, _, h => by
    rw [item]
    exact (n.count_indent_classDecl path d).trans (List.length_pos_iff.2 h.ne_nil)
  | n, path, .namespaceDecl name children, _,
    @Item.Spelled.namespaceDecl _ _ _ _ _ inside _ _ _ h _ => by
    have hinside := count_indent_items n (path ++ [name.text]) h
    rw [item, List.length_cons, List.length_cons, List.length_cons, List.length_append]
    omega

theorem count_indent_items : ∀ (n : Naming) (path : Path) {items : List Item}
    {tokens : List Token}, ItemsSpelled items tokens →
    (directivesOf (n.items path items)).count .indent ≤ tokens.length
  | n, path, [], _, _ => by
    rw [items]
    exact Nat.zero_le _
  | n, path, first :: others, _, .cons hfirst hothers _ => by
    have hitem := count_indent_item n path hfirst
    have hitems := count_indent_items n path hothers
    rw [items, directivesOf, List.flatMap_append, List.count_append, List.length_append]
    exact Nat.add_le_add hitem hitems

end

end Naming

/-! ## Characters of a source -/

/-- A text has no fewer characters than tokens. -/
theorem length_tokens_le (c : Cursor) : (lexFrom c).tokens.length ≤ c.rest.length := by
  induction c using lexFrom_induction with
  | nil c hrest =>
    rw [lexFrom_of_rest_nil hrest]
    exact Nat.zero_le _
  | flaw c first text flaw hrest hread =>
    rw [lexFrom_of_flaw hrest hread]
    exact Nat.zero_le _
  | lexeme c first text lexeme others hrest hread ih =>
    have hpast : c.pastGap.rest.length ≤ c.rest.length := by
      rw [Cursor.rest_pastGap, List.length_drop]
      exact Nat.sub_le _ _
    rw [Cursor.rest_skip, List.length_drop] at ih
    rw [hrest, List.length_cons] at ih hpast
    rw [lexFrom_of_lexeme hrest hread, List.length_cons]
    omega

namespace Scope

variable {options : Options} {source file : String} {tree : Scope} {count : Nat}

/-- No line of the tree of a source is deeper than the source is long. -/
theorem le_length_of_mem_levels
    (hparse : (parseSource options source file).result = .ok (tree, count)) {separator : String}
    {builtins : List String} {level : Nat} (h : level ∈ tree.levels separator builtins) :
    level ≤ source.length := by
  obtain ⟨stop, hparse⟩ := exists_parse_of_parseSource hparse
  obtain ⟨s, ⟨⟨tokens, hspelled, hrest⟩, -, -⟩, -⟩ := itemsRead_of_parse hparse
  calc level ≤ 0 + (tree.directives separator builtins).count .indent := Page.le_of_mem_levels h
    _ ≤ tokens.length := by
      rw [Nat.zero_add]
      exact Naming.count_indent_items _ [] hspelled
    _ ≤ (lex source file 1).tokens.length := by
      rw [show (lex source file 1).tokens = tokens ++ s.rest from hrest, List.length_append]
      exact Nat.le_add_right _ _
    _ ≤ source.toList.length := length_tokens_le _
    _ = source.length := String.length_toList

/-- An indentation that fits once for each character of a source fits at all levels of its
    tree. -/
theorem fits_of_length (hparse : (parseSource options source file).result = .ok (tree, count))
    {width : Int} (h : fitsWord (source.length * width) = true) (separator : String)
    (builtins : List String) : Text.Fits (tree.levels separator builtins) width :=
  fun _ hlevel => fitsWord_of_le (le_length_of_mem_levels hparse hlevel) h

end Scope

/-! ## Bytes of a file -/

theorem Text.length_le_of_decodeUtf8 (position : Nat) (bytes : List UInt8) :
    ∀ chars, decodeUtf8 position bytes = .ok chars → chars.length ≤ bytes.length := by
  fun_induction decodeUtf8 position bytes with
  | case1 =>
    rintro _ ⟨⟩
    exact Nat.le_refl 0
  | case3 position byte bytes ranges _ count _ _ ih =>
    intro chars h
    rcases hothers : decodeUtf8 (position + count + 1) (bytes.drop count) with _ | others
    · rw [hothers] at h
      cases h
    · have hlength := ih others hothers
      rw [List.length_drop] at hlength
      rw [hothers] at h
      cases h
      simp only [List.length_cons]
      omega
  | case2 | case4 => rintro _ ⟨⟩

theorem Text.length_normalizeNewlines_le (text : List Char) :
    (normalizeNewlines text).length ≤ text.length := by
  fun_induction normalizeNewlines text with
  | case1 => exact Nat.le_refl 0
  | case2 rest ih => exact Nat.succ_le_succ (ih.trans (Nat.le_succ _))
  | case3 rest _ ih => exact Nat.succ_le_succ ih
  | case4 c rest _ _ ih => exact Nat.succ_le_succ ih

/-- A source has no more characters than its file has bytes. -/
theorem length_le_of_decodeSource {bytes : List UInt8} {source : String}
    (h : decodeSource .utf8 bytes = .ok source) : source.length ≤ bytes.length := by
  rw [decodeSource, Text.decode] at h
  rcases hchars : Text.decodeUtf8 0 bytes with _ | chars
  · rw [hchars] at h
    cases h
  · rw [hchars] at h
    cases h
    rw [String.length_ofList]
    calc (Text.normalizeNewlines chars).length ≤ chars.length :=
          Text.length_normalizeNewlines_le chars
      _ ≤ bytes.length := Text.length_le_of_decodeUtf8 0 bytes chars hchars

end Flattener
