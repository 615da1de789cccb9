import Flattener.Proofs.Flattening.Meaning
import Flattener.Proofs.Token.Digits

/-!
# Flattened names are identifiers

Names that are joined by letters, digits and underscores are one identifier
(`Naming.isWord_qualified`), and so is the name of the type that another name
means (`Naming.isWord_resolved`). The size of an array is written as a numeral
(`readable_toString`).
-/

namespace Flattener

/-- A text of letters, digits and underscores, which may begin with a digit. -/
def ContinuesWord (text : List Char) : Prop :=
  ∀ c ∈ text, isNameChar c = true

theorem IsWord.continuesWord {word : List Char} (h : IsWord word) : ContinuesWord word := by
  obtain ⟨first, others, rfl, hfirst, hothers⟩ := h
  exact List.forall_mem_cons.2 ⟨isNameChar_of_isNameStart hfirst, hothers⟩

/-- A word goes on with everything that can continue one. -/
theorem IsWord.append {word text : List Char} (h : IsWord word) (htext : ContinuesWord text) :
    IsWord (word ++ text) := by
  obtain ⟨first, others, rfl, hfirst, hothers⟩ := h
  exact ⟨first, others ++ text, rfl, hfirst, List.forall_mem_append.2 ⟨hothers, htext⟩⟩

/-- Joined words are a word. -/
theorem isWord_intercalate {separator : String} (hsep : ContinuesWord separator.toList)
    {names : List String} (hne : names ≠ []) (h : ∀ name ∈ names, IsWord name.toList) :
    IsWord (separator.intercalate names).toList := by
  induction names with
  | nil => exact absurd rfl hne
  | cons name names ih =>
    obtain ⟨hname, hnames⟩ := List.forall_mem_cons.1 h
    by_cases hlast : names = []
    · rw [hlast, String.intercalate_singleton]
      exact hname
    · rw [String.intercalate_cons_of_ne_nil hlast, String.toList_append, String.toList_append]
      exact (hname.append hsep).append (ih hlast hnames).continuesWord

/-- Nothing that no word has is in one. -/
theorem IsWord.not_mem {word : List Char} (h : IsWord word) {c : Char}
    (hc : isNameChar c = false) : c ∉ word :=
  fun hmem => absurd (hc.symm.trans (h.continuesWord c hmem)) Bool.false_ne_true

/-- Joined texts have no characters but their own and those that join them. -/
theorem not_mem_intercalate {separator : String} {c : Char} (hsep : c ∉ separator.toList)
    {texts : List String} (h : ∀ text ∈ texts, c ∉ text.toList) :
    c ∉ (separator.intercalate texts).toList := by
  induction texts with
  | nil => exact List.not_mem_nil
  | cons text texts ih =>
    obtain ⟨htext, htexts⟩ := List.forall_mem_cons.1 h
    by_cases hlast : texts = []
    · rw [hlast, String.intercalate_singleton]
      exact htext
    · rw [String.intercalate_cons_of_ne_nil hlast, String.toList_append, String.toList_append,
        List.mem_append, List.mem_append]
      exact not_or.2 ⟨not_or.2 ⟨htext, hsep⟩, ih htexts⟩

/-- The names of a path are identifiers. -/
def Path.Legible (path : Path) : Prop :=
  ∀ name ∈ path, IsWord name.toList

theorem Path.Legible.snoc {path : Path} (h : path.Legible) {name : String}
    (hname : IsWord name.toList) : Path.Legible (path ++ [name]) :=
  List.forall_mem_append.2 ⟨h, List.forall_mem_singleton.2 hname⟩

namespace Naming

variable {n : Naming} (hsep : ContinuesWord n.separator.toList) {path : Path} {name : String}
include hsep

theorem isWord_qualified (hpath : path.Legible) (hname : IsWord name.toList) :
    IsWord (n.qualified path name).toList :=
  isWord_intercalate hsep (List.append_ne_nil_of_right_ne_nil _ (List.cons_ne_nil _ _))
    (hpath.snoc hname)

/-- A type is meant by its own name or under the names of a part of the path. -/
theorem isWord_resolved (hpath : path.Legible) (hname : IsWord name.toList) :
    IsWord (n.resolved path name).toList := by
  rcases n.resolved_cases path name with ⟨outer, hmeans, hwritten⟩ | ⟨-, hwritten⟩
  · rw [hwritten]
    exact isWord_qualified hsep (fun name hmem => hpath name (hmeans.around.subset hmem)) hname
  · rwa [hwritten]

end Naming

/-! ## What is readable -/

/-- No numeral is an identifier. -/
theorem kind_ne_identifier_of_readNumeral {first : Char} {text others : List Char} {l : Lexeme}
    (h : readNumeral first text = .ok (l, others)) : l.kind ≠ .identifier := by
  have hprefixed {base : Nat} {letter : Char} {text : List Char}
      (h : readPrefixed base letter text = .ok (l, others)) : l.kind ≠ .identifier := by
    unfold readPrefixed at h
    dsimp only at h
    split at h
    · cases h
    · cases h
      rintro ⟨⟩
  have hdecimal {text : List Char} (h : readDecimal first text = (l, others)) :
      l.kind ≠ .identifier := by
    rw [readDecimal] at h
    dsimp only at h
    split at h
    · split at h
      · cases h
        rintro ⟨⟩
      · cases h
        rintro ⟨⟩
    · cases h
      rintro ⟨⟩
  unfold readNumeral at h
  split at h
  · split at h
    · exact hprefixed h
    · split at h
      · exact hprefixed h
      · split at h
        · cases h
          rintro ⟨⟩
        · exact hdecimal (Except.ok.inj h)
  · exact hdecimal (Except.ok.inj h)

/-- An identifier that was read is a word. -/
theorem Lexeme.Readable.isWord {name : String} (h : (Lexeme.identifier name).Readable) :
    IsWord name.toList := by
  obtain ⟨first, text, others, hread⟩ := h
  rw [readLexeme] at hread
  split at hread
  · next hstart =>
    cases hread
    rw [String.toList_ofList]
    exact isWord_of_readIdentifier hstart
  · split at hread
    · exact absurd rfl (kind_ne_identifier_of_readNumeral hread)
    · split at hread
      · -- a literal is a string or a character
        rw [readLiteral] at hread
        split at hread
        · cases hread
        · next contents spelling hcontents =>
          split at hread
          · cases hread
          · cases hread
      · split at hread
        · cases hread
        · unfold readOperator at hread
          split at hread
          · cases hread
          · cases hread

/-- A number is read of its digits. -/
theorem readable_toString (n : Nat) : (Lexeme.integer (toString n) n).Readable := by
  have hstands : (Lexeme.integer (String.ofList (Nat.toDigits 10 n)) n).Stands [] :=
    (numeralOf_toDigits n).stands (by rintro _ ⟨⟩)
  rw [Nat.toString_eq_ofList_toDigits]
  exact hstands.readable

end Flattener
