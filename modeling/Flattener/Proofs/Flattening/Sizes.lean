import Flattener.Flattening.Declaration
import Flattener.Proofs.Flattening.Pages
import Flattener.Proofs.Grammar.Declarations
import Flattener.Proofs.Token.Digits

/-!
# Sizes of arrays

The size of an array can be given in any base, and is written in base ten. What is
written is read again as the same number, as a token (`DenotesInteger`) and as the size
of an array (`DenotesSize`).
-/

namespace Flattener

open Naming Flattener.Parser

/-- In front of what does not go on with it, the text is a token: the integer. -/
def DenotesInteger (text : String) (n : Nat) : Prop :=
  ∀ (behind file : String) (line : Int),
    (∀ c ∈ behind.toList.head?, isNameChar c = false ∧ c ≠ '.') →
    ∃ next : Cursor, next.rest = behind.toList ∧
      lex (text ++ behind) file line =
        ⟨⟨.integer text n, ⟨file, line, 1⟩⟩ :: (lexFrom next).tokens, (lexFrom next).outcome⟩

/-- In front of any text, the size of an array is read of the text. -/
def DenotesSize (text : String) (n : Nat) : Prop :=
  ∀ (behind file : String) (line : Int) (c : Context) (types : TypeNames),
    ∃ next : Cursor, next.rest = behind.toList ∧
      arraySize.Reads c ⟨(lex (text ++ behind) file line).tokens, types⟩ (some n)
        ⟨(lexFrom next).tokens, types⟩

variable {n : Nat} {spelling : List Char}

theorem denotesInteger_of_numeralOf (h : NumeralOf n spelling) :
    DenotesInteger (String.ofList spelling) n := by
  intro behind file line hbehind
  refine lexFrom_of_stands (h.stands hbehind) ?_
  rw [Cursor.start, String.toList_append]
  rfl

/-- A numeral in brackets is a size. -/
theorem denotesSize_of_numeralOf (h : NumeralOf n spelling) (hpos : 0 < n) :
    DenotesSize ("[" ++ String.ofList spelling ++ "]") n := by
  intro behind file line c types
  -- each of the three tokens stands in front of the next one
  have hopening := stands_punctuation (c := '[') (by decide) (spelling ++ ']' :: behind.toList)
  have hsize : (Lexeme.integer (String.ofList spelling) n).Stands (']' :: behind.toList) := by
    refine h.stands ?_
    rintro _ ⟨⟩
    decide
  have hclosing := stands_punctuation (c := ']') (by decide) behind.toList
  let source := "[" ++ String.ofList spelling ++ "]" ++ behind
  have hsource : (Cursor.start source.toList file line).rest =
      '[' :: (spelling ++ ']' :: behind.toList) := by
    simp [source, Cursor.start]
  obtain ⟨first, hfirst, hlex⟩ := lexFrom_of_stands hopening (hsource.trans rfl)
  obtain ⟨second, hsecond, hlex'⟩ :=
    lexFrom_of_stands hsize (by rw [hfirst, Lexeme.spelling, String.toList_ofList])
  obtain ⟨next, hnext, hlex''⟩ := lexFrom_of_stands hclosing (hsecond.trans rfl)
  refine ⟨next, hnext, ?_⟩
  rw [lex, hlex, hlex', hlex'']
  exact reads_arraySize.2 ⟨_, .present rfl rfl hpos rfl, rfl,
    fun hnone => absurd hnone (Option.some_ne_none n)⟩

/-- The size of an array is written in base ten, in brackets. -/
theorem text_arraySuffix {p : Page} {t : TypeRef} (hplain : p.settings.color = false)
    (hsize : t.arraySize = some n) :
    ∃ width, (p.performAll (arraySuffix t)).text =
      p.text ++ String.ofList (List.replicate width ' ') ++ ("[" ++ toString n ++ "]") := by
  rw [arraySuffix, hsize]
  obtain ⟨width, hopening⟩ := Page.text_write hplain "[" .operator
  -- behind the bracket, the page is inside of a line
  have hline : (p.write "[" .operator).atLineStart = false :=
    Page.atLineStart_write (.inl (by decide)) .operator
  have hline' : ((p.write "[" .operator).write (toString n) .number).atLineStart = false :=
    Page.atLineStart_write (.inr hline) .number
  refine ⟨width, ?_⟩
  show (((p.write "[" .operator).write (toString n) .number).write "]" .operator).text = _
  rw [Page.text_write_inside (by simpa only [Page.settings_write]) hline',
    Page.text_write_inside (by simpa only [Page.settings_write]) hline, hopening]
  simp only [String.append_assoc]

/-- A numeral is read as the number that it writes, in every base. As the size of an
    array, the number is written in base ten and read of that again. -/
theorem NumeralOf.denotes_value (h : NumeralOf n spelling) :
    DenotesInteger (String.ofList spelling) n ∧ DenotesInteger (toString n) n ∧
      (0 < n → DenotesSize ("[" ++ String.ofList spelling ++ "]") n ∧
        DenotesSize ("[" ++ toString n ++ "]") n) ∧
      ∀ (p : Page) (t : TypeRef), p.settings.color = false → t.arraySize = some n →
        ∃ width, (p.performAll (arraySuffix t)).text =
          p.text ++ String.ofList (List.replicate width ' ') ++ ("[" ++ toString n ++ "]") := by
  have hten : NumeralOf n (Nat.toDigits 10 n) := numeralOf_toDigits n
  refine ⟨denotesInteger_of_numeralOf h, ?_, fun hpos => ⟨denotesSize_of_numeralOf h hpos, ?_⟩,
    fun p t hplain hsize => text_arraySuffix hplain hsize⟩
  · rw [Nat.toString_eq_ofList_toDigits]
    exact denotesInteger_of_numeralOf hten
  · rw [Nat.toString_eq_ofList_toDigits]
    exact denotesSize_of_numeralOf hten hpos

/-- Zeros in front of hexadecimal digits of either case make no difference. -/
theorem NumeralOf.denotes_value_hexadecimal :
    let spelling := String.ofList ['0', 'X', '0', '0', 'a', 'B', 'c']
    let int : TypeRef := ⟨⟨"int", default⟩, 0, some 2748⟩
    (∃ next : Cursor, next.rest = "+1".toList ∧
      lex (spelling ++ "+1") "m.cc" 3 =
        ⟨⟨.integer spelling 2748, ⟨"m.cc", 3, 1⟩⟩ :: (lexFrom next).tokens,
          (lexFrom next).outcome⟩) ∧
    DenotesSize ("[" ++ spelling ++ "]") 2748 ∧ DenotesSize ("[" ++ toString 2748 ++ "]") 2748 ∧
    ∃ width, ((Page.empty .standard).performAll (arraySuffix int)).text =
      "" ++ String.ofList (List.replicate width ' ') ++ ("[" ++ toString 2748 ++ "]") := by
  intro spelling int
  have hnumeral : NumeralOf 2748 ['0', 'X', '0', '0', 'a', 'B', 'c'] :=
    .hexadecimal (by decide) (by decide)
  obtain ⟨hinteger, -, hsize, hwritten⟩ := hnumeral.denotes_value
  obtain ⟨hsource, hprinted⟩ := hsize (by decide)
  refine ⟨hinteger "+1" "m.cc" 3 ?_, hsource, hprinted, hwritten _ _ rfl rfl⟩
  rintro _ ⟨⟩
  decide

end Flattener
