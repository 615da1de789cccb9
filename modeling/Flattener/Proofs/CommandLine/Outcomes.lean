import Flattener.Proofs.CommandLine.Arguments
import Flattener.Proofs.CommandLine.Outputs
import Flattener.Proofs.Files.Paths
import Flattener.Proofs.Flattening.Excerpts
import Flattener.Proofs.Flattening.Misuse

/-!
# Outcomes of the command

A command that names a file, and an output file that can be written if it names one, ends
in one of five ways (`Outcome`): the bytes of the file are no text, the text is not valid,
it is nested so deep that no indentation fits, something is shown, or the declarations are
written. The exit code tells how it went, and but for the last of these ways no file is
changed (`run_outcomes`): nothing is written before the last step that can fail. Only a
file of more bytes than there can be is nested too deep.
-/

namespace Flattener

/-- A file can be written at the path, whatever it is to hold. -/
structure Writable (files : FileTree) (path : String) : Prop where
  namable : isNamable path = true
  written : ∀ bytes, ∃ later, files.write (plainPath path) bytes = .ok later

theorem Writable.usable {files : FileTree} {path : String} (h : Writable files path) :
    isNamable path = true ∧ files.kindOf path ≠ .ok .directory := by
  obtain ⟨later, hlater⟩ := h.written []
  exact ⟨h.namable, FileTree.kindOf_ne_directory_of_write hlater⟩

/-- The options of a request, without colors. -/
def Request.uncolored (r : Request) : Options :=
  { Options.standard with separator := r.separator }

/-- What goes to a file has no colors. -/
theorem Request.options_of_output {r : Request} {path : String} (h : r.output = some path) :
    r.options = r.uncolored := by
  rw [options, h, Option.isNone_some, Bool.and_false]
  rfl

/-- How a command for a file ends where no output is a terminal: its report and the files
    that it leaves. The bytes of the file are given, and the name that it has in messages. -/
inductive Outcome (files : FileTree) (r : Request) (bytes : List UInt8) (file : String) :
    Report → FileTree → Prop
  /-- The bytes are no text. -/
  | undecodable {error : Text.DecodeError} {message : String} :
    decodeSource .utf8 bytes = .error error →
    Outcome files r bytes file ⟨2, "", message⟩ files
  /-- The text is not valid, which is all that is said. -/
  | invalid {source : String} {error : SyntaxError} :
    decodeSource .utf8 bytes = .ok source →
    (flatten r.options source file).result = .error (.invalid error) →
    Outcome files r bytes file ⟨1, "", Text.stripSequences error.message ++ "\n"⟩ files
  /-- No indentation fits at the level of some line. -/
  | misused {source message : String} :
    decodeSource .utf8 bytes = .ok source →
    (flatten r.options source file).result = .error (.misuse .tooWide) →
    fitsWord (bytes.length * 4) = false →
    Outcome files r bytes file ⟨3, "", message⟩ files
  /-- The outline or the declarations are shown. -/
  | shown {source text : String} {flattened : Flattened} :
    decodeSource .utf8 bytes = .ok source →
    (flatten r.options source file).result = .ok flattened →
    r.outline = true ∨ r.output = none →
    Outcome files r bytes file ⟨0, text, ""⟩ files
  /-- The declarations are written, without colors, and nothing is shown. -/
  | written {source path : String} {flattened : Flattened} {later : FileTree} :
    decodeSource .utf8 bytes = .ok source →
    (flatten r.uncolored source file).result = .ok flattened →
    r.outline = false → r.output = some path →
    files.write (plainPath path) flattened.output.toUTF8.toList = .ok later →
    Outcome files r bytes file ⟨0, "", ""⟩ later

/-- A message of lines keeps the last line end when its control sequences are taken out. -/
theorem stripSequences_line (text : String) :
    Text.stripSequences (text ++ "\n") = Text.stripSequences text ++ "\n" := by
  have hline := Text.stripChars_newline text.toList []
  have hnothing : Text.stripChars [] = [] := by rw [Text.stripChars]
  rw [hnothing] at hline
  rw [Text.stripSequences, String.toList_append]
  exact (congrArg String.ofList hline).trans String.ofList_append

section

variable {files : FileTree} {r : Request} {bytes : List UInt8} {input : String}
  {arguments : List String}

/-- What was flattened is shown, or written if there is a file for it. -/
theorem outcome_of_deliver {source : String} {flattened : Flattened}
    (hdecode : decodeSource .utf8 bytes = .ok source)
    (hflat : (flatten r.options source (plainPath input)).result = .ok flattened)
    (hquiet : r.verbose = false) (hwritable : ∀ path, r.output = some path → Writable files path) :
    ∃ report later, (deliver FileTree.system .redirected r flattened).run files = (report, later) ∧
      Outcome files r bytes (plainPath input) report later := by
  rw [deliver]
  cases houtline : r.outline with
  | true => exact ⟨_, _, rfl, .shown hdecode hflat (.inl houtline)⟩
  | false =>
    rw [if_neg Bool.false_ne_true]
    cases houtput : r.output with
    | none => exact ⟨_, _, rfl, .shown hdecode hflat (.inr houtput)⟩
    | some path =>
      obtain ⟨later, hlater⟩ := (hwritable path houtput).written flattened.output.toUTF8.toList
      rw [Request.options_of_output houtput] at hflat
      refine ⟨⟨0, "", ""⟩, later, ?_, .written hdecode hflat houtline houtput hlater⟩
      dsimp only
      rw [writeOutput, run_bind_of_eq (run_write hlater)]
      dsimp only
      rw [hquiet, if_neg Bool.false_ne_true]
      rfl

/-- A command that names an existing file ends in one of the five ways. -/
theorem exists_outcome (h : AsksFor arguments input r) (hnamable : isNamable input = true)
    (hread : files.read input = .ok bytes)
    (hwritable : ∀ path, r.output = some path → Writable files path) :
    ∃ report later, (run FileTree.system .redirected arguments).run files = (report, later) ∧
      Outcome files r bytes (plainPath input) report later := by
  rw [run_eq_perform h.request h.notice h.operands hnamable (FileTree.kindOf_of_read hread)
    fun path hpath => (hwritable path hpath).usable]
  rw [perform, run_bind_of_eq (run_flattenFile_of_read (FileTree.read_plainPath hread) r.options)]
  have hencoding : r.options.encoding = .utf8 := rfl
  rw [flattenBytes, hencoding]
  cases hdecode : decodeSource .utf8 bytes with
  | error error =>
    simp only [h.quiet, Bool.false_eq_true, if_false]
    exact ⟨_, _, rfl, .undecodable hdecode⟩
  | ok source =>
    dsimp only
    rcases flatten_cases r.options source (plainPath input) with
      ⟨flattened, hflat⟩ | ⟨error, hflat⟩ | ⟨tree, count, -, -, hflat⟩
    · obtain ⟨report, later, hdeliver, houtcome⟩ :=
        outcome_of_deliver hdecode hflat h.quiet hwritable
      refine ⟨report, later, ?_, houtcome⟩
      rw [hflat]
      dsimp only [Except.mapError]
      rw [run_bind_of_eq hdeliver, h.quiet, if_neg Bool.false_ne_true]
      rfl
    · refine ⟨⟨1, "", Text.stripSequences error.message ++ "\n"⟩, files, ?_, .invalid hdecode hflat⟩
      rw [hflat, ← stripSequences_line]
      simp only [Except.mapError, h.quiet, Bool.false_eq_true, if_false]
      rfl
    · -- a source that is nested too deep is no shorter than its nesting
      have hwidth : r.options.page.indentWidth = 4 := rfl
      have hlength : ¬fitsWord (bytes.length * 4) = true := by
        rw [← hwidth]
        exact fun hfits =>
          ne_misuse_of_length (fitsWord_of_le (length_le_of_decodeSource hdecode) hfits) _ hflat
      simp only [hflat, Except.mapError, h.quiet, Bool.false_eq_true, if_false]
      exact ⟨_, _, rfl, .misused hdecode hflat (Bool.eq_false_iff.2 hlength)⟩

/-- The exit code tells whether the declarations of the file were made, its text is not
    valid, or it has none. There is no other one, unless the file has too many bytes. -/
structure ExitTells (r : Request) (bytes : List UInt8) (file : String) (report : Report) :
    Prop where
  made : report.exit = 0 ↔ ∃ source flattened, decodeSource .utf8 bytes = .ok source ∧
    (flatten r.options source file).result = .ok flattened
  invalid : report.exit = 1 ↔ ∃ source error, decodeSource .utf8 bytes = .ok source ∧
    (flatten r.options source file).result = .error (.invalid error)
  undecodable : report.exit = 2 ↔ ∃ error, decodeSource .utf8 bytes = .error error
  known : fitsWord (bytes.length * 4) = true → report.exit ≤ 2

theorem Outcome.exitTells {file : String} {report : Report} {later : FileTree}
    (h : Outcome files r bytes file report later) : ExitTells r bytes file report := by
  cases h with
  | undecodable hdecode => constructor <;> simp [hdecode]
  | invalid hdecode hflat => constructor <;> simp [hdecode, hflat]
  | misused hdecode hflat hlength => constructor <;> simp [hdecode, hflat, hlength]
  | shown hdecode hflat _ => constructor <;> simp [hdecode, hflat]
  | written hdecode hflat _ houtput _ =>
    rw [← Request.options_of_output houtput] at hflat
    constructor <;> simp [hdecode, hflat]

/-- Arguments that spell an output file, colors, a separator and an outline, in any
    order, ask for the file that is their operand. A command that asks for an existing file
    ends with an exit code that tells how it went. Of a source that is not valid the
    message is all that is shown. Where declarations are made and are to be written, they
    are, without colors. In all other cases every file is left as it was. -/
theorem run_outcomes (hnamable : isNamable input = true) (hread : files.read input = .ok bytes) :
    (∀ arguments settings, Spelled arguments settings →
      settings.filterMap (·.operand?) = [input] →
        AsksFor arguments input (settings.foldl Request.apply .standard)) ∧
    ∀ arguments r, AsksFor arguments input r →
      (∀ path, r.output = some path → Writable files path) →
      ∃ report later, (run FileTree.system .redirected arguments).run files = (report, later) ∧
        ExitTells r bytes (plainPath input) report ∧
        (∀ source error, decodeSource .utf8 bytes = .ok source →
          (flatten r.options source (plainPath input)).result = .error (.invalid error) →
          report.stdout = "" ∧ report.stderr = Text.stripSequences error.message ++ "\n") ∧
        (∀ path, report.exit = 0 → r.outline = false → r.output = some path →
          ∃ source flattened, decodeSource .utf8 bytes = .ok source ∧
            (flatten r.uncolored source (plainPath input)).result = .ok flattened ∧
            files.write (plainPath path) flattened.output.toUTF8.toList = .ok later ∧
            later.read (plainPath path) = .ok flattened.output.toUTF8.toList) ∧
        (report.exit ≠ 0 ∨ r.outline = true ∨ r.output = none → later = files) := by
  refine ⟨fun arguments settings h hinput => h.asks hinput, fun arguments r h hwritable => ?_⟩
  obtain ⟨report, later, hrun, houtcome⟩ := exists_outcome h hnamable hread hwritable
  refine ⟨report, later, hrun, houtcome.exitTells, ?_, ?_, ?_⟩
  · intro source error hdecode hflat
    have hexit := houtcome.exitTells.invalid.2 ⟨source, error, hdecode, hflat⟩
    cases houtcome with
    | invalid hdecode' hflat' =>
      cases hdecode.symm.trans hdecode'
      cases hflat.symm.trans hflat'
      exact ⟨rfl, rfl⟩
    | _ => cases hexit
  · intro path hexit houtline houtput
    cases houtcome with
    | shown _ _ hshown =>
      rcases hshown with hshown | hshown
      · cases houtline.symm.trans hshown
      · cases houtput.symm.trans hshown
    | written hdecode hflat _ houtput' hwritten =>
      cases houtput.symm.trans houtput'
      exact ⟨_, _, hdecode, hflat, hwritten, FileTree.read_write hwritten⟩
    | _ => cases hexit
  · intro hcases
    cases houtcome with
    | written _ _ houtline houtput _ =>
      rcases hcases with hexit | houtline' | houtput'
      · exact absurd rfl hexit
      · cases houtline.symm.trans houtline'
      · cases houtput.symm.trans houtput'
    | _ => rfl

end

/-- Texts as the bytes of their ASCII characters. -/
def asciiBytes (text : String) : List UInt8 :=
  text.toList.map fun c => c.toNat.toUInt8

/-- A directory with a source, one that is not valid, and something that is no text. -/
def threeSources : FileTree :=
  ⟨[(["good"], .file (asciiBytes shelteredStruct)), (["bad"], .file (asciiBytes "foo bar;")),
    (["raw"], .file [0xff])]⟩

theorem writable_threeSources : Writable threeSources "out" := by
  have hfind : threeSources.find (plainPath "out") = .ok (.inside ["out"]) := by cbv
  refine ⟨by decide, fun bytes => ⟨threeSources.put ["out"] bytes, ?_⟩⟩
  rw [FileTree.write, hfind]
  rfl

/-- Declarations are written for the first of them only. -/
theorem run_outcomes_threeSources :
    (∃ report later, (run FileTree.system .redirected ["--color", "good", "-o", "out"]).run
        threeSources = (report, later) ∧ report.exit = 0 ∧
      later.read "out" = .ok "struct n_a \x7b\n    int x = 1;\n\x7d;\n".toUTF8.toList) ∧
    (∃ report, (run FileTree.system .redirected ["bad", "--output", "out"]).run threeSources =
        (report, threeSources) ∧ report.exit = 1 ∧ report.stdout = "" ∧
      report.stderr = "bad:1:1: error: unknown type 'foo'\n    foo bar;\n    ^\n" ++
        "hint: declare 'foo' with 'struct' or 'class' before using it\n") ∧
    ∃ report, (run FileTree.system .redirected ["--ast", "raw", "--separator", "::"]).run
      threeSources = (report, threeSources) ∧ report.exit = 2 := by
  have hout : plainPath "out" = "out" := by cbv
  refine ⟨?good, ?bad, ?raw⟩
  case good =>
    have hread : threeSources.read "good" = .ok (asciiBytes shelteredStruct) := by cbv
    have hplain : plainPath "good" = "good" := by cbv
    have hspelled : Spelled ["--color", "good", "-o", "out"]
        [.color true, .operand "good", .output "out"] :=
      .flag (by simp [flagSettings]) (.operand (by decide) (.value (by simp [valueSettings]) .nil))
    have hdecode : decodeSource .utf8 (asciiBytes shelteredStruct) = .ok shelteredStruct := by
      decide +kernel
    obtain ⟨tree, count, hparse, hrender⟩ := @exists_tree _ .standard shelteredStruct "good"
      (fun parsed => parsed.1.render .standard "_" standardTypes)
      (.ok "struct n_a \x7b\n    int x = 1;\n\x7d;\n") (by decide +kernel)
    have hflat := result_flatten_of_render hparse hrender
    obtain ⟨hasks, houtcomes⟩ := run_outcomes (by decide) hread
    obtain ⟨report, later, hrun, htells, -, hwritten, -⟩ := houtcomes _ _ (hasks _ _ hspelled rfl)
      fun path hpath => Option.some.inj hpath ▸ writable_threeSources
    rw [hplain] at htells hwritten
    have hexit := htells.made.2 ⟨_, _, hdecode, hflat⟩
    obtain ⟨source, flattened, hdecode', hflat', -, hcontent⟩ := hwritten "out" hexit rfl rfl
    cases hdecode.symm.trans hdecode'
    cases hflat.symm.trans hflat'
    rw [hout] at hcontent
    exact ⟨report, later, hrun, hexit, hcontent⟩
  case bad =>
    have hread : threeSources.read "bad" = .ok (asciiBytes "foo bar;") := by cbv
    have hplain : plainPath "bad" = "bad" := by cbv
    have hspelled : Spelled ["bad", "--output", "out"] [.operand "bad", .output "out"] :=
      .operand (by decide) (.value (by simp [valueSettings]) .nil)
    have hdecode : decodeSource .utf8 (asciiBytes "foo bar;") = .ok "foo bar;" := by decide +kernel
    have hflat : (flatten .standard "foo bar;" "bad").result =
        .error (.invalid ⟨.unknownType "foo", some ⟨"bad", 1, 1⟩, false, some "foo bar;"⟩) :=
      error_of_map_eq_error (by decide +kernel)
    obtain ⟨hasks, houtcomes⟩ := run_outcomes (by decide) hread
    obtain ⟨report, later, hrun, htells, hshown, -, hleft⟩ := houtcomes _ _ (hasks _ _ hspelled rfl)
      fun path hpath => Option.some.inj hpath ▸ writable_threeSources
    rw [hplain] at htells hshown
    have hexit := htells.invalid.2 ⟨_, _, hdecode, hflat⟩
    obtain ⟨hstdout, hstderr⟩ := hshown _ _ hdecode hflat
    cases hleft (.inl (hexit ▸ Nat.one_ne_zero))
    exact ⟨report, hrun, hexit, hstdout, hstderr.trans (by decide +kernel)⟩
  case raw =>
    have hread : threeSources.read "raw" = .ok [0xff] := by cbv
    have hspelled : Spelled ["--ast", "raw", "--separator", "::"]
        [.outline, .operand "raw", .separator "::"] :=
      .flag (by simp [flagSettings]) (.operand (by decide) (.value (by simp [valueSettings]) .nil))
    have hdecode : decodeSource .utf8 [0xff] = .error ⟨.utf8, 0xff, 0, 1, .invalidStart⟩ := by
      decide +kernel
    obtain ⟨hasks, houtcomes⟩ := run_outcomes (by decide) hread
    obtain ⟨report, later, hrun, htells, -, -, hleft⟩ := houtcomes _ _ (hasks _ _ hspelled rfl)
      fun path hpath => by cases hpath
    cases hleft (.inr (.inl rfl))
    exact ⟨report, hrun, htells.undecodable.2 ⟨_, hdecode⟩⟩

end Flattener
