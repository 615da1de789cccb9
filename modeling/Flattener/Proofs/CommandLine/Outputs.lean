import Flattener.CommandLine.Run
import Flattener.Proofs.Files.Tree
import Flattener.Proofs.Flattening.Colors
import Flattener.Proofs.Flattening.References
import Mathlib

/-!
# Outputs of the command

The declarations of a file come out the same wherever the command sends them
(`outputs_agree`): shown where there is no terminal, shown without colors, or
written to a file, whether or not colors are asked for there. Only what is shown may
be rendered in color, and what is shown elsewhere than on a terminal loses its
control sequences again.
-/

namespace Flattener

/-- The arguments ask for the declarations of one file, with names that are joined by
    the separator. -/
structure Asks (arguments : List String) (input separator : String) (r : Request) : Prop where
  request : Request.ofArguments arguments = .ok r
  notice : r.notice = none
  outline : r.outline = false
  operands : r.operands = [input]
  separator : r.separator = separator

/-- At the path is a file that holds the source. -/
structure Holds (files : FileTree) (path source : String) : Prop where
  namable : isNamable path = true
  kind : files.kindOf path = .ok .file
  content : ∃ bytes, files.read (plainPath path) = .ok bytes ∧
    decodeSource .utf8 bytes = .ok source

/-- A file can be written at the path, which makes the files the later ones. -/
structure Takes (files : FileTree) (path : String) (bytes : List UInt8) (later : FileTree) :
    Prop where
  namable : isNamable path = true
  kind : files.kindOf path ≠ .ok .directory
  written : files.write (plainPath path) bytes = .ok later

namespace FileTree

variable {files : FileTree} {path : String} {bytes : List UInt8}

/-- What can be read is a file. -/
theorem kindOf_of_read (h : files.read path = .ok bytes) : files.kindOf path = .ok .file := by
  rw [read] at h
  rw [kindOf]
  cases hfind : files.find path with
  | error error =>
    rw [hfind] at h
    cases h
  | ok place =>
    rw [hfind] at h
    dsimp only [bind, Except.bind] at h ⊢
    split at h
    · next hentry =>
      rw [hentry]
      rfl
    · cases h
    · cases h

end FileTree

/-! ## Commands on trees of files -/

/-- A program goes on with what its first step gives. -/
theorem run_bind_of_eq {σ α β : Type} {first : StateM σ α} {others : α → StateM σ β} {s s' : σ}
    {a : α} (h : first.run s = (a, s')) : (first >>= others).run s = (others a).run s' := by
  rw [StateT.run_bind, h]
  rfl

section

variable {files later : FileTree} {input path source separator : String} {arguments : List String}
  {r : Request} {console : Console} {flattened : Flattened} {bytes : List UInt8}

theorem run_kindOf (files : FileTree) (path : String) :
    (FileTree.system.kindOf path).run files = (files.kindOf path, files) := rfl

theorem run_write (h : files.write path bytes = .ok later) :
    (FileTree.system.write path bytes).run files = (.ok (), later) := by
  have hget : (get : StateM FileTree FileTree).run files = (files, files) := rfl
  rw [FileTree.system]
  dsimp only
  rw [run_bind_of_eq hget, h]
  rfl

/-- The file at a path is flattened as its bytes are. -/
theorem run_flattenFile_of_read (h : files.read (plainPath input) = .ok bytes) (options : Options) :
    (flattenFile FileTree.system options input).run files =
      (flattenBytes options bytes (plainPath input), files) := by
  have hread : (FileTree.system.read (plainPath input)).run files = (.ok bytes, files) :=
    congrArg (·, files) h
  rw [flattenFile, run_bind_of_eq (run_kindOf files _), FileTree.kindOf_of_read h]
  dsimp only
  rw [run_bind_of_eq hread]
  rfl

/-- A file that holds the source is flattened as the source is. -/
theorem run_flattenFile (h : Holds files input source) (options : Options)
    (hencoding : options.encoding = .utf8) :
    (flattenFile FileTree.system options input).run files =
      (⟨(flatten options source (plainPath input)).result.mapError .invalid,
        (flatten options source (plainPath input)).log⟩, files) := by
  obtain ⟨bytes, hread, hdecode⟩ := h.content
  rw [run_flattenFile_of_read hread, flattenBytes, hencoding, hdecode]

/-- The input file is the one that the arguments name, once the output file is found
    to be usable. -/
theorem run_checkFiles (hoperands : r.operands = [input]) (hnamable : isNamable input = true)
    (hfile : files.kindOf input = .ok .file)
    (houtput : ∀ path, r.output = some path →
      isNamable path = true ∧ files.kindOf path ≠ .ok .directory) :
    (checkFiles FileTree.system r).run files = (.ok input, files) := by
  have hout : (checkOutput FileTree.system r).run files = (none, files) := by
    rw [checkOutput]
    cases hr : r.output with
    | none => rfl
    | some path =>
      obtain ⟨hnamable, hkind⟩ := houtput path hr
      simp only [hnamable, Bool.not_true, Bool.false_eq_true, if_false]
      rw [run_bind_of_eq (run_kindOf files path)]
      split
      · next hdirectory => exact absurd hdirectory hkind
      · rfl
  have hin : (checkInput FileTree.system r).run files = (.ok input, files) := by
    rw [checkInput, hoperands]
    simp only [hnamable, Bool.not_true, Bool.false_eq_true, if_false]
    rw [run_bind_of_eq (run_kindOf files input), hfile]
    rfl
  rw [checkFiles, run_bind_of_eq hout]
  exact hin

/-- A request for one file is performed once its files are found to be usable. -/
theorem run_eq_perform (hrequest : Request.ofArguments arguments = .ok r)
    (hnotice : r.notice = none) (hoperands : r.operands = [input])
    (hnamable : isNamable input = true) (hfile : files.kindOf input = .ok .file)
    (houtput : ∀ path, r.output = some path →
      isNamable path = true ∧ files.kindOf path ≠ .ok .directory) :
    (run FileTree.system console arguments).run files =
      (perform FileTree.system console r input).run files := by
  rw [run, hrequest]
  dsimp only
  rw [hnotice]
  dsimp only
  rw [run_bind_of_eq (run_checkFiles hoperands hnamable hfile houtput)]

/-- A command that asks for the declarations of a file that can be flattened delivers
    them. -/
theorem run_of_asks (h : Asks arguments input separator r) (hfile : Holds files input source)
    (houtput : ∀ path, r.output = some path →
      isNamable path = true ∧ files.kindOf path ≠ .ok .directory)
    (hflat : (flatten r.options source (plainPath input)).result = .ok flattened) {report : Report}
    (hdeliver : (deliver FileTree.system console r flattened).run files = (report, later)) :
    ∃ log, (run FileTree.system console arguments).run files = (report.behind log, later) := by
  have hperform : ∃ log, (perform FileTree.system console r input).run files =
      (report.behind log, later) := by
    rw [perform, run_bind_of_eq (run_flattenFile hfile r.options rfl), hflat]
    dsimp only [Except.mapError]
    rw [run_bind_of_eq hdeliver]
    split
    · exact ⟨_, rfl⟩
    · refine ⟨"", ?_⟩
      rw [Report.behind, String.empty_append]
      rfl
  rwa [run_eq_perform h.request h.notice h.operands hfile.namable hfile.kind houtput]

theorem run_deliver_of_output_none (h : Asks arguments input separator r) (hr : r.output = none)
    (console : Console) (flattened : Flattened) (files : FileTree) :
    (deliver FileTree.system console r flattened).run files =
      (⟨0, shownOn (r.color.getD console.stdout) flattened.output, ""⟩, files) := by
  rw [deliver, h.outline, if_neg Bool.false_ne_true, hr]
  rfl

/-- The declarations are written as they are. -/
theorem run_deliver_of_output_some (h : Asks arguments input separator r) (hr : r.output = some path)
    (hwrite : files.write (plainPath path) flattened.output.toUTF8.toList = .ok later)
    (console : Console) :
    ∃ report, (deliver FileTree.system console r flattened).run files = (report, later) ∧
      report.exit = 0 := by
  rw [deliver, h.outline, if_neg Bool.false_ne_true, hr]
  dsimp only
  rw [writeOutput, run_bind_of_eq (run_write hwrite)]
  dsimp only
  split
  · exact ⟨_, rfl, rfl⟩
  · exact ⟨_, rfl, rfl⟩

end

/-! ## Color and outputs -/

section

variable {source : String} (hsource : Text.escape ∉ source.toList)
include hsource

/-- Whatever is requested, the source is flattened to its plain text, up to control
    sequences, and to just that text if it goes to a file. -/
theorem exists_flatten_of_request {file text : String} {tree : Scope} {count : Nat} (r : Request)
    (hparse : (parseSource .standard source file).result = .ok (tree, count))
    (hsep : Text.escape ∉ r.separator.toList)
    (htext : tree.render .standard r.separator standardTypes = .ok text) :
    ∃ flattened, (flatten r.options source file).result = .ok flattened ∧
      Text.stripSequences flattened.output = text ∧
      (r.output.isNone = false → flattened.output = text) := by
  have hwidth : r.options.page.indentWidth = PageSettings.standard.indentWidth := rfl
  have hfits := Scope.fits_of_render htext
  rw [← hwidth] at hfits
  obtain ⟨output, hrender⟩ : ∃ output,
      tree.render r.options.page r.separator standardTypes = .ok output := ⟨_, Scope.render_eq_ok hfits⟩
  have hflat : (flatten r.options source file).result = .ok ⟨file, tree, output, count⟩ :=
    result_flatten_of_render hparse hrender
  refine ⟨_, hflat, ?_, fun hr => ?_⟩
  · have hstrips : (tree.render r.options.page r.separator standardTypes).map Text.stripSequences =
        tree.render .standard r.separator standardTypes :=
      Scope.stripSequences_render (escapeless_of_parseSource hparse hsource) hsep 4 _ standardTypes
    rw [hrender, htext] at hstrips
    exact Except.ok.inj hstrips
  · have hpage : r.options.page = .standard := by
      rw [Request.options, hr, Bool.and_false]
      rfl
    rw [hpage, htext] at hrender
    exact (Except.ok.inj hrender).symm

/-- A source without escape characters is flattened to the same text in color and in
    none, up to the control sequences. So what the command shows of such a file where
    there is no terminal, what it shows if asked for no color, and what it writes to a
    file are one text. -/
theorem outputs_agree {separator : String} (hsep : Text.escape ∉ separator.toList) :
    (∀ options file tree count, (parseSource options source file).result = .ok (tree, count) →
      ∀ width color builtins,
        (tree.render ⟨width, color⟩ separator builtins).map Text.stripSequences =
          tree.render ⟨width, false⟩ separator builtins) ∧
    ∀ files input tree count, Holds files input source →
      (parseSource .standard source (plainPath input)).result = .ok (tree, count) →
      (fitsWord (source.length * 4) = true →
        ∃ text, tree.render .standard separator standardTypes = .ok text) ∧
      ∀ text, tree.render .standard separator standardTypes = .ok text →
        ∀ arguments r console, Asks arguments input separator r →
          (r.output = none → r.color = some false ∨ r.color = none ∧ console.stdout = false →
            ∃ stderr, (run FileTree.system console arguments).run files =
              (⟨0, text, stderr⟩, files)) ∧
          ∀ path later, r.output = some path → Takes files path text.toUTF8.toList later →
            ∃ report, (run FileTree.system console arguments).run files = (report, later) ∧
              report.exit = 0 ∧ later.read (plainPath path) = .ok text.toUTF8.toList := by
  refine ⟨fun options file tree count hparse width color builtins =>
    Scope.stripSequences_render (escapeless_of_parseSource hparse hsource) hsep width color builtins,
    fun files input tree count hfile hparse => ?_⟩
  refine ⟨fun hlength => ⟨_, Scope.render_eq_ok (Scope.fits_of_length hparse hlength _ _)⟩,
    fun text htext arguments r console hasks => ?_⟩
  obtain ⟨flattened, hflat, hstrips, hplain⟩ := exists_flatten_of_request hsource r hparse
    (hasks.separator ▸ hsep) (hasks.separator ▸ htext)
  refine ⟨fun hr hcolor => ?_, fun path later hr htakes => ?_⟩
  · have hshown : shownOn (r.color.getD console.stdout) flattened.output = text := by
      have hterminal : r.color.getD console.stdout = false := by
        rcases hcolor with hcolor | ⟨hcolor, hconsole⟩
        · rw [hcolor]
          rfl
        · rw [hcolor, hconsole]
          rfl
      rw [hterminal]
      exact hstrips
    obtain ⟨log, hrun⟩ := run_of_asks hasks hfile (fun path hpath => absurd (hr.symm.trans hpath) nofun)
      hflat (run_deliver_of_output_none hasks hr console flattened files)
    exact ⟨log ++ "", by rw [hrun, hshown]; rfl⟩
  · have hwritten := htakes.written
    rw [← hplain (by rw [hr]; rfl)] at hwritten
    obtain ⟨report, hdeliver, hexit⟩ := run_deliver_of_output_some hasks hr hwritten console
    obtain ⟨log, hrun⟩ := run_of_asks hasks hfile (fun other hother => by
      cases hr.symm.trans hother
      exact ⟨htakes.namable, htakes.kind⟩) hflat hdeliver
    exact ⟨report.behind log, hrun, hexit, FileTree.read_write htakes.written⟩

end

/-- A struct in a namespace. -/
def shelteredStruct : String :=
  "namespace n \x7b struct a \x7b int x = 1; \x7d; \x7d"

/-- A directory with that source. -/
def shelteredFiles : FileTree :=
  ⟨[(["in"], .file (shelteredStruct.toList.map fun c => c.toNat.toUInt8))]⟩

/-- Shown, shown without colors and written with them, the text is one. -/
theorem outputs_agree_shelteredStruct :
    ∃ text stderr stderr' report later,
      (run FileTree.system .redirected ["in"]).run shelteredFiles =
        (⟨0, text, stderr⟩, shelteredFiles) ∧
      (run FileTree.system ⟨true, true⟩ ["--no-color", "in"]).run shelteredFiles =
        (⟨0, text, stderr'⟩, shelteredFiles) ∧
      (run FileTree.system ⟨true, true⟩ ["--color", "-o", "out", "in"]).run shelteredFiles =
        (report, later) ∧
      later.read "out" = .ok text.toUTF8.toList := by
  have hin : plainPath "in" = "in" := by cbv
  have hout : plainPath "out" = "out" := by cbv
  have hread : shelteredFiles.read "in" =
      .ok (shelteredStruct.toList.map fun c => c.toNat.toUInt8) := by cbv
  have hholds : Holds shelteredFiles "in" shelteredStruct :=
    ⟨by decide, FileTree.kindOf_of_read hread, _, hin.symm ▸ hread, by decide +kernel⟩
  have hok : (parseSource .standard shelteredStruct "in").result.isOk = true := by decide +kernel
  cases hparse : (parseSource .standard shelteredStruct "in").result with
  | error failure =>
    rw [hparse] at hok
    cases hok
  | ok parsed =>
    obtain ⟨tree, count⟩ := parsed
    obtain ⟨hexists, hagree⟩ := (@outputs_agree shelteredStruct (by decide) "_" (by decide)).2
      shelteredFiles "in" tree count hholds (hin.symm ▸ hparse)
    obtain ⟨text, htext⟩ := hexists (by decide +kernel)
    replace hagree := hagree text htext
    obtain ⟨stderr, hshown⟩ := (hagree ["in"] ⟨none, none, "_", false, false, none, ["in"]⟩ .redirected
      ⟨by cbv, rfl, rfl, rfl, rfl⟩).1 rfl (.inr ⟨rfl, rfl⟩)
    obtain ⟨stderr', hplain⟩ := (hagree ["--no-color", "in"]
      ⟨none, some false, "_", false, false, none, ["in"]⟩ ⟨true, true⟩
      ⟨by cbv, rfl, rfl, rfl, rfl⟩).1 rfl (.inl rfl)
    have hfind : shelteredFiles.find "out" = .ok (.inside ["out"]) := by cbv
    have hwrite (bytes : List UInt8) : shelteredFiles.write "out" bytes =
        .ok (shelteredFiles.put ["out"] bytes) := by
      rw [FileTree.write, hfind]
      rfl
    have hkind : shelteredFiles.kindOf "out" ≠ .ok .directory := by
      rw [FileTree.kindOf, hfind]
      intro hdirectory
      cases hdirectory
    obtain ⟨report, hwritten, -, hcontent⟩ := (hagree ["--color", "-o", "out", "in"]
      ⟨some "out", some true, "_", false, false, none, ["in"]⟩ ⟨true, true⟩
      ⟨by cbv, rfl, rfl, rfl, rfl⟩).2 "out"
      (shelteredFiles.put ["out"] text.toUTF8.toList) rfl ⟨by decide, hkind, hout.symm ▸ hwrite _⟩
    rw [hout] at hcontent
    exact ⟨text, stderr, stderr', report, _, hshown, hplain, hwritten, hcontent⟩

end Flattener
