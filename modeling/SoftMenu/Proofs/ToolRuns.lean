import SoftMenu.CommandLine.Run
import SoftMenu.Proofs.Files
import SoftMenu.Proofs.References

/-!
# What a run of the tool leaves behind

A run goes one of four ways: its source cannot be read, it does not compile, the output cannot be
written, or all goes well. The first three leave the files as they are (`run_of_not_possible`), and
the last writes the output and nothing else (`run_of_possible`). What is printed is settled before
anything is written (`stdout_run`).
-/

namespace SoftMenu

/-- What is printed about some diagnostics. -/
def DiagnosticFormat.printed : DiagnosticFormat → List Diagnostic → String
  | .pretty, _ => ""
  | .json, diagnostics => Json.write .pretty (.arr (diagnostics.map Diagnostic.toJson)) ++ "\n"

/-! ## Plans -/

/-- How a plan ends: its exit status, what it prints, and what it writes. -/
structure Plan.Ends (plan : Plan) (exit : Nat) (stdout : String)
    (output : Option (String × String)) : Prop where
  exit : plan.exit = exit
  stdout : plan.stdout = stdout
  output : plan.output = output

namespace Plan.Ends

variable {plan : Plan} {exit : Nat} {stdout : String} {output : Option (String × String)}

theorem saying (h : plan.Ends exit stdout output) (lines : List String) :
    (plan.saying lines).Ends exit stdout output :=
  ⟨h.exit, h.stdout, h.output⟩

theorem showing (h : plan.Ends exit stdout output) (format : DiagnosticFormat) (source : String)
    (diagnostics : List Diagnostic) :
    (plan.showing format source diagnostics).Ends exit (stdout ++ format.printed diagnostics)
      output := by
  cases format with
  | pretty => exact ⟨h.exit, h.stdout.trans String.append_empty.symm, h.output⟩
  | json =>
    refine ⟨h.exit, ?_, h.output⟩
    rw [← h.stdout]
    exact String.append_assoc

theorem ite {condition : Prop} [Decidable condition] {other : Plan}
    (h : condition → plan.Ends exit stdout output)
    (hother : ¬ condition → other.Ends exit stdout output) :
    (if condition then plan else other).Ends exit stdout output := by
  split_ifs with hcondition
  · exact h hcondition
  · exact hother hcondition

end Plan.Ends

namespace Request

variable {request : Request} {terminal : Bool} {source : String}

theorem ends_of_rejected {plan : Plan} (h : plan.Ends 0 "" none) (error : CompileError) :
    (request.rejected terminal plan source error).Ends 1
      ((request.format terminal).printed [error.diagnostic]) none := by
  have hplan : Plan.Ends { plan with exit := 1 } 1 "" none := ⟨rfl, h.stdout, h.output⟩
  have hshown := hplan.showing (request.format terminal) source [error.diagnostic]
  rw [String.empty_append] at hshown
  unfold rejected
  cases hformat : request.format terminal with
  | pretty =>
    rw [hformat] at hshown
    exact hshown.saying _
  | json =>
    rw [hformat] at hshown
    exact hshown

theorem ends_of_accepted {plan : Plan} (h : plan.Ends 0 "" none) (compilation : Compilation) :
    (request.accepted terminal plan source compilation).Ends 0
      (if compilation.warnings = [] then ""
        else (request.format terminal).printed compilation.warnings)
      (some (request.outputPath, compilation.assembly)) := by
  have hshown : (if compilation.warnings.isEmpty then plan
      else plan.showing (request.format terminal) source compilation.warnings).Ends 0
      (if compilation.warnings = [] then ""
        else (request.format terminal).printed compilation.warnings) none := by
    refine Plan.Ends.ite (fun hnone => ?_) (fun hsome => ?_)
    · rw [if_pos (List.isEmpty_iff.1 hnone)]
      exact h
    · rw [if_neg fun hnone => hsome (List.isEmpty_iff.2 hnone)]
      have hwarned := h.showing (request.format terminal) source compilation.warnings
      rw [String.empty_append] at hwarned
      exact hwarned
  have hdebug := Plan.Ends.ite
    (fun _ : request.debug = true => hshown.saying compilation.debugLines) (fun _ => hshown)
  exact ⟨hdebug.exit, hdebug.stdout, rfl⟩

theorem plan_of_unread (request : Request) (terminal : Bool) (fault : FileFault) :
    (request.plan terminal (.error fault)).Ends 1 "" none :=
  ⟨rfl, rfl, rfl⟩

theorem plan_of_rejected {error : CompileError}
    (h : compile request.compileOptions source = .error error) (terminal : Bool) :
    (request.plan terminal (.ok source)).Ends 1
      ((request.format terminal).printed [error.diagnostic]) none := by
  simp only [plan, h]
  apply ends_of_rejected
  exact ⟨rfl, rfl, rfl⟩

theorem plan_of_accepted {compilation : Compilation}
    (h : compile request.compileOptions source = .ok compilation) (terminal : Bool) :
    (request.plan terminal (.ok source)).Ends 0
      (if compilation.warnings = [] then ""
        else (request.format terminal).printed compilation.warnings)
      (some (request.outputPath, compilation.assembly)) := by
  simp only [plan, h]
  apply ends_of_accepted
  exact ⟨rfl, rfl, rfl⟩

/-! ## Runs -/

/-- All that a request asks for can be done: its source can be read, the source compiles, and the
output can be written. -/
structure Possible (request : Request) (files : FileSystem) (source : String)
    (compilation : Compilation) (target : Location) : Prop where
  readable : files.HasText request.file source
  compiles : compile request.compileOptions source = .ok compilation
  writable : files.CanWrite request.outputPath target

variable {files : FileSystem}

/-- Whether the output can be written makes no difference to what is printed. -/
theorem stdout_run (request : Request) (terminal : Bool) (files : FileSystem) :
    (request.run terminal files).1.stdout =
      (request.plan terminal (files.readText request.file)).stdout := by
  simp only [run]
  split
  · rfl
  · split
    · rfl
    · rfl

theorem run_of_no_output (h : (request.plan terminal (files.readText request.file)).output = none) :
    request.run terminal files = (request.plan terminal (files.readText request.file), files) := by
  simp only [run, h]

theorem run_of_possible {compilation : Compilation} {target : Location}
    (h : request.Possible files source compilation target) :
    (request.run terminal files).1.exit = 0 ∧
      files.Written (request.run terminal files).2 request.outputPath compilation.assembly
        target := by
  have hplan := plan_of_accepted h.compiles terminal
  obtain ⟨after, hwrite, hwritten⟩ := h.writable.writeText compilation.assembly
  simp only [run, FileSystem.readText_eq_ok_iff.2 h.readable, hplan.output, hwrite]
  exact ⟨hplan.exit, hwritten⟩

/-- A run that cannot do what it is asked for does nothing. -/
theorem run_of_not_possible
    (h : ¬ ∃ source compilation target, request.Possible files source compilation target) :
    (request.run terminal files).1.exit = 1 ∧ (request.run terminal files).2 = files := by
  cases hread : files.readText request.file with
  | error fault =>
    have hplan := plan_of_unread request terminal fault
    rw [← hread] at hplan
    rw [run_of_no_output hplan.output]
    exact ⟨hplan.exit, rfl⟩
  | ok source =>
    cases hcompile : compile request.compileOptions source with
    | error error =>
      have hplan := plan_of_rejected hcompile terminal
      rw [← hread] at hplan
      rw [run_of_no_output hplan.output]
      exact ⟨hplan.exit, rfl⟩
    | ok compilation =>
      have hplan := plan_of_accepted hcompile terminal
      cases hwrite : files.writeText request.outputPath compilation.assembly with
      | error fault =>
        simp only [run, hread, hplan.output, hwrite]
        exact ⟨rfl, trivial⟩
      | ok after =>
        obtain ⟨target, hwritable⟩ := FileSystem.canWrite_of_writeText hwrite
        have hreadable := FileSystem.readText_eq_ok_iff.1 hread
        exact absurd ⟨source, compilation, target, hreadable, hcompile, hwritable⟩ h

theorem stdout_of_pretty (h : request.format terminal = .pretty)
    (reading : Except FileFault String) : (request.plan terminal reading).stdout = "" := by
  cases reading with
  | error fault => rfl
  | ok source =>
    cases hcompile : compile request.compileOptions source with
    | error error =>
      rw [(plan_of_rejected hcompile terminal).stdout, h]
      rfl
    | ok compilation =>
      rw [(plan_of_accepted hcompile terminal).stdout, h]
      exact ite_self _

/-- What a run for a request says, and what it does to the files. -/
structure RunSpec (request : Request) (terminal : Bool) (before : FileSystem) (plan : Plan)
    (after : FileSystem) : Prop where
  exit_eq_zero_iff : plan.exit = 0 ↔
    ∃ source compilation target, request.Possible before source compilation target
  written : ∀ source compilation target, request.Possible before source compilation target →
    before.Written after request.outputPath compilation.assembly target
  unchanged : plan.exit ≠ 0 → plan.exit = 1 ∧ after = before
  stdout_pretty : request.format terminal = .pretty → plan.stdout = ""
  stdout_unread : (∀ source, ¬ before.HasText request.file source) → plan.stdout = ""
  stdout_rejected : ∀ source error, before.HasText request.file source →
    compile request.compileOptions source = .error error → request.format terminal = .json →
      plan.stdout = Json.write .pretty (.arr [error.diagnostic.toJson]) ++ "\n"
  stdout_accepted : ∀ source compilation, before.HasText request.file source →
    compile request.compileOptions source = .ok compilation → request.format terminal = .json →
      plan.stdout = if compilation.warnings = [] then "" else
        Json.write .pretty (.arr (compilation.warnings.map Diagnostic.toJson)) ++ "\n"

end Request

/-- The tool writes its output or nothing. It exits with 0 exactly if all that it is asked for can
be done, and then the output and nothing else is written; otherwise it exits with 1 and the files
are as before. It prints the diagnostics if they are shown as JSON, and nothing else. -/
theorem runSpec_of_parseArguments {arguments : List String} {request : Request}
    (h : parseArguments arguments = .ok request) (terminal : Bool) (files : FileSystem) :
    request.RunSpec terminal files (runTool arguments terminal files).1
      (runTool arguments terminal files).2 := by
  have hrun : runTool arguments terminal files = request.run terminal files := by
    simp only [runTool, h]
  rw [hrun]
  refine ⟨⟨?_, ?_⟩, ?_, ?_, ?_, ?_, ?_, ?_⟩
  · intro hexit
    by_contra hnot
    rw [(Request.run_of_not_possible hnot).1] at hexit
    cases hexit
  · rintro ⟨source, compilation, target, hpossible⟩
    exact (Request.run_of_possible hpossible).1
  · intro source compilation target hpossible
    exact (Request.run_of_possible hpossible).2
  · intro hexit
    apply Request.run_of_not_possible
    rintro ⟨source, compilation, target, hpossible⟩
    exact hexit (Request.run_of_possible hpossible).1
  · intro hformat
    rw [Request.stdout_run]
    exact Request.stdout_of_pretty hformat _
  · intro hunread
    rw [Request.stdout_run]
    cases hread : files.readText request.file with
    | error fault => rfl
    | ok source => exact absurd (FileSystem.readText_eq_ok_iff.1 hread) (hunread source)
  · intro source error hread hcompile hformat
    rw [Request.stdout_run, FileSystem.readText_eq_ok_iff.2 hread,
      (Request.plan_of_rejected hcompile terminal).stdout, hformat]
    rfl
  · intro source compilation hread hcompile hformat
    rw [Request.stdout_run, FileSystem.readText_eq_ok_iff.2 hread,
      (Request.plan_of_accepted hcompile terminal).stdout, hformat]
    rfl

/-- A strict run over a menu in the working folder writes its output beside it. -/
theorem runSpec_nestedMenu :
    ∃ compilation, compile ⟨"menu", .strict, false⟩ nestedMenu = .ok compilation ∧
      (runTool ["menu", "--duplicate-names", "strict"] false
        (FileSystem.addFile {} "menu" nestedMenu.toUTF8)).1.exit = 0 ∧
      (FileSystem.addFile {} "menu" nestedMenu.toUTF8).Written
        (runTool ["menu", "--duplicate-names", "strict"] false
          (FileSystem.addFile {} "menu" nestedMenu.toUTF8)).2
        "menu.asm" compilation.assembly ["menu.asm"] := by
  obtain ⟨compilation, hcompile⟩ := exists_compile_nestedMenu
  have harguments : parseArguments ["menu", "--duplicate-names", "strict"] =
      .ok { file := "menu", duplicateNames := .strict } := by decide +kernel
  have hspec := runSpec_of_parseArguments harguments false
    (FileSystem.addFile {} "menu" nestedMenu.toUTF8)
  have hpossible : Request.Possible { file := "menu", duplicateNames := .strict }
      (FileSystem.addFile {} "menu" nestedMenu.toUTF8) nestedMenu compilation ["menu.asm"] := by
    refine ⟨⟨rfl, ["menu"], rfl, rfl⟩, hcompile, rfl, ?_, rfl⟩
    intro hfolder
    cases hfolder
  exact ⟨compilation, hcompile, hspec.exit_eq_zero_iff.2 ⟨_, _, _, hpossible⟩,
    hspec.written _ _ _ hpossible⟩

end SoftMenu
