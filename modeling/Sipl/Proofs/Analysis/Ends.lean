import Sipl.CommandLine.Command
import Sipl.Proofs.Analysis.Problems
import Sipl.Proofs.Format.Meaning
import Sipl.Proofs.Run.Causes
import Sipl.Proofs.Run.StoredAgreement

namespace Sipl

variable {source : String} {fuel : Nat} {limit? : Option Nat}

/-- A way to store programs in arenas. -/
structure Storage where
  store : Program → StoredProgram
  holds : ∀ program, (store program).Holds program

/-- In an arena of its own, the parts of every node in front of it. -/
def Storage.consecutive : Storage where
  store program := ⟨(Arena.storeProgram {} program).2, (Arena.storeProgram {} program).1⟩
  holds program := Arena.holds_storeProgram {} program

/-- Run a source text as a stored program.  If the run breaks off, the interpreter has failed. -/
def runStored (storage : Storage) (describe : Breach → String) (fuel : Nat) (limit? : Option Nat)
    (source : String) : Option RunOutcome :=
  let analysis := Analysis.ofSource source
  if analysis.hasErrors then
    some (.compileErrors analysis.diagnostics)
  else
    match analysis.parsed.program? with
    | none =>
      some (.runtimeError
        (RuntimeError.internalDiagnostic "parser produced no program and no errors"))
    | some program =>
      match (storage.store program).evaluate fuel limit? with
      | .error breach => some (.runtimeError (RuntimeError.internalDiagnostic (describe breach)))
      | .ok answer => answer.map RunOutcome.ofAnswer

theorem runStored_eq (storage : Storage) (describe : Breach → String) (fuel : Nat)
    (limit? : Option Nat) (source : String) :
    runStored storage describe fuel limit? source = runSource fuel limit? source := by
  simp only [runStored, runSource, (storage.holds _).evaluate_eq]
  rfl

/-- The codes of errors that a program can have when it is run. -/
def runtimeCodes : List String :=
  ["E6001", "E6002", "E6003", "E6004", "E6005", "E6006", "E6007"]

theorem text_mem_runtimeCodes {code : Code} (running : code.phase = .running) :
    code.text ∈ runtimeCodes := by
  cases code <;> first | decide | cases running

/-- Bindings, or an error of the program. -/
inductive RunOutcome.OfProgram : RunOutcome → Prop where
  | success {bindings : Bindings} : OfProgram (.success bindings)
  | runtimeError {diagnostic : Diagnostic} (listed : diagnostic.code.text ∈ runtimeCodes) :
      OfProgram (.runtimeError diagnostic)

namespace RunOutcome.OfProgram

variable {outcome : RunOutcome} (ofProgram : outcome.OfProgram)

include ofProgram

theorem ne_compileErrors (diagnostics : List Diagnostic) :
    outcome ≠ .compileErrors diagnostics := by
  cases ofProgram <;> exact nofun

theorem exitCode_ne : outcome.exitCode ≠ 65 := by
  cases ofProgram <;> exact nofun

theorem code_ne_internal : ∀ diagnostic ∈ outcome.diagnostics, diagnostic.code ≠ .internal := by
  cases ofProgram with
  | success => exact List.forall_mem_nil _
  | runtimeError listed =>
      refine List.forall_mem_singleton.mpr fun internal => ?_
      rw [internal] at listed
      exact absurd listed (by decide)

end RunOutcome.OfProgram

theorem ofProgram_of_evaluate {program : Program} {answer : Except RuntimeError Bindings}
    (known : evaluate fuel limit? program = some answer) :
    (RunOutcome.ofAnswer answer).OfProgram := by
  cases answer with
  | ok bindings => exact .success
  | error error => exact .runtimeError (text_mem_runtimeCodes (phase_of_evaluate known))

theorem runSource_of_problems (faulty : (Analysis.ofSource source).diagnostics ≠ []) :
    runSource fuel limit? source =
      some (.compileErrors (Analysis.ofSource source).diagnostics) := by
  simp [runSource, Analysis.hasErrors, faulty]

theorem ofProgram_of_runSource {outcome : RunOutcome}
    (clean : (Analysis.ofSource source).diagnostics = [])
    (ended : runSource fuel limit? source = some outcome) : outcome.OfProgram := by
  obtain ⟨program, found⟩ :=
    Analysis.program?_of_isProgramText (Analysis.diagnostics_eq_nil_iff_isProgramText.mp clean)
  rw [runSource_of_clean fuel limit? clean found] at ended
  obtain ⟨answer, known, rfl⟩ := Option.map_eq_some_iff.mp ended
  exact ofProgram_of_evaluate known

namespace Action

theorem exitCode_withProgram {report : List Diagnostic → Response} {answer : Program → Response}
    (reported : ∀ diagnostics, (report diagnostics).exitCode = 65)
    (answered : ∀ program, (answer program).exitCode = 0) (source : String) :
    (withProgram source report answer).exitCode =
      if (Analysis.ofSource source).diagnostics = [] then 0 else 65 := by
  by_cases clean : (Analysis.ofSource source).diagnostics = []
  · obtain ⟨program, found⟩ :=
      Analysis.program?_of_isProgramText (Analysis.diagnostics_eq_nil_iff_isProgramText.mp clean)
    simp [withProgram, Analysis.hasErrors, clean, found, answered]
  · simp [withProgram, Analysis.hasErrors, clean, reported]

theorem exitCode_ofDiagnostics (options : Options) (terminal : Bool) (exitCode : Nat)
    (written : String) (diagnostics : List Diagnostic) :
    (Response.ofDiagnostics options terminal exitCode written diagnostics).exitCode = exitCode := by
  rw [Response.ofDiagnostics]
  cases options.format <;> rfl

/-- A command that does not run the program tells only whether the text has problems. -/
theorem exitCode_respond {action : Action} (listed : action ∈ [check, parse, format]) (fuel : Nat)
    (terminal : Bool) (options : Options) (path source : String) :
    (action.respond fuel terminal options path source).map Response.exitCode =
      some (if (Analysis.ofSource source).diagnostics = [] then 0 else 65) := by
  have reported := exitCode_ofDiagnostics options terminal 65 ""
  simp only [List.mem_cons, List.not_mem_nil, or_false] at listed
  rcases listed with rfl | rfl | rfl
  · refine congrArg some (exitCode_withProgram reported (fun program => ?_) source)
    cases options.format with
    | text => rfl
    | json => exact exitCode_ofDiagnostics ..
  · exact congrArg some (exitCode_withProgram reported (fun program => rfl) source)
  · exact congrArg some (exitCode_withProgram reported (fun program => rfl) source)

theorem exitCode_run (fuel : Nat) (terminal : Bool) (options : Options) (path source : String) :
    (run.respond fuel terminal options path source).map Response.exitCode =
      (runSource fuel (some options.depth) source).map RunOutcome.exitCode := by
  rw [respond, Option.map_map]
  apply Option.map_congr
  intro outcome _
  cases outcome with
  | success bindings => rfl
  | compileErrors diagnostics => exact exitCode_ofDiagnostics ..
  | runtimeError diagnostic => exact exitCode_ofDiagnostics ..

theorem exitCode_run_eq_iff (fuel : Nat) (terminal : Bool) (options : Options)
    (path source : String) :
    (run.respond fuel terminal options path source).map Response.exitCode = some 65 ↔
      (Analysis.ofSource source).diagnostics ≠ [] := by
  rw [exitCode_run]
  constructor
  · intro rejected clean
    obtain ⟨outcome, ended, code⟩ := Option.map_eq_some_iff.mp rejected
    exact (ofProgram_of_runSource clean ended).exitCode_ne code
  · intro faulty
    rw [runSource_of_problems faulty]
    rfl

end Action

/-- A text that is not a program has problems of scanning, followed by problems of reading, and they
are reported whatever the fuel and the limit on calls: nothing is run.  Otherwise there is a
program, and a run that ends does so with bindings or with one error of the program.  A failure of
the interpreter is never reported: however the program is stored, its run does not break off.  The
commands that do not run programs end like a run if the text is not a program, and else with
success. -/
theorem runSource_ends_in_one_class (source : String) :
    (¬ IsProgramText source → ∃ diagnostics, diagnostics ≠ [] ∧ CompileTimeOnly diagnostics ∧
        ∀ fuel limit?, runSource fuel limit? source = some (.compileErrors diagnostics)) ∧
      (IsProgramText source →
        ∃ program, (Analysis.ofSource source).parsed.program? = some program ∧
          ∀ fuel limit?, runSource fuel limit? source =
              (evaluate fuel limit? program).map RunOutcome.ofAnswer ∧
            ∀ outcome, runSource fuel limit? source = some outcome → outcome.OfProgram) ∧
      (∀ fuel limit? outcome, runSource fuel limit? source = some outcome →
        ((∃ diagnostics, outcome = .compileErrors diagnostics) ↔ ¬ IsProgramText source) ∧
          ∀ diagnostic ∈ outcome.diagnostics, diagnostic.code ≠ .internal) ∧
      (∀ storage describe fuel limit?,
        runStored storage describe fuel limit? source = runSource fuel limit? source) ∧
      ∀ action ∈ [Action.check, .parse, .format], ∀ fuel terminal options path,
        ∃ response, action.respond fuel terminal options path source = some response ∧
          (response.exitCode = 0 ∨ response.exitCode = 65) ∧
          ∀ runFuel runTerminal runOptions runPath, response.exitCode = 65 ↔
            (Action.run.respond runFuel runTerminal runOptions runPath source).map
              Response.exitCode = some 65 := by
  have clean : (Analysis.ofSource source).diagnostics = [] ↔ IsProgramText source :=
    Analysis.diagnostics_eq_nil_iff_isProgramText
  refine ⟨?_, ?_, ?_, ?_, ?_⟩
  · intro rejected
    have faulty := mt clean.mp rejected
    exact ⟨_, faulty, Analysis.compileTimeOnly_diagnostics source, fun _ _ =>
      runSource_of_problems faulty⟩
  · intro text
    obtain ⟨program, found⟩ := Analysis.program?_of_isProgramText text
    refine ⟨program, found, fun fuel limit? => ⟨?_, fun _ ended => ?_⟩⟩
    · exact runSource_of_clean fuel limit? (clean.mpr text) found
    · exact ofProgram_of_runSource (clean.mpr text) ended
  · intro fuel limit? outcome ended
    by_cases text : IsProgramText source
    · have ofProgram := ofProgram_of_runSource (clean.mpr text) ended
      refine ⟨⟨?_, fun rejected => absurd text rejected⟩, ofProgram.code_ne_internal⟩
      rintro ⟨diagnostics, same⟩
      exact absurd same (ofProgram.ne_compileErrors diagnostics)
    · rw [runSource_of_problems (mt clean.mp text)] at ended
      obtain rfl := Option.some.inj ended
      exact ⟨⟨fun _ => text, fun _ => ⟨_, rfl⟩⟩,
        (Analysis.compileTimeOnly_diagnostics source).code_ne_internal⟩
  · intro storage describe fuel limit?
    exact runStored_eq storage describe fuel limit? source
  · intro action listed fuel terminal options path
    obtain ⟨response, known, code⟩ := Option.map_eq_some_iff.mp
      (Action.exitCode_respond listed fuel terminal options path source)
    refine ⟨response, known, ?_, fun runFuel runTerminal runOptions runPath => ?_⟩
    · rw [code]
      split
      · exact .inl rfl
      · exact .inr rfl
    · rw [code, Action.exitCode_run_eq_iff]
      split
      · next empty => exact ⟨nofun, fun faulty => absurd empty faulty⟩
      · next faulty => exact ⟨fun _ => faulty, fun _ => rfl⟩

/-- A program that fails. -/
def failingSource : String := "program begin x := 1 / 0 end"

/-- A text with a stray character and a missing expression. -/
def faultySource : String := "program begin x := @ end"

theorem runSource_ends_in_one_class_of_failures :
    (runSource 9 none failingSource).map (·.diagnostics.map (·.code.text)) = some ["E6002"] ∧
      (∀ outcome, runSource 9 none failingSource = some outcome → outcome.OfProgram) ∧
      (∀ describe, runStored .consecutive describe 9 none failingSource =
        runSource 9 none failingSource) ∧
      (runSource 9 none faultySource).map (·.diagnostics.map (·.code.text)) =
        some ["E0001", "E1002"] ∧
      ∃ diagnostics, CompileTimeOnly diagnostics ∧
        ∀ fuel limit?, runSource fuel limit? faultySource = some (.compileErrors diagnostics) := by
  have clean : (Analysis.ofSource failingSource).diagnostics = [] := by with_unfolding_all rfl
  have faults : (Analysis.ofSource faultySource).diagnostics.length = 2 := by
    with_unfolding_all rfl
  have text := Analysis.diagnostics_eq_nil_iff_isProgramText.mp clean
  have rejected : ¬ IsProgramText faultySource := by
    intro text
    rw [Analysis.diagnostics_eq_nil_iff_isProgramText.mpr text] at faults
    cases faults
  obtain ⟨_, accepted, _, stored, _⟩ := runSource_ends_in_one_class failingSource
  obtain ⟨refused, _⟩ := runSource_ends_in_one_class faultySource
  obtain ⟨program, _, ends⟩ := accepted text
  obtain ⟨diagnostics, _, ordered, always⟩ := refused rejected
  exact ⟨by with_unfolding_all rfl, (ends 9 none).2,
    fun describe => stored .consecutive describe 9 none, by with_unfolding_all rfl, diagnostics,
    ordered, always⟩

end Sipl
