import Sipl.Proofs.Format.Canonical
import Sipl.Proofs.Run.Unplaced

namespace Sipl

namespace RunOutcome

/-- The same bindings, or failures of the program with the same code and message. -/
inductive Agrees : RunOutcome → RunOutcome → Prop where
  | success {bindings : Bindings} : Agrees (.success bindings) (.success bindings)
  | runtimeError {diagnostic other : Diagnostic} (code : diagnostic.code = other.code)
      (message : diagnostic.message = other.message) :
      Agrees (.runtimeError diagnostic) (.runtimeError other)

def ofAnswer : Except RuntimeError Bindings → RunOutcome
  | .ok bindings => .success bindings
  | .error error => .runtimeError error.diagnostic

theorem agrees_ofAnswer {answer other : Except RuntimeError Bindings}
    (same : answer.mapError RuntimeError.cause = other.mapError RuntimeError.cause) :
    (ofAnswer answer).Agrees (ofAnswer other) := by
  cases answer with
  | ok bindings =>
      cases other with
      | ok others =>
          obtain rfl := Except.ok.inj same
          exact .success
      | error error => cases same
  | error error =>
      cases other with
      | ok bindings => cases same
      | error otherError =>
          have cause : error.cause = otherError.cause := Except.error.inj same
          exact .runtimeError (congrArg Cause.code cause) (congrArg Cause.message cause)

end RunOutcome

theorem runSource_of_clean {source : String} {program : Program} (fuel : Nat)
    (limit? : Option Nat) (clean : (Analysis.ofSource source).diagnostics = [])
    (found : (Analysis.ofSource source).parsed.program? = some program) :
    runSource fuel limit? source = (evaluate fuel limit? program).map RunOutcome.ofAnswer := by
  simp only [runSource, Analysis.hasErrors, clean, found]
  rfl

/-- With every limit on calls and every amount of fuel, a source text without problems and the
canonical text of its program come to the same end: the same bindings, the same message, or both
have no answer yet. -/
theorem Program.format_keeps_meaning (source : String) (limit? : Option Nat)
    (clean : (Analysis.ofSource source).diagnostics = []) :
    ∃ program, (Analysis.ofSource source).parsed.program? = some program ∧
      ∀ fuel, Option.Rel RunOutcome.Agrees (runSource fuel limit? program.format)
        (runSource fuel limit? source) := by
  obtain ⟨program, found, writable, filled⟩ := exists_of_clean clean
  obtain ⟨cleanAgain, again, foundAgain, same⟩ := clean_format writable filled
  refine ⟨program, found, fun fuel => ?_⟩
  rw [runSource_of_clean fuel limit? cleanAgain foundAgain,
    runSource_of_clean fuel limit? clean found]
  have answers : (evaluate fuel limit? again).map (·.mapError RuntimeError.cause) =
      (evaluate fuel limit? program).map (·.mapError RuntimeError.cause) := by
    rw [← evaluate_unplaced, same, evaluate_unplaced]
  cases first : evaluate fuel limit? again with
  | none =>
      rw [first] at answers
      rw [Option.map_eq_none_iff.mp answers.symm]
      exact .none
  | some answer =>
      rw [first] at answers
      obtain ⟨other, second, causes⟩ := Option.map_eq_some_iff.mp answers.symm
      rw [second]
      exact .some (RunOutcome.agrees_ofAnswer causes.symm)

/-- A call by a name that is not declared, below the first line. -/
def strayCallSource : String := "program begin x := 1;\n\n y := (stray(x)) end"

theorem Program.format_keeps_meaning_of_strayCallSource :
    (Analysis.ofSource strayCallSource).diagnostics = [] ∧
      ∃ program, (Analysis.ofSource strayCallSource).parsed.program? = some program ∧
        ∀ fuel, Option.Rel RunOutcome.Agrees (runSource fuel none program.format)
          (runSource fuel none strayCallSource) := by
  have clean : (Analysis.ofSource strayCallSource).diagnostics = [] := by with_unfolding_all rfl
  exact ⟨clean, format_keeps_meaning strayCallSource none clean⟩

end Sipl
