import Sipl.Proofs.Run.FinalBindings
import Sipl.Proofs.Run.Statements

namespace Sipl

open Reference Machine Outcome

variable {program : Program} {limit? : Option Nat} {fuel : Nat}

theorem Machine.Rests.start (limit? : Option Nat) :
    Rests { calls := { limit? } } limit? .empty [] :=
  ⟨.empty, rfl⟩

/-- The answer of a run, by the verdict of its main block. -/
theorem evaluate_eq_some_iff {answer : Except Cause Bindings} :
    (∃ found, evaluate fuel limit? program = some found ∧
        found.mapError RuntimeError.cause = answer) ↔
      (∃ result, (execProgram fuel limit? program).verdict = some result ∧
        result.map (fun _ => .ofList (execProgram fuel limit? program).2.scopes.globals) =
          answer) := by
  rw [evaluate]
  obtain ⟨result, machine⟩ := execProgram fuel limit? program
  cases result with
  | ok value => simp [verdict, Except.map]; rfl
  | error halt => cases halt <;> simp [verdict, Except.map]; rfl

theorem means_of_evaluate {answer : Except RuntimeError Bindings}
    (known : evaluate fuel limit? program = some answer) :
    Means program limit? (answer.mapError RuntimeError.cause) := by
  obtain ⟨result, verdict, same⟩ := evaluate_eq_some_iff.mp ⟨answer, known, rfl⟩
  rw [← same]
  obtain ⟨effect, leaves, runs⟩ := (traced program limit? fuel).stmts (.start limit?)
    (Option.isSome_iff_exists.mpr ⟨result, verdict⟩)
  cases effect with
  | ok names =>
      obtain ⟨ended, rests⟩ := leaves
      obtain rfl := Option.some.inj (verdict.symm.trans ended)
      obtain ⟨distinct, globals⟩ := rests.scopes.get?_globals
      exact .ends runs (Bindings.lists_ofList distinct globals)
  | error cause =>
      obtain rfl := Option.some.inj (verdict.symm.trans leaves)
      exact .fails runs

/-- A program that means something ends, and more fuel does not change how. -/
theorem evaluate_of_means {answer : Except Cause Bindings} (means : Means program limit? answer) :
    ∃ enough, ∀ fuel, enough ≤ fuel → ∃ found, evaluate fuel limit? program = some found ∧
      found.mapError RuntimeError.cause = answer := by
  cases means with
  | ends run listed =>
      cases concluded_of_runs run (.start limit?) with
      | ok settles rests =>
          obtain ⟨enough, settled⟩ := settles
          refine ⟨enough, fun fuel more => ?_⟩
          obtain ⟨verdict, behind⟩ := settled fuel more
          obtain ⟨distinct, globals⟩ := rests.scopes.get?_globals
          have same := (Bindings.lists_ofList distinct globals).unique listed
          refine evaluate_eq_some_iff.mpr ⟨_, verdict, ?_⟩
          rw [← same, ← behind]
          rfl
  | fails run =>
      cases concluded_of_runs run (.start limit?) with
      | error settles =>
          obtain ⟨enough, settled⟩ := settles
          refine ⟨enough, fun fuel more => ?_⟩
          obtain ⟨verdict, _⟩ := settled fuel more
          exact evaluate_eq_some_iff.mpr ⟨_, verdict, rfl⟩

/-- A program means one thing only. -/
theorem Reference.Means.unique {first second : Except Cause Bindings}
    (means : Means program limit? first) (again : Means program limit? second) :
    first = second := by
  obtain ⟨enough, ends⟩ := evaluate_of_means means
  obtain ⟨sufficient, endsAgain⟩ := evaluate_of_means again
  obtain ⟨found, known, rfl⟩ := ends (max enough sufficient) (by omega)
  obtain ⟨other, knownAgain, rfl⟩ := endsAgain (max enough sufficient) (by omega)
  rw [Option.some.inj (known.symm.trans knownAgain)]

/-- Whatever the limit on calls: a run ends with some bindings, or with an error of some cause,
exactly when the reference semantics tells these bindings or this cause. -/
theorem evaluate_computes_reference (program : Program) (limit? : Option Nat)
    (answer : Except Cause Bindings) :
    (∃ fuel found, evaluate fuel limit? program = some found ∧
        found.mapError RuntimeError.cause = answer) ↔
      Means program limit? answer := by
  constructor
  · rintro ⟨fuel, found, known, rfl⟩
    exact means_of_evaluate known
  · intro means
    obtain ⟨enough, ends⟩ := evaluate_of_means means
    exact ⟨enough, ends enough (Nat.le_refl enough)⟩

end Sipl
