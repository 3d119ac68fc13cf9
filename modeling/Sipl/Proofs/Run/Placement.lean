import Sipl.Proofs.Run.Unwinding

namespace Sipl

open Reference

/-- A program that ends with an error other than an unknown function comes to a node that raises
it, and the error is placed there. -/
theorem error_is_placed_where_raised (program : Program) (limit? : Option Nat) (fuel : Nat)
    (error : RuntimeError) (failed : evaluate fuel limit? program = some (.error error))
    (known : ∀ name, error.cause ≠ .undefinedFunction name) :
    ∃ trail, FailsAlong program limit? trail ∧ trail.cause = error.cause ∧
      error.site? = some trail.raised := by
  obtain ⟨trail, fails, rfl⟩ := exists_trail_of_evaluate failed
  refine ⟨trail, fails, rfl, ?_⟩
  cases cause : trail.cause with
  | undefinedFunction name => exact absurd cause (known name)
  | _ => simp only [Trail.error, Trail.place?, cause]

/-- The tree of `program func f(a) = 1 / a begin x := f(0) end`. -/
def zeroDivisor : Program where
  functions := [⟨⟨1, ⟨8, 25⟩⟩, "f", [⟨"a", ⟨15, 16⟩⟩],
    .arith ⟨1, ⟨20, 25⟩⟩ .div (.literal ⟨1, ⟨20, 21⟩⟩ (.int 1)) (.var ⟨1, ⟨24, 25⟩⟩ "a")⟩]
  body := .mk ⟨26, 45⟩ [.assign ⟨1, ⟨32, 41⟩⟩ "x"
    (.call ⟨1, ⟨37, 41⟩⟩ "f" [.literal ⟨1, ⟨39, 40⟩⟩ (.int 0)])]

theorem error_is_placed_where_raised_in_zeroDivisor :
    evaluate 9 none zeroDivisor =
        some (.error ⟨.divisionByZero, some ⟨1, ⟨20, 25⟩⟩, some ⟨[⟨"f", 1⟩]⟩⟩) ∧
      ∃ trail, FailsAlong zeroDivisor none trail ∧ trail.cause = .divisionByZero ∧
        trail.raised = ⟨1, ⟨20, 25⟩⟩ := by
  have failed : evaluate 9 none zeroDivisor =
      some (.error ⟨.divisionByZero, some ⟨1, ⟨20, 25⟩⟩, some ⟨[⟨"f", 1⟩]⟩⟩) := by rfl
  obtain ⟨trail, fails, cause, placed⟩ :=
    error_is_placed_where_raised zeroDivisor none 9 _ failed (by simp)
  exact ⟨failed, trail, fails, cause, (Option.some.inj placed).symm⟩

/-- The tree of `program begin x := f() end`. -/
def strayCall : Program where
  functions := []
  body := .mk ⟨8, 26⟩ [.assign ⟨1, ⟨14, 22⟩⟩ "x" (.call ⟨1, ⟨19, 22⟩⟩ "f" [])]

/-- The call of an unknown function may be placed nowhere, although its node raises it. -/
theorem strayCall_is_placed_nowhere :
    evaluate 9 none strayCall = some (.error { cause := .undefinedFunction "f" }) ∧
      FailsAlong strayCall none { cause := .undefinedFunction "f", raised := ⟨1, ⟨19, 22⟩⟩ } := by
  refine ⟨by rfl, .empty, _, .here, .value (.raised (.undefinedFunction ?_))⟩
  intro function declared
  cases declared

namespace Reference.Trail

variable {trail : Trail} {name : String}

theorem place?_of_known (known : ∀ name, trail.cause ≠ .undefinedFunction name) :
    trail.place? = some trail.raised := by
  cases cause : trail.cause with
  | undefinedFunction name => exact absurd cause (known name)
  | _ => simp only [place?, cause]

theorem place?_of_unknown (unknown : trail.cause = .undefinedFunction name) :
    trail.place? = (trail.steps.find? fun step => step.role.catches).map Step.site := by
  simp only [place?, unknown]

end Reference.Trail

/-- The trails of a program that ends with an error tell where it is placed: at the node that raised
it, or, if that is the call of an unknown function, at the nearest node that the error comes out of
by a branch, a left operand or the body of a called function.  Without such a node it is placed
nowhere. -/
theorem error_is_placed_on_its_trail (program : Program) (limit? : Option Nat) (fuel : Nat)
    (error : RuntimeError) (failed : evaluate fuel limit? program = some (.error error)) :
    (∃ trail, FailsAlong program limit? trail) ∧
      ∀ trail, FailsAlong program limit? trail →
        trail.cause = error.cause ∧
        ((∀ name, error.cause ≠ .undefinedFunction name) → error.site? = some trail.raised) ∧
        ∀ name, error.cause = .undefinedFunction name →
          (∀ inner step outer, trail.steps = inner ++ step :: outer →
            (∀ passed ∈ inner, passed.role.catches = false) → step.role.catches = true →
            error.site? = some step.site) ∧
          ((∀ passed ∈ trail.steps, passed.role.catches = false) → error.site? = none) := by
  constructor
  · obtain ⟨trail, fails, _⟩ := exists_trail_of_evaluate failed
    exact ⟨trail, fails⟩
  · intro trail fails
    obtain rfl := error_eq_of_failsAlong failed fails
    refine ⟨rfl, Trail.place?_of_known, fun name unknown => ⟨?_, ?_⟩⟩
    · intro inner step outer split passed catches
      have passing : inner.find? (fun step => step.role.catches) = none :=
        List.find?_eq_none.mpr (by simpa using passed)
      have found : (step :: outer).find? (fun step => step.role.catches) = some step :=
        List.find?_cons_of_pos catches
      refine (Trail.place?_of_unknown unknown).trans ?_
      rw [split, List.find?_append, passing, found]
      rfl
    · intro passed
      have passing : trail.steps.find? (fun step => step.role.catches) = none :=
        List.find?_eq_none.mpr (by simpa using passed)
      exact (Trail.place?_of_unknown unknown).trans (by rw [passing]; rfl)

/-- The tree of `program func g(a) = h(a) begin x := 1 + g(0) end`. -/
def strayBody : Program where
  functions := [⟨⟨1, ⟨8, 24⟩⟩, "g", [⟨"a", ⟨15, 16⟩⟩],
    .call ⟨1, ⟨20, 24⟩⟩ "h" [.var ⟨1, ⟨22, 23⟩⟩ "a"]⟩]
  body := .mk ⟨25, 48⟩ [.assign ⟨1, ⟨31, 44⟩⟩ "x"
    (.arith ⟨1, ⟨36, 44⟩⟩ .add (.literal ⟨1, ⟨36, 37⟩⟩ (.int 1))
      (.call ⟨1, ⟨40, 44⟩⟩ "g" [.literal ⟨1, ⟨42, 43⟩⟩ (.int 0)]))]

/-- From the call of `h` the error comes out of the body of `g`, and then out of the sum. -/
def strayBodyTrail : Trail where
  cause := .undefinedFunction "h"
  raised := ⟨1, ⟨20, 24⟩⟩
  steps := [⟨⟨1, ⟨40, 44⟩⟩, .body ⟨"g", 1⟩⟩, ⟨⟨1, ⟨36, 44⟩⟩, .operand⟩]

theorem failsAlong_strayBodyTrail : FailsAlong strayBody none strayBodyTrail := by
  have undeclared : Undeclared strayBody "h" := by
    intro function declared
    obtain rfl := List.mem_singleton.mp declared
    decide
  have declared : LastDeclared strayBody "g" strayBody.functions[0] :=
    ⟨[], [], rfl, rfl, by simp⟩
  have arguments : Evaluates strayBody none 0 .empty
      (.values [.literal ⟨1, ⟨42, 43⟩⟩ (.int 0)] (.ok [.int 0])) :=
    .moreValues .literal .noValues
  have raised : Fails strayBody none 1 (.ofParams strayBody.functions[0].params [.int 0])
      strayBody.functions[0].body { cause := .undefinedFunction "h", raised := ⟨1, ⟨20, 24⟩⟩ } :=
    .raised (.undefinedFunction undeclared)
  have called : Fails strayBody none 0 .empty
      (.call ⟨1, ⟨40, 44⟩⟩ "g" [.literal ⟨1, ⟨42, 43⟩⟩ (.int 0)]) _ :=
    .called declared arguments rfl (by rintro limit ⟨⟩) raised
  exact ⟨.empty, _, .here, .value (.inside (.right .literal) called)⟩

theorem error_is_placed_on_its_trail_in_strayBody :
    evaluate 9 none strayBody =
        some (.error ⟨.undefinedFunction "h", some ⟨1, ⟨40, 44⟩⟩, some ⟨[⟨"g", 1⟩]⟩⟩) ∧
      FailsAlong strayBody none strayBodyTrail ∧
      (⟨1, ⟨40, 44⟩⟩ : Site) = strayBodyTrail.steps[0].site := by
  have failed : evaluate 9 none strayBody =
      some (.error ⟨.undefinedFunction "h", some ⟨1, ⟨40, 44⟩⟩, some ⟨[⟨"g", 1⟩]⟩⟩) := by rfl
  obtain ⟨_, placed⟩ := error_is_placed_on_its_trail strayBody none 9 _ failed
  obtain ⟨_, _, unknown⟩ := placed _ failsAlong_strayBodyTrail
  have site := (unknown "h" rfl).1 [] _ _ rfl (by simp) rfl
  exact ⟨failed, failsAlong_strayBodyTrail, Option.some.inj site⟩

end Sipl
