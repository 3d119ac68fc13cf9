import Sipl.Proofs.Run.Unwinding

namespace Sipl

open Reference

/-! A call is live from the start of the evaluation of its body to the end of it.  The backtrace of
an error lists the calls that are live at the node that raises it, whatever calls the error passes
on its way out. -/

namespace Reference

section Expressions

variable (program : Program) (limit? : Option Nat)

/-- Inside of some calls, the latest one first, an expression fails for a cause: the last argument
tells the calls that are live at the node that raises the error. -/
inductive FailsUnder : List Frame → Names → Expr → Cause → List Frame → Prop where
  /-- A call that is refused is not live. -/
  | raised {calls : List Frame} {names : Names} {expr : Expr} {cause : Cause}
      (raises : Raises program limit? calls.length names expr cause) :
      FailsUnder calls names expr cause calls
  /-- The arguments of a call are evaluated before it is live. -/
  | inside {calls live : List Frame} {names : Names} {expr part : Expr} {role : Role}
      {cause : Cause} (enters : Enters program limit? calls.length names expr role part)
      (failed : FailsUnder calls names part cause live) : FailsUnder calls names expr cause live
  | called {calls live : List Frame} {names : Names} {site : Site} {callee : String}
      {args : List Expr} {function : Function} {values : List Value} {cause : Cause}
      (declared : LastDeclared program callee function)
      (arguments : Evaluates program limit? calls.length names (.values args (.ok values)))
      (fit : values.length = function.params.length)
      (free : ∀ limit, limit? = some limit → calls.length < limit)
      (failed : FailsUnder (⟨callee, site.line⟩ :: calls) (.ofParams function.params values)
        function.body cause live) :
      FailsUnder calls names (.call site callee args) cause live

/-- A statement fails by itself, and no call is live around it. -/
inductive StmtFailsUnder (names : Names) : Stmt → Cause → List Frame → Prop where
  | value {site : Site} {target : String} {expr : Expr} {cause : Cause} {live : List Frame}
      (failed : FailsUnder program limit? [] names expr cause live) :
      StmtFailsUnder names (.assign site target expr) cause live
  | condition {stmt : Stmt} {cond : Expr} {context : String} {cause : Cause} {live : List Frame}
      (tested : test? stmt = some (cond, context))
      (failed : FailsUnder program limit? [] names cond cause live) :
      StmtFailsUnder names stmt cause live
  | mismatch {stmt : Stmt} {cond : Expr} {context : String} {value : Int}
      (tested : test? stmt = some (cond, context))
      (evaluated : Evaluates program limit? 0 names (.value cond (.ok (.int value)))) :
      StmtFailsUnder names stmt (.typeMismatch context .boolean .integer) []

/-- A program comes to a statement that fails for a cause, raised while some calls are live. -/
def FailsWhile (cause : Cause) (live : List Frame) : Prop :=
  ∃ names stmt, Reaches program limit? .empty program.body.stmts names stmt ∧
    StmtFailsUnder program limit? names stmt cause live

end Expressions

variable {program : Program} {limit? : Option Nat} {calls live : List Frame} {names : Names}
  {expr : Expr} {cause : Cause} {trail : Trail}

/-- From the node that raises the error, the calls of a trail lead out to those around it. -/
theorem exists_trail_of_failsUnder (fails : FailsUnder program limit? calls names expr cause live) :
    ∃ trail, Fails program limit? calls.length names expr trail ∧ trail.cause = cause ∧
      live = trail.frames ++ calls := by
  induction fails with
  | raised raises => exact ⟨_, .raised raises, rfl, rfl⟩
  | inside enters _ ih =>
      obtain ⟨trail, fails, same, rfl⟩ := ih
      refine ⟨_, .inside enters fails, same, ?_⟩
      rw [trail.frames_through _ enters.role_ne_body]
  | called declared arguments fit free _ ih =>
      obtain ⟨trail, fails, same, rfl⟩ := ih
      refine ⟨_, .called declared arguments fit free fails, same, ?_⟩
      rw [trail.frames_through_body, List.append_assoc, List.singleton_append]

theorem failsUnder_of_fails {active : Nat} (fails : Fails program limit? active names expr trail)
    (within : calls.length = active) :
    FailsUnder program limit? calls names expr trail.cause (trail.frames ++ calls) := by
  induction fails generalizing calls with
  | raised raises => exact .raised (within ▸ raises)
  | inside enters _ ih =>
      rw [Trail.frames_through _ _ enters.role_ne_body]
      exact .inside (within ▸ enters) (ih within)
  | called declared arguments fit free _ ih =>
      subst within
      rw [Trail.frames_through_body, List.append_assoc, List.singleton_append]
      exact .called declared arguments fit free (ih rfl)

theorem stmtFailsUnder_iff {stmt : Stmt} :
    StmtFailsUnder program limit? names stmt cause live ↔
      ∃ trail, StmtFails program limit? names stmt trail ∧ trail.cause = cause ∧
        live = trail.frames := by
  have outside : ∀ {expr}, FailsUnder program limit? [] names expr cause live ↔
      ∃ trail, Fails program limit? 0 names expr trail ∧ trail.cause = cause ∧
        live = trail.frames := by
    intro expr
    constructor
    · intro fails
      simpa using exists_trail_of_failsUnder fails
    · rintro ⟨trail, fails, rfl, rfl⟩
      have outermost : ([] : List Frame).length = 0 := rfl
      simpa using failsUnder_of_fails fails outermost
  constructor
  · intro fails
    cases fails with
    | value failed =>
        obtain ⟨trail, fails, told⟩ := outside.mp failed
        exact ⟨trail, .value fails, told⟩
    | condition tested failed =>
        obtain ⟨trail, fails, told⟩ := outside.mp failed
        exact ⟨trail, .condition tested fails, told⟩
    | mismatch tested evaluated => exact ⟨_, .mismatch tested evaluated, rfl, rfl⟩
  · rintro ⟨trail, fails, told⟩
    cases fails with
    | value failed => exact .value (outside.mpr ⟨trail, failed, told⟩)
    | condition tested failed => exact .condition tested (outside.mpr ⟨trail, failed, told⟩)
    | mismatch tested evaluated =>
        obtain ⟨rfl, rfl⟩ := told
        exact .mismatch tested evaluated

theorem failsWhile_iff :
    FailsWhile program limit? cause live ↔
      ∃ trail, FailsAlong program limit? trail ∧ trail.cause = cause ∧ live = trail.frames := by
  simp only [FailsWhile, stmtFailsUnder_iff, FailsAlong]
  constructor
  · rintro ⟨names, stmt, reaches, trail, fails, told⟩
    exact ⟨trail, ⟨names, stmt, reaches, fails⟩, told⟩
  · rintro ⟨trail, ⟨names, stmt, reaches, fails⟩, told⟩
    exact ⟨names, stmt, reaches, trail, fails, told⟩

end Reference

/-- The error of a program that fails has a backtrace if some call is live where it is raised.  It
lists exactly these calls, the latest one first, each with the name of the function and the line of
the call. -/
theorem backtrace_lists_live_calls (program : Program) (limit? : Option Nat) (fuel : Nat)
    (error : RuntimeError) (failed : evaluate fuel limit? program = some (.error error)) :
    (∃ live, FailsWhile program limit? error.cause live) ∧
      ∀ cause live, FailsWhile program limit? cause live →
        cause = error.cause ∧ (error.backtrace? = none ↔ live = []) ∧
          ∀ backtrace, error.backtrace? = some backtrace → backtrace.frames = live := by
  constructor
  · obtain ⟨trail, fails, rfl⟩ := exists_trail_of_evaluate failed
    exact ⟨_, failsWhile_iff.mpr ⟨trail, fails, rfl, rfl⟩⟩
  · intro cause live fails
    obtain ⟨trail, along, rfl, rfl⟩ := failsWhile_iff.mp fails
    obtain rfl := error_eq_of_failsAlong failed along
    refine ⟨rfl, ?_, ?_⟩
    · simp [Trail.error, Trail.backtrace?]
    · intro backtrace listed
      simp only [Trail.error, Trail.backtrace?, List.append_nil] at listed
      split at listed
      · cases listed
      · exact (congrArg Backtrace.frames (Option.some.inj listed)).symm

/-- The tree of the following program.

    program
    func f(a) = a;
    func g(b) =
      f(1 / b)
    begin
      x := g(0)
    end
-/
def strayArgument : Program where
  functions :=
    [⟨⟨2, ⟨8, 21⟩⟩, "f", [⟨"a", ⟨15, 16⟩⟩], .var ⟨2, ⟨20, 21⟩⟩ "a"⟩,
      ⟨⟨3, ⟨23, 45⟩⟩, "g", [⟨"b", ⟨30, 31⟩⟩], .call ⟨4, ⟨37, 45⟩⟩ "f"
        [.arith ⟨4, ⟨39, 44⟩⟩ .div (.literal ⟨4, ⟨39, 40⟩⟩ (.int 1)) (.var ⟨4, ⟨43, 44⟩⟩ "b")]⟩]
  body := .mk ⟨46, 67⟩ [.assign ⟨6, ⟨54, 63⟩⟩ "x"
    (.call ⟨6, ⟨59, 63⟩⟩ "g" [.literal ⟨6, ⟨61, 62⟩⟩ (.int 0)])]

/-- The call of `f` is not live while its argument is evaluated. -/
theorem backtrace_lists_live_calls_of_strayArgument :
    evaluate 9 none strayArgument =
        some (.error ⟨.divisionByZero, some ⟨4, ⟨39, 44⟩⟩, some ⟨[⟨"g", 6⟩]⟩⟩) ∧
      FailsWhile strayArgument none .divisionByZero [⟨"g", 6⟩] := by
  have failed : evaluate 9 none strayArgument =
      some (.error ⟨.divisionByZero, some ⟨4, ⟨39, 44⟩⟩, some ⟨[⟨"g", 6⟩]⟩⟩) := by rfl
  obtain ⟨⟨live, fails⟩, told⟩ := backtrace_lists_live_calls strayArgument none 9 _ failed
  obtain ⟨_, _, listed⟩ := told _ live fails
  obtain rfl : [⟨"g", 6⟩] = live := listed _ rfl
  exact ⟨failed, fails⟩

end Sipl
