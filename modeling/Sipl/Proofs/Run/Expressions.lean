import Sipl.Proofs.Run.Declarations
import Sipl.Proofs.Run.Operators
import Sipl.Proofs.Run.Outcomes

namespace Sipl

open Reference Machine Outcome

/-- What the evaluation of expressions depends on. -/
structure Machine.Sees (machine : Machine) (limit? : Option Nat) (active : Nat) (names : Names) :
    Prop where
  looks : ∀ name, machine.scopes.lookup name = names name
  limit : machine.calls.limit? = limit?
  depth : machine.calls.depth = active

namespace Machine.Sees

variable {machine : Machine} {limit? : Option Nat} {active : Nat} {names : Names}
  {function : Function} {values : List Value}

theorem enter (sees : machine.Sees limit? active names) (line : Nat) :
    (machine.enter function values line).Sees limit? (active + 1)
      (.ofParams function.params values) := by
  refine ⟨lookup_enter machine function values line, ?_, ?_⟩
  · rw [enter_eq]
    exact sees.limit
  · rw [enter_eq, ← sees.depth]
    exact Array.size_push ..

theorem refusal?_eq (sees : machine.Sees limit? active names) :
    machine.refusal? function values =
      if values.length ≠ function.params.length then
        some (.arityMismatch function.name function.params.length values.length)
      else
        (limit?.filter fun limit => limit ≤ active).map .callDepthExceeded := by
  rw [refusal?, CallStack.refusal?, sees.limit, sees.depth]

/-- A call is let in if the number of values fits and the limit is not reached. -/
theorem refusal?_eq_none_iff (sees : machine.Sees limit? active names) :
    machine.refusal? function values = none ↔
      values.length = function.params.length ∧ ∀ limit, limit? = some limit → active < limit := by
  rw [sees.refusal?_eq]
  by_cases fit : values.length = function.params.length
  · simp [fit, Option.filter_eq_none_iff]
  · simp [fit]

theorem refusal?_eq_some_iff (sees : machine.Sees limit? active names) {cause : Cause} :
    machine.refusal? function values = some cause ↔
      (values.length ≠ function.params.length ∧
        cause = .arityMismatch function.name function.params.length values.length) ∨
      (values.length = function.params.length ∧
        ∃ limit, limit? = some limit ∧ limit ≤ active ∧ cause = .callDepthExceeded limit) := by
  rw [sees.refusal?_eq]
  by_cases fit : values.length = function.params.length
  · cases limit? with
    | none => simp [fit]
    | some limit => by_cases full : limit ≤ active <;> simp [fit, full, Option.filter, eq_comm]
  · simp [fit, eq_comm]

end Machine.Sees

section Soundness

variable {program : Program} {limit? : Option Nat} {active fuel : Nat} {names : Names}
  {machine : Machine}

/-- Whatever verdict there is with this fuel, the reference semantics tells it too. -/
def Told (program : Program) (limit? : Option Nat) (active : Nat) (names : Names) (fuel : Nat)
    (machine : Machine) : Prop :=
  ∀ expr result, (evalExpr (.ofProgram program) fuel expr machine).verdict = some result →
    Evaluates program limit? active names (.value expr result)

namespace Told

variable {site : Site} {result : Except Cause Value}

theorem truth (told : Told program limit? active names fuel machine) {expr : Expr}
    {context : String} {owner : Site} {result : Except Cause Bool}
    (known : ((evalExpr (.ofProgram program) fuel expr machine).condition context owner).verdict =
      some result) :
    Evaluates program limit? active names (.truth context expr result) := by
  rw [verdict_condition] at known
  obtain ⟨found, verdict, rfl⟩ := Option.map_eq_some_iff.mp known
  have evaluated := told expr found verdict
  cases found with
  | error cause => exact .truthFails evaluated
  | ok value =>
      cases value with
      | bool holds => exact .truth evaluated
      | int value => exact .truthMismatch evaluated

theorem values (told : Told program limit? active names fuel machine) {exprs : List Expr}
    {result : Except Cause (List Value)}
    (known : (evalAll (evalExpr (.ofProgram program) fuel) exprs machine).verdict = some result) :
    Evaluates program limit? active names (.values exprs result) := by
  have kept : ∀ expr, (evalExpr (.ofProgram program) fuel expr machine).2 = machine :=
    fun expr => snd_evalExpr ..
  induction exprs generalizing result with
  | nil =>
      obtain rfl := Option.some.inj known
      exact .noValues
  | cons first others ih =>
      rcases verdict_andThen known (kept first) with ⟨value, one, rest⟩ | ⟨cause, failed, rfl⟩
      · have one := told first _ one
        rcases verdict_andThen rest (snd_evalAll kept others) with
          ⟨values, more, known⟩ | ⟨cause, failed, rfl⟩
        · obtain rfl := Option.some.inj known
          exact .moreValues one (ih more)
        · exact .moreValues one (ih failed)
      · exact .valuesFail (told first _ failed)

theorem var (sees : machine.Sees limit? active names) {name : String}
    (known : (evalExpr (.ofProgram program) (fuel + 1) (.var site name) machine).verdict =
      some result) :
    Evaluates program limit? active names (.value (.var site name) result) := by
  rw [evalExpr, sees.looks] at known
  cases found : names name with
  | some value =>
      rw [found] at known
      obtain rfl := Option.some.inj known
      exact .var found
  | none =>
      rw [found] at known
      obtain rfl := Option.some.inj known
      exact .undefinedVariable found

theorem unary (told : Told program limit? active names fuel machine) {op : UnaryOp}
    {operand : Expr}
    (known : (evalExpr (.ofProgram program) (fuel + 1) (.unary site op operand) machine).verdict =
      some result) :
    Evaluates program limit? active names (.value (.unary site op operand) result) := by
  rcases verdict_andThen known (snd_evalExpr ..) with
    ⟨value, evaluated, known⟩ | ⟨cause, failed, rfl⟩
  · rw [verdict_ofOperation] at known
    exact .unary (told _ _ evaluated) (UnaryOp.apply_eq_iff.mp (Option.some.inj known))
  · exact .unaryFails (told _ _ failed)

theorem arith (told : Told program limit? active names fuel machine) {op : ArithOp}
    {left right : Expr}
    (known :
      (evalExpr (.ofProgram program) (fuel + 1) (.arith site op left right) machine).verdict =
        some result) :
    Evaluates program limit? active names (.value (.arith site op left right) result) := by
  rcases verdict_andThen known (snd_evalExpr ..) with
    ⟨leftValue, first, known⟩ | ⟨cause, failed, rfl⟩
  · rcases verdict_andThen known (snd_evalExpr ..) with
      ⟨rightValue, second, known⟩ | ⟨cause, failed, rfl⟩
    · rw [verdict_ofOperation] at known
      exact .arith (told _ _ first) (told _ _ second)
        (ArithOp.apply_eq_iff.mp (Option.some.inj known))
    · exact .arithRightFails (told _ _ first) (told _ _ failed)
  · exact .arithLeftFails (told _ _ failed)

theorem logical (told : Told program limit? active names fuel machine) {op : LogicalOp}
    {left right : Expr}
    (known :
      (evalExpr (.ofProgram program) (fuel + 1) (.logical site op left right) machine).verdict =
        some result) :
    Evaluates program limit? active names (.value (.logical site op left right) result) := by
  have kept : ∀ expr context owner,
      ((evalExpr (.ofProgram program) fuel expr machine).condition context owner).2 = machine :=
    fun expr context owner => (snd_condition ..).trans (snd_evalExpr ..)
  rcases verdict_andThen known (kept right _ _) with
    ⟨decided, first, known⟩ | ⟨cause, failed, rfl⟩
  · have first := told.truth first
    have undecided : op.decides decided = false → ∃ found,
        Evaluates program limit? active names (.truth (quoted op.symbol) left found) ∧
          result = found.map .bool := by
      intro undecided
      rw [undecided] at known
      rcases verdict_andThen known ((snd_place ..).trans (kept left _ _)) with
        ⟨holds, second, known⟩ | ⟨cause, failed, rfl⟩
      · rw [verdict_place] at second
        exact ⟨_, told.truth second, (Option.some.inj known).symm⟩
      · rw [verdict_place] at failed
        exact ⟨_, told.truth failed, rfl⟩
    cases op <;> cases decided
    case and.false =>
      obtain rfl := Option.some.inj known
      exact .andFails first
    case and.true =>
      obtain ⟨found, second, rfl⟩ := undecided rfl
      exact .andLeft first second
    case or.false =>
      obtain ⟨found, second, rfl⟩ := undecided rfl
      exact .orLeft first second
    case or.true =>
      obtain rfl := Option.some.inj known
      exact .orHolds first
  · exact .logicalRightFails (told.truth failed)

theorem ifThen (told : Told program limit? active names fuel machine) {cond thenBranch : Expr}
    (known : (evalExpr (.ofProgram program) (fuel + 1) (.ifThen site cond thenBranch)
      machine).verdict = some result) :
    Evaluates program limit? active names (.value (.ifThen site cond thenBranch) result) := by
  rcases verdict_andThen known ((snd_condition ..).trans (snd_evalExpr ..)) with
    ⟨holds, condition, known⟩ | ⟨cause, failed, rfl⟩
  · cases holds with
    | true =>
        rw [if_pos rfl, verdict_place] at known
        exact .ifThen (told.truth condition) (told _ _ known)
    | false =>
        obtain rfl := Option.some.inj known
        exact .missingElse (told.truth condition)
  · exact .ifThenFails (told.truth failed)

theorem ifElse (told : Told program limit? active names fuel machine)
    {cond thenBranch elseBranch : Expr}
    (known : (evalExpr (.ofProgram program) (fuel + 1) (.ifElse site cond thenBranch elseBranch)
      machine).verdict = some result) :
    Evaluates program limit? active names
      (.value (.ifElse site cond thenBranch elseBranch) result) := by
  rcases verdict_andThen known ((snd_condition ..).trans (snd_evalExpr ..)) with
    ⟨holds, condition, known⟩ | ⟨cause, failed, rfl⟩
  · rw [verdict_place] at known
    exact .ifElse (told.truth condition) (told _ _ known)
  · exact .ifElseFails (told.truth failed)

theorem call (told : ∀ {active names machine}, machine.Sees limit? active names →
      Told program limit? active names fuel machine)
    (sees : machine.Sees limit? active names) {callee : String} {args : List Expr}
    (known : (evalExpr (.ofProgram program) (fuel + 1) (.call site callee args) machine).verdict =
      some result) :
    Evaluates program limit? active names (.value (.call site callee args) result) := by
  rw [evalExpr] at known
  cases found : (FunctionTable.ofProgram program).get? callee with
  | none =>
      rw [found] at known
      obtain rfl := Option.some.inj known
      exact .undefinedFunction (FunctionTable.get?_eq_none_iff.mp found)
  | some function =>
      have declared := FunctionTable.get?_eq_some_iff.mp found
      rw [found] at known
      rcases verdict_andThen known (snd_evalAll (fun expr => snd_evalExpr ..) args) with
        ⟨values, evaluated, known⟩ | ⟨cause, failed, rfl⟩
      · have arguments := (told sees).values evaluated
        cases refused : machine.refusal? function values with
        | some cause =>
            rw [refused] at known
            obtain rfl := Option.some.inj known
            rcases sees.refusal?_eq_some_iff.mp refused with
              ⟨unfit, rfl⟩ | ⟨fit, limit, limited, full, rfl⟩
            · rw [declared.name_eq]
              exact .arityMismatch declared arguments unfit
            · exact .callDepthExceeded declared arguments fit limited full
        | none =>
            obtain ⟨fit, free⟩ := sees.refusal?_eq_none_iff.mp refused
            rw [refused] at known
            dsimp only at known
            rw [verdict_place, verdict_leave] at known
            exact .call declared arguments fit free (told (sees.enter site.line) _ _ known)
      · exact .argumentFails declared ((told sees).values failed)

end Told

theorem evaluates_of_verdict (sees : machine.Sees limit? active names) :
    Told program limit? active names fuel machine := by
  induction fuel generalizing machine active names with
  | zero =>
      intro expr result known
      cases known
  | succ fuel ih =>
      intro expr result known
      cases expr with
      | literal site value =>
          obtain rfl := Option.some.inj known
          exact .literal
      | var => exact Told.var sees known
      | unary => exact (ih sees).unary known
      | arith => exact (ih sees).arith known
      | logical => exact (ih sees).logical known
      | ifThen => exact (ih sees).ifThen known
      | ifElse => exact (ih sees).ifElse known
      | call => exact Told.call ih sees known

end Soundness

/-- With enough fuel the evaluation has the verdict of the judgement. -/
def Reference.Judgement.Settled (table : FunctionTable) (machine : Machine) : Judgement → Prop
  | .value expr result => Settles (fun fuel => evalExpr table fuel expr machine) result machine
  | .truth context expr result => ∀ owner,
      Settles (fun fuel => (evalExpr table fuel expr machine).condition context owner) result
        machine
  | .values exprs result =>
      Settles (fun fuel => evalAll (evalExpr table fuel) exprs machine) result machine

section Completeness

variable {program : Program} {limit? : Option Nat} {active : Nat} {names : Names}
  {judgement : Judgement}

theorem settled_of_evaluates (evaluates : Evaluates program limit? active names judgement)
    {machine : Machine} (sees : machine.Sees limit? active names) :
    judgement.Settled (.ofProgram program) machine := by
  -- On the rules of the judgement.  Parts meet the machine that the whole was started on, since
  -- expressions leave it as it was; only a call enters another one.
  induction evaluates generalizing machine with
  | literal => exact .step (.of_verdict rfl rfl)
  | var bound =>
      apply Settles.step
      simp only [evalExpr, sees.looks, bound]
      exact .of_verdict rfl rfl
  | undefinedVariable free =>
      apply Settles.step
      simp only [evalExpr, sees.looks, free]
      exact .of_verdict rfl rfl
  | unary evaluated applied ih =>
      apply Settles.step
      simp only [evalExpr]
      apply Settles.andThen (ih sees)
      rw [UnaryOp.apply_eq_iff.mpr applied]
      exact .of_verdict (verdict_ofOperation ..) (snd_ofOperation ..)
  | unaryFails failed ih => exact .step (.andThen_error (ih sees))
  | arith first second applied ihFirst ihSecond =>
      apply Settles.step
      simp only [evalExpr]
      apply Settles.andThen (ihFirst sees)
      apply Settles.andThen (ihSecond sees)
      rw [ArithOp.apply_eq_iff.mpr applied]
      exact .of_verdict (verdict_ofOperation ..) (snd_ofOperation ..)
  | arithLeftFails failed ih => exact .step (.andThen_error (ih sees))
  | arithRightFails first failed ihFirst ihFailed =>
      exact .step (.andThen (ihFirst sees) (.andThen_error (ihFailed sees)))
  | orHolds first ih => exact .step (.andThen (ih sees _) (.of_verdict rfl rfl))
  | @orLeft active names site left right result first second ihFirst ihSecond =>
      have left := ((ihSecond sees site).place site).map Value.bool
      exact .step (.andThen (ihFirst sees site) left)
  | andFails first ih => exact .step (.andThen (ih sees _) (.of_verdict rfl rfl))
  | @andLeft active names site left right result first second ihFirst ihSecond =>
      have left := ((ihSecond sees site).place site).map Value.bool
      exact .step (.andThen (ihFirst sees site) left)
  | logicalRightFails failed ih => exact .step (.andThen_error (ih sees _))
  | ifThen condition branch ihCondition ihBranch =>
      exact .step (.andThen (ihCondition sees _) ((ihBranch sees).place _))
  | missingElse condition ih => exact .step (.andThen (ih sees _) (.of_verdict rfl rfl))
  | ifThenFails failed ih => exact .step (.andThen_error (ih sees _))
  | ifElse condition branch ihCondition ihBranch =>
      exact .step (.andThen (ihCondition sees _) ((ihBranch sees).place _))
  | ifElseFails failed ih => exact .step (.andThen_error (ih sees _))
  | undefinedFunction undeclared =>
      apply Settles.step
      simp only [evalExpr, FunctionTable.get?_eq_none_iff.mpr undeclared]
      exact .of_verdict rfl rfl
  | argumentFails declared failed ih =>
      apply Settles.step
      simp only [evalExpr, FunctionTable.get?_eq_some_iff.mpr declared]
      exact .andThen_error (ih sees)
  | arityMismatch declared arguments unfit ih =>
      apply Settles.step
      simp only [evalExpr, FunctionTable.get?_eq_some_iff.mpr declared]
      apply Settles.andThen (ih sees)
      rw [sees.refusal?_eq_some_iff.mpr (.inl ⟨unfit, rfl⟩), declared.name_eq]
      exact .of_verdict rfl rfl
  | callDepthExceeded declared arguments fit limited full ih =>
      apply Settles.step
      simp only [evalExpr, FunctionTable.get?_eq_some_iff.mpr declared]
      apply Settles.andThen (ih sees)
      rw [sees.refusal?_eq_some_iff.mpr (.inr ⟨fit, _, limited, full, rfl⟩)]
      exact .of_verdict rfl rfl
  | @call active names site callee args function values result declared arguments fit free body
      ihArguments ihBody =>
      apply Settles.step
      simp only [evalExpr, FunctionTable.get?_eq_some_iff.mpr declared]
      apply Settles.andThen (ihArguments sees)
      rw [sees.refusal?_eq_none_iff.mpr ⟨fit, free⟩]
      have left := (ihBody (sees.enter site.line)).leave
      rw [pop_enter] at left
      exact left.place site
  | truth evaluated ih => exact fun owner => (ih sees).condition _ owner
  | truthMismatch evaluated ih => exact fun owner => (ih sees).condition _ owner
  | truthFails failed ih => exact fun owner => (ih sees).condition _ owner
  | noValues => exact .of_verdict rfl rfl
  | moreValues one rest ihOne ihRest => exact .andThen (ihOne sees) ((ihRest sees).map _)
  | valuesFail failed ih => exact .andThen_error (ih sees)

end Completeness

end Sipl
