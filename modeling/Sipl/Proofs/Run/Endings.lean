import Sipl.Proofs.Run.Agreement
import Sipl.Proofs.Run.Discipline

namespace Sipl

open Reference Machine Outcome

/-! Where the depth of calls is limited, the evaluation of every expression ends, however its
functions call each other.  Calls leave the machine as it was, so a part of an expression is
evaluated under as many calls as the whole, and the body of a function under one more. -/

/-- From some amount of fuel on, a run has one outcome, which is a value or an error. -/
def Finishes {α : Type} (run : Nat → Outcome α) : Prop :=
  ∃ outcome enough, outcome.verdict.isSome = true ∧ ∀ fuel, enough ≤ fuel → run fuel = outcome

namespace Finishes

variable {α β : Type} {run : Nat → Outcome α} {next : Nat → α → Machine → Outcome β}
  {machine : Machine}

theorem of_verdict {outcome : Outcome α} (known : outcome.verdict.isSome = true) :
    Finishes (fun _ => outcome) :=
  ⟨outcome, 0, known, fun _ _ => rfl⟩

theorem verdict (ends : Finishes run) : ∃ fuel result, (run fuel).verdict = some result := by
  obtain ⟨outcome, enough, known, same⟩ := ends
  obtain ⟨result, verdict⟩ := Option.isSome_iff_exists.mp known
  exact ⟨enough, result, by rw [same enough (Nat.le_refl enough), verdict]⟩

/-- One unit of fuel makes no difference. -/
theorem step (ends : Finishes (fun fuel => run (fuel + 1))) : Finishes run := by
  obtain ⟨outcome, enough, known, same⟩ := ends
  refine ⟨outcome, enough + 1, known, fun fuel more => ?_⟩
  obtain ⟨less, rfl⟩ : ∃ less, fuel = less + 1 := ⟨fuel - 1, by omega⟩
  exact same less (by omega)

theorem andThen (first : Finishes run) (kept : ∀ fuel, (run fuel).2 = machine)
    (second : ∀ value, Finishes (fun fuel => next fuel value machine)) :
    Finishes (fun fuel => (run fuel).andThen (next fuel)) := by
  obtain ⟨⟨result, behind⟩, enough, known, same⟩ := first
  have unmoved : behind = machine := by
    rw [← kept enough, same enough (Nat.le_refl enough)]
  subst unmoved
  cases result with
  | ok value =>
      obtain ⟨outcome, sufficient, knownToo, sameToo⟩ := second value
      refine ⟨outcome, max enough sufficient, knownToo, fun fuel more => ?_⟩
      dsimp only
      rw [same fuel (by omega)]
      exact sameToo fuel (by omega)
  | error halt =>
      cases halt with
      | outOfFuel => cases known
      | fault error =>
          refine ⟨(.error (.fault error), behind), enough, rfl, fun fuel more => ?_⟩
          dsimp only
          rw [same fuel more]
          rfl

theorem map (ends : Finishes run) (change : Outcome α → Outcome β)
    (settled : ∀ outcome, outcome.verdict.isSome = true → (change outcome).verdict.isSome = true) :
    Finishes (fun fuel => change (run fuel)) := by
  obtain ⟨outcome, enough, known, same⟩ := ends
  refine ⟨change outcome, enough, settled outcome known, fun fuel more => ?_⟩
  dsimp only
  rw [same fuel more]

theorem place (ends : Finishes run) (site : Site) :
    Finishes (fun fuel => (run fuel).place site) := by
  apply ends.map fun outcome => outcome.place site
  intro outcome known
  simpa using known

theorem condition {run : Nat → Outcome Value} (ends : Finishes run) (context : String)
    (owner : Site) : Finishes (fun fuel => (run fuel).condition context owner) := by
  apply ends.map fun outcome => outcome.condition context owner
  intro outcome known
  simpa using known

theorem leave {run : Nat → Outcome Value} (ends : Finishes run) :
    Finishes (fun fuel => Machine.leave (run fuel)) := by
  apply ends.map Machine.leave
  intro outcome known
  simpa using known

end Finishes

/-- The body of every function that a machine lets in ends. -/
def CallsEnd (table : FunctionTable) (machine : Machine) : Prop :=
  ∀ function values line, machine.refusal? function values = none →
    Finishes (fun fuel => evalExpr table fuel function.body (machine.enter function values line))

section

variable {table : FunctionTable} {machine : Machine}

mutual

/-- The induction is on the expression: none of its parts is larger, and calls end by assumption. -/
theorem CallsEnd.expr (calls : CallsEnd table machine) (expr : Expr) :
    Finishes (fun fuel => evalExpr table fuel expr machine) := by
  apply Finishes.step
  cases expr with
  | literal site value => exact .of_verdict rfl
  | var site name =>
      simp only [evalExpr]
      cases machine.scopes.lookup name with
      | some value => exact .of_verdict rfl
      | none => exact .of_verdict rfl
  | unary site op operand =>
      apply (CallsEnd.expr calls operand).andThen fun fuel => snd_evalExpr ..
      intro value
      apply Finishes.of_verdict
      simp
  | arith site op left right =>
      apply (CallsEnd.expr calls left).andThen fun fuel => snd_evalExpr ..
      intro leftValue
      apply (CallsEnd.expr calls right).andThen fun fuel => snd_evalExpr ..
      intro rightValue
      apply Finishes.of_verdict
      simp
  | logical site op left right =>
      apply ((CallsEnd.expr calls right).condition _ site).andThen fun fuel =>
        (snd_condition ..).trans (snd_evalExpr ..)
      intro decided
      cases op.decides decided with
      | true => exact .of_verdict rfl
      | false =>
          apply (((CallsEnd.expr calls left).condition _ site).place site).andThen fun fuel =>
            (snd_place ..).trans ((snd_condition ..).trans (snd_evalExpr ..))
          intro value
          exact .of_verdict rfl
  | ifThen site cond thenBranch =>
      apply ((CallsEnd.expr calls cond).condition _ site).andThen fun fuel =>
        (snd_condition ..).trans (snd_evalExpr ..)
      intro holds
      cases holds with
      | true => exact (CallsEnd.expr calls thenBranch).place site
      | false => exact .of_verdict rfl
  | ifElse site cond thenBranch elseBranch =>
      apply ((CallsEnd.expr calls cond).condition _ site).andThen fun fuel =>
        (snd_condition ..).trans (snd_evalExpr ..)
      intro holds
      cases holds with
      | true => exact (CallsEnd.expr calls thenBranch).place site
      | false => exact (CallsEnd.expr calls elseBranch).place site
  | call site callee args =>
      simp only [evalExpr]
      cases table.get? callee with
      | none => exact .of_verdict rfl
      | some function =>
          apply (CallsEnd.exprs calls args).andThen fun fuel =>
            snd_evalAll (fun expr => snd_evalExpr ..) args
          intro values
          cases refused : machine.refusal? function values with
          | some cause => exact .of_verdict rfl
          | none => exact (calls function values site.line refused).leave.place site

theorem CallsEnd.exprs (calls : CallsEnd table machine) (exprs : List Expr) :
    Finishes (fun fuel => evalAll (evalExpr table fuel) exprs machine) := by
  cases exprs with
  | nil => exact .of_verdict rfl
  | cons first others =>
      apply (CallsEnd.expr calls first).andThen fun fuel => snd_evalExpr ..
      intro value
      apply (CallsEnd.exprs calls others).andThen fun fuel =>
        snd_evalAll (fun expr => snd_evalExpr ..) others
      intro values
      exact .of_verdict rfl

end

/-- The induction is on how many more calls the limit allows. -/
theorem callsEnd_of_limited {limit : Nat} (limited : machine.calls.limit? = some limit)
    (left : Nat) (room : limit ≤ machine.calls.depth + left) : CallsEnd table machine := by
  induction left generalizing machine with
  | zero =>
      intro function values line allowed
      have free := CallStack.refusal?_eq_none_iff.mp (free_of_refusal? allowed) limit limited
      omega
  | succ left ih =>
      intro function values line allowed
      have deeper : (machine.enter function values line).calls.depth = machine.calls.depth + 1 :=
        CallStack.depth_enter ..
      have inside : CallsEnd table (machine.enter function values line) :=
        ih limited (by omega)
      exact inside.expr function.body

/-- A machine with a limit on calls evaluates every expression to its end. -/
theorem ends_of_limited (table : FunctionTable) {limit : Nat}
    (limited : machine.calls.limit? = some limit) (expr : Expr) :
    Finishes (fun fuel => evalExpr table fuel expr machine) :=
  (callsEnd_of_limited limited limit (Nat.le_add_left ..)).expr expr

end

section

variable {limit active : Nat} {names : Names} {machine : Machine}

theorem exists_evaluates (program : Program) (sees : machine.Sees (some limit) active names)
    (expr : Expr) :
    ∃ result, Evaluates program (some limit) active names (.value expr result) := by
  obtain ⟨fuel, result, verdict⟩ :=
    (ends_of_limited (.ofProgram program) sees.limit expr).verdict
  exact ⟨result, evaluates_of_verdict sees expr result verdict⟩

theorem exists_truth (program : Program) (sees : machine.Sees (some limit) active names)
    (context : String) (expr : Expr) :
    ∃ result, Evaluates program (some limit) active names (.truth context expr result) := by
  obtain ⟨result, evaluates⟩ := exists_evaluates program sees expr
  cases result with
  | error cause => exact ⟨_, .truthFails evaluates⟩
  | ok value =>
      cases value with
      | bool holds => exact ⟨_, .truth evaluates⟩
      | int value => exact ⟨_, .truthMismatch evaluates⟩

end

end Sipl
