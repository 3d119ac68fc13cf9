import Sipl.Proofs.Run.Scopes
import Sipl.Run.Machine

namespace Sipl

open Reference

theorem CallStack.cause_attach (calls : CallStack) (error : RuntimeError) :
    (calls.attach error).cause = error.cause := by
  rw [attach]
  split <;> rfl

namespace Outcome

variable {α β : Type}

/-- The value or the cause of the error; nothing without fuel. -/
def verdict (outcome : Outcome α) : Option (Except Cause α) :=
  match outcome.1 with
  | .ok value => some (.ok value)
  | .error (.fault error) => some (.error error.cause)
  | .error .outOfFuel => none

variable {outcome : Outcome α} {machine : Machine}

theorem eq_of_verdict_ok {value : α} (known : outcome.verdict = some (.ok value))
    (behind : outcome.2 = machine) : outcome = (.ok value, machine) := by
  obtain ⟨result, other⟩ := outcome
  cases result with
  | ok found => simp_all [verdict]
  | error halt => cases halt <;> simp_all [verdict]

theorem eq_of_verdict_error {cause : Cause} (known : outcome.verdict = some (.error cause))
    (behind : outcome.2 = machine) :
    ∃ error, outcome = (.error (.fault error), machine) ∧ error.cause = cause := by
  obtain ⟨result, other⟩ := outcome
  cases result with
  | ok found => simp_all [verdict]
  | error halt => cases halt <;> simp_all [verdict]

@[simp] theorem verdict_ofOperation (result : Except Cause α) (site : Site) (machine : Machine) :
    (ofOperation result site machine).verdict = some result := by
  cases result <;> rfl

@[simp] theorem verdict_place (outcome : Outcome α) (site : Site) :
    (outcome.place site).verdict = outcome.verdict := by
  obtain ⟨result, machine⟩ := outcome
  cases result with
  | ok value => rfl
  | error halt => cases halt <;> rfl

@[simp] theorem verdict_leave (outcome : Outcome Value) :
    (Machine.leave outcome).verdict = outcome.verdict := by
  obtain ⟨result, machine⟩ := outcome
  cases result with
  | ok value => rfl
  | error halt =>
      cases halt with
      | outOfFuel => rfl
      | fault error =>
          simp only [Machine.leave, CallStack.attach]
          split <;> rfl

/-- What a condition is taken for. -/
def truthOf (context : String) : Except Cause Value → Except Cause Bool
  | .ok (.bool holds) => .ok holds
  | .ok (.int _) => .error (.typeMismatch context .boolean .integer)
  | .error cause => .error cause

@[simp] theorem verdict_condition (outcome : Outcome Value) (context : String) (owner : Site) :
    (outcome.condition context owner).verdict = outcome.verdict.map (truthOf context) := by
  obtain ⟨result, machine⟩ := outcome
  cases result with
  | ok value => cases value <;> rfl
  | error halt => cases halt <;> rfl

/-- A sequence fails with its first part, or goes on from where that part ended. -/
theorem verdict_andThen {next : α → Machine → Outcome β} {result : Except Cause β}
    (known : (outcome.andThen next).verdict = some result) (behind : outcome.2 = machine) :
    (∃ value, outcome.verdict = some (.ok value) ∧ (next value machine).verdict = some result) ∨
      ∃ cause, outcome.verdict = some (.error cause) ∧ result = .error cause := by
  subst behind
  obtain ⟨found, machine⟩ := outcome
  cases found with
  | ok value => exact .inl ⟨value, rfl, known⟩
  | error halt =>
      cases halt with
      | outOfFuel => cases known
      | fault error => exact .inr ⟨error.cause, rfl, (Option.some.inj known).symm⟩

theorem snd_andThen {next : α → Machine → Outcome β} (first : outcome.2 = machine)
    (second : ∀ value, (next value machine).2 = machine) : (outcome.andThen next).2 = machine := by
  obtain ⟨result, behind⟩ := outcome
  obtain rfl : behind = machine := first
  cases result with
  | ok value => exact second value
  | error halt => rfl

@[simp] theorem snd_place (outcome : Outcome α) (site : Site) :
    (outcome.place site).2 = outcome.2 := by
  obtain ⟨result, machine⟩ := outcome
  cases result with
  | ok value => rfl
  | error halt => cases halt <;> rfl

@[simp] theorem snd_ofOperation (result : Except Cause α) (site : Site) (machine : Machine) :
    (ofOperation result site machine).2 = machine := by
  cases result <;> rfl

@[simp] theorem snd_condition (outcome : Outcome Value) (context : String) (owner : Site) :
    (outcome.condition context owner).2 = outcome.2 := by
  obtain ⟨result, machine⟩ := outcome
  cases result with
  | ok value => cases value <;> rfl
  | error halt => rfl

@[simp] theorem snd_leave (outcome : Outcome Value) :
    (Machine.leave outcome).2 = ⟨outcome.2.scopes.pop, outcome.2.calls.pop⟩ := by
  obtain ⟨result, machine⟩ := outcome
  cases result with
  | ok value => rfl
  | error halt => cases halt <;> rfl

end Outcome

namespace Machine

/-- The scope of a call: the parameters, of two of one name the later one. -/
def paramStore (params : List Param) (values : List Value) : Store :=
  ((params.map Param.name).zip values).foldl
    (fun (store : Store) entry => store.set entry.1 entry.2) []

theorem enter_eq (machine : Machine) (function : Function) (values : List Value) (line : Nat) :
    machine.enter function values line =
      ⟨⟨⟨true, paramStore function.params values⟩ :: machine.scopes.inner, machine.scopes.globals⟩,
        machine.calls.enter ⟨function.name, line⟩⟩ := by
  have renamed : (function.params.zip values).foldl
        (fun (env : Environment) entry => env.assign entry.1.name entry.2)
        machine.scopes.pushDetached =
      ((function.params.map Param.name).zip values).foldl
        (fun (env : Environment) entry => env.assign entry.1 entry.2)
        ⟨⟨true, []⟩ :: machine.scopes.inner, machine.scopes.globals⟩ := by
    rw [List.zip_map_left, List.foldl_map]
    rfl
  rw [paramStore, ← Environment.foldl_assign_detached, ← renamed]
  rfl

theorem lookup_enter (machine : Machine) (function : Function) (values : List Value) (line : Nat)
    (name : String) :
    (machine.enter function values line).scopes.lookup name =
      Names.ofParams function.params values name := by
  rw [enter_eq, Environment.lookup_detached, paramStore, Store.get?_foldl_set]
  exact Option.or_none

/-- Leaving a call that was just entered changes nothing. -/
theorem pop_enter (machine : Machine) (function : Function) (values : List Value) (line : Nat) :
    (⟨(machine.enter function values line).scopes.pop,
      (machine.enter function values line).calls.pop⟩ : Machine) = machine := by
  simp [enter_eq, Environment.pop, CallStack.enter, CallStack.pop]

open Outcome in
theorem snd_evalAll {eval : Expr → Machine → Outcome Value} {machine : Machine}
    (kept : ∀ expr, (eval expr machine).2 = machine) (exprs : List Expr) :
    (evalAll eval exprs machine).2 = machine := by
  induction exprs with
  | nil => rfl
  | cons expr rest ih =>
      apply snd_andThen (kept expr)
      intro value
      exact snd_andThen ih fun values => rfl

open Outcome in
/-- Whatever comes of an expression, the machine is left as it was. -/
theorem snd_evalExpr (table : FunctionTable) (fuel : Nat) (expr : Expr) (machine : Machine) :
    (evalExpr table fuel expr machine).2 = machine := by
  -- Only a call touches the machine, and what it enters it leaves again behind the body.
  induction fuel generalizing expr machine with
  | zero => rfl
  | succ fuel ih =>
      cases expr with
      | literal site value => rfl
      | var site name =>
          simp only [evalExpr]
          cases machine.scopes.lookup name <;> rfl
      | unary site op operand =>
          exact snd_andThen (ih operand machine) fun value => snd_ofOperation ..
      | arith site op left right =>
          apply snd_andThen (ih left machine)
          intro leftValue
          exact snd_andThen (ih right machine) fun rightValue => snd_ofOperation ..
      | logical site op left right =>
          apply snd_andThen (by rw [snd_condition, ih right machine])
          intro decided
          split
          · rfl
          · refine snd_andThen ?_ fun value => rfl
            rw [snd_place, snd_condition, ih left machine]
      | ifThen site cond thenBranch =>
          apply snd_andThen (by rw [snd_condition, ih cond machine])
          intro holds
          split
          · rw [snd_place, ih thenBranch machine]
          · rfl
      | ifElse site cond thenBranch elseBranch =>
          apply snd_andThen (by rw [snd_condition, ih cond machine])
          intro holds
          rw [snd_place, ih _ machine]
      | call site callee args =>
          simp only [evalExpr]
          cases table.get? callee with
          | none => rfl
          | some function =>
              apply snd_andThen (snd_evalAll (fun expr => ih expr machine) args)
              intro values
              cases machine.refusal? function values with
              | some cause => rfl
              | none =>
                  simp only [snd_place, snd_leave, ih]
                  exact pop_enter ..

end Machine

/-- From some amount of fuel on, a run has one verdict and leaves one machine behind. -/
def Settles {α : Type} (run : Nat → Outcome α) (result : Except Cause α) (machine : Machine) :
    Prop :=
  ∃ enough, ∀ fuel, enough ≤ fuel → (run fuel).verdict = some result ∧ (run fuel).2 = machine

namespace Settles

variable {α β : Type} {run : Nat → Outcome α} {next : Nat → α → Machine → Outcome β}
  {machine final : Machine}

theorem of_verdict {outcome : Outcome α} {result : Except Cause α}
    (known : outcome.verdict = some result) (behind : outcome.2 = machine) :
    Settles (fun _ => outcome) result machine :=
  ⟨0, fun _ _ => ⟨known, behind⟩⟩

/-- One unit of fuel makes no difference. -/
theorem step {result : Except Cause α}
    (settles : Settles (fun fuel => run (fuel + 1)) result machine) :
    Settles run result machine := by
  obtain ⟨enough, settled⟩ := settles
  refine ⟨enough + 1, fun fuel more => ?_⟩
  obtain ⟨less, rfl⟩ : ∃ less, fuel = less + 1 := ⟨fuel - 1, by omega⟩
  exact settled less (by omega)

theorem andThen {value : α} {result : Except Cause β} (first : Settles run (.ok value) machine)
    (second : Settles (fun fuel => next fuel value machine) result final) :
    Settles (fun fuel => (run fuel).andThen (next fuel)) result final := by
  obtain ⟨enough, settledFirst⟩ := first
  obtain ⟨sufficient, settledSecond⟩ := second
  refine ⟨max enough sufficient, fun fuel more => ?_⟩
  obtain ⟨known, behind⟩ := settledFirst fuel (by omega)
  dsimp only
  rw [Outcome.eq_of_verdict_ok known behind]
  exact settledSecond fuel (by omega)

theorem andThen_error {cause : Cause} (first : Settles run (.error cause) machine) :
    Settles (fun fuel => (run fuel).andThen (next fuel)) (.error cause) machine := by
  obtain ⟨enough, settled⟩ := first
  refine ⟨enough, fun fuel more => ?_⟩
  obtain ⟨known, behind⟩ := settled fuel more
  obtain ⟨error, same, rfl⟩ := Outcome.eq_of_verdict_error known behind
  dsimp only
  rw [same]
  exact ⟨rfl, rfl⟩

/-- What is made of the value of a run, the machine left as it is. -/
theorem map {result : Except Cause α} (settles : Settles run result machine) (wrap : α → β) :
    Settles (fun fuel => (run fuel).andThen fun value machine => (.ok (wrap value), machine))
      (result.map wrap) machine := by
  cases result with
  | ok value => exact settles.andThen (.of_verdict rfl rfl)
  | error cause => exact settles.andThen_error

theorem place {result : Except Cause α} (settles : Settles run result machine) (site : Site) :
    Settles (fun fuel => (run fuel).place site) result machine := by
  obtain ⟨enough, settled⟩ := settles
  refine ⟨enough, fun fuel more => ?_⟩
  rw [Outcome.verdict_place, Outcome.snd_place]
  exact settled fuel more

theorem condition {run : Nat → Outcome Value} {result : Except Cause Value}
    (settles : Settles run result machine) (context : String) (owner : Site) :
    Settles (fun fuel => (run fuel).condition context owner) (Outcome.truthOf context result)
      machine := by
  obtain ⟨enough, settled⟩ := settles
  refine ⟨enough, fun fuel more => ?_⟩
  rw [Outcome.verdict_condition, Outcome.snd_condition, (settled fuel more).1]
  exact ⟨rfl, (settled fuel more).2⟩

theorem leave {run : Nat → Outcome Value} {result : Except Cause Value}
    (settles : Settles run result machine) :
    Settles (fun fuel => Machine.leave (run fuel)) result
      ⟨machine.scopes.pop, machine.calls.pop⟩ := by
  obtain ⟨enough, settled⟩ := settles
  refine ⟨enough, fun fuel more => ?_⟩
  rw [Outcome.verdict_leave, Outcome.snd_leave, (settled fuel more).2]
  exact ⟨(settled fuel more).1, rfl⟩

end Settles

end Sipl
