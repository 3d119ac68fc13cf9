import Sipl.Run.Bindings
import Sipl.Run.CallStack
import Sipl.Run.Environment
import Sipl.Run.FunctionTable
import Sipl.Run.Operation

namespace Sipl

/-! A machine holds the scopes and the calls of a run.  Evaluation is bounded by fuel: every nested
evaluation and every turn of a loop uses one unit, and a run that has used up its fuel stops without
an answer.  An answer that was reached does not depend on the fuel left over.

An error is placed at the first node on its way out that passes on its own result: an operator, a
variable or a call that raised it, a branch, the left operand of a logical operator, the body of a
call.  Errors in operands, conditions, arguments and right operands of logical operators pass
unchanged, and so does the call of an unknown function. -/

structure Machine where
  scopes : Environment := {}
  calls : CallStack
  deriving DecidableEq, Inhabited

/-- Why an evaluation has no value. -/
inductive Halt where
  | fault (error : RuntimeError)
  | outOfFuel
  deriving DecidableEq, Inhabited

/-- A value or the reason why there is none, and the machine as it was left. -/
abbrev Outcome (α : Type) := Except Halt α × Machine

namespace Outcome

variable {α β : Type}

@[inline] def andThen (outcome : Outcome α) (next : α → Machine → Outcome β) : Outcome β :=
  match outcome with
  | (.ok value, machine) => next value machine
  | (.error halt, machine) => (.error halt, machine)

def fault (error : RuntimeError) (machine : Machine) : Outcome α := (.error (.fault error), machine)

/-- Place an error that has no site yet. -/
def place (outcome : Outcome α) (site : Site) : Outcome α :=
  match outcome with
  | (.error (.fault error), machine) => fault (error.orAt site) machine
  | settled => settled

/-- The result of an operation at a site. -/
def ofOperation (result : Except Cause α) (site : Site) (machine : Machine) : Outcome α :=
  match result with
  | .ok value => (.ok value, machine)
  | .error cause => fault { cause, site? := some site } machine

/-- The truth value of a condition; another value is an error of the node that owns it. -/
def condition (outcome : Outcome Value) (context : String) (owner : Site) : Outcome Bool :=
  match outcome with
  | (.ok (.bool value), machine) => (.ok value, machine)
  | (.ok (.int value), machine) =>
    fault { cause := .typeMismatch context .boolean (Value.int value).type, site? := some owner }
      machine
  | (.error halt, machine) => (.error halt, machine)

end Outcome

namespace Machine

open Outcome

/-- Why a call with these values is refused.  Their number is looked at before the depth. -/
def refusal? (machine : Machine) (function : Function) (values : List Value) : Option Cause :=
  if values.length ≠ function.params.length then
    some (.arityMismatch function.name function.params.length values.length)
  else
    machine.calls.refusal?

/-- Enter a call: one more frame, and a detached scope that holds the parameters. -/
def enter (machine : Machine) (function : Function) (values : List Value) (line : Nat) : Machine :=
  match machine with
  | ⟨scopes, calls⟩ =>
    ⟨(function.params.zip values).foldl (fun env (param, value) => env.assign param.name value)
      scopes.pushDetached, calls.enter ⟨function.name, line⟩⟩

/-- Leave a call, whether or not its body has a value.  An error learns the calls it was raised
under. -/
def leave (outcome : Outcome Value) : Outcome Value :=
  match outcome with
  | (.error (.fault error), machine) =>
    fault (machine.calls.attach error) ⟨machine.scopes.pop, machine.calls.pop⟩
  | (result, machine) => (result, ⟨machine.scopes.pop, machine.calls.pop⟩)

/-- Evaluate from left to right. -/
def evalAll (eval : Expr → Machine → Outcome Value) :
    List Expr → Machine → Outcome (List Value)
  | [], machine => (.ok [], machine)
  | expr :: rest, machine =>
    (eval expr machine).andThen fun value machine =>
      (evalAll eval rest machine).andThen fun values machine => (.ok (value :: values), machine)

def evalExpr (table : FunctionTable) : Nat → Expr → Machine → Outcome Value
  | 0, _, machine => (.error .outOfFuel, machine)
  | fuel + 1, expr, machine =>
    match expr with
    | .literal _ value => (.ok (.ofLiteral value), machine)
    | .var site name =>
      match machine.scopes.lookup name with
      | some value => (.ok value, machine)
      | none => fault { cause := .undefinedVariable name, site? := some site } machine
    | .unary site op operand =>
      (evalExpr table fuel operand machine).andThen fun value machine =>
        ofOperation (op.apply value) site machine
    | .arith site op left right =>
      (evalExpr table fuel left machine).andThen fun leftValue machine =>
        (evalExpr table fuel right machine).andThen fun rightValue machine =>
          ofOperation (op.apply leftValue rightValue) site machine
    | .logical site op left right =>
      ((evalExpr table fuel right machine).condition (quoted op.symbol) site).andThen
        fun decided machine =>
          if op.decides decided then
            (.ok (.bool decided), machine)
          else
            (((evalExpr table fuel left machine).condition (quoted op.symbol) site).place
              site).andThen fun value machine => (.ok (.bool value), machine)
    | .ifThen site cond thenBranch =>
      ((evalExpr table fuel cond machine).condition "condition of 'if'" site).andThen
        fun holds machine =>
          if holds then
            (evalExpr table fuel thenBranch machine).place site
          else
            fault { cause := .missingElse, site? := some site } machine
    | .ifElse site cond thenBranch elseBranch =>
      ((evalExpr table fuel cond machine).condition "condition of 'if'" site).andThen
        fun holds machine =>
          (evalExpr table fuel (if holds then thenBranch else elseBranch) machine).place site
    | .call site callee args =>
      match table.get? callee with
      | none => fault { cause := .undefinedFunction callee } machine
      | some function =>
        (evalAll (evalExpr table fuel) args machine).andThen fun values machine =>
          match machine.refusal? function values with
          | some cause => fault { cause, site? := some site } machine
          | none =>
            (leave (evalExpr table fuel function.body
              (machine.enter function values site.line))).place site

/-- Run statements one after the other. -/
def execAll (exec : Stmt → Machine → Outcome Unit) : List Stmt → Machine → Outcome Unit
  | [], machine => (.ok (), machine)
  | stmt :: rest, machine =>
    (exec stmt machine).andThen fun _ machine => execAll exec rest machine

/-- Run statements in a scope of their own, which is closed whether or not they succeed. -/
def inScope (exec : Machine → Outcome Unit) (machine : Machine) : Outcome Unit :=
  match exec { machine with scopes := machine.scopes.push } with
  | (result, machine) => (result, { machine with scopes := machine.scopes.pop })

/-- Run a statement.  A loop whose condition holds runs its body and then itself again. -/
def execStmt (table : FunctionTable) : Nat → Stmt → Machine → Outcome Unit
  | 0, _, machine => (.error .outOfFuel, machine)
  | fuel + 1, stmt, machine =>
    match stmt with
    | .assign _ target value =>
      (evalExpr table fuel value machine).andThen fun value machine =>
        (.ok (), { machine with scopes := machine.scopes.assign target value })
    | .ifThen site cond thenBlock =>
      ((evalExpr table fuel cond machine).condition "condition of 'if'" site).andThen
        fun holds machine =>
          if holds then inScope (execAll (execStmt table fuel) thenBlock.stmts) machine
          else (.ok (), machine)
    | .ifElse site cond thenBlock elseBlock =>
      ((evalExpr table fuel cond machine).condition "condition of 'if'" site).andThen
        fun holds machine =>
          inScope (execAll (execStmt table fuel) (if holds then thenBlock else elseBlock).stmts)
            machine
    | .whileLoop site cond body =>
      ((evalExpr table fuel cond machine).condition "condition of 'while'" site).andThen
        fun holds machine =>
          if holds then
            (inScope (execAll (execStmt table fuel) body.stmts) machine).andThen fun _ machine =>
              execStmt table fuel (.whileLoop site cond body) machine
          else
            (.ok (), machine)

/-- Run the main block of a program in the global scope. -/
def execProgram (fuel : Nat) (limit? : Option Nat) (program : Program) : Outcome Unit :=
  execAll (execStmt (.ofProgram program) fuel) program.body.stmts { calls := { limit? } }

end Machine

/-- How many calls may be active at a time unless a run says otherwise. -/
def defaultCallDepth : Nat := 10000

/-- Fuel that no run uses up in the lifetime of a computer. -/
def ampleFuel : Nat := 1000000000000000000

/-- The final global bindings of a program or its first error; nothing if the fuel did not
suffice. -/
def evaluate (fuel : Nat) (limit? : Option Nat) (program : Program) :
    Option (Except RuntimeError Bindings) :=
  match Machine.execProgram fuel limit? program with
  | (.ok (), machine) => some (.ok (.ofList machine.scopes.globals))
  | (.error (.fault error), _) => some (.error error)
  | (.error .outOfFuel, _) => none

end Sipl
