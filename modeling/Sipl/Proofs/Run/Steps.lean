import Sipl.Proofs.Run.Blocks

namespace Sipl

open Machine Outcome

/-! A run opens and closes scopes, assigns to names, and enters and leaves calls.  These steps are
listed as the run takes them, so that they can be taken again on scopes that stand in a row, where a
step that must not be taken fails. -/

inductive Step where
  | openScope
  | openDetached
  | closeScope
  | assign (name : String) (value : Value)
  | enterCall (frame : Frame)
  | leaveCall
  deriving DecidableEq

/-- A machine with its scopes in a row. -/
structure ArenaMachine where
  scopes : ScopeArena := {}
  calls : CallStack
  deriving DecidableEq

def Machine.stored (machine : Machine) : ArenaMachine := ⟨machine.scopes.arena, machine.calls⟩

/-- Take one step.  Whether the limit allows a call is not looked at. -/
def Step.take (machine : ArenaMachine) : Step → Except Misuse ArenaMachine
  | openScope => .ok { machine with scopes := machine.scopes.push }
  | openDetached => .ok { machine with scopes := machine.scopes.pushDetached }
  | closeScope => machine.scopes.pop.map fun scopes => { machine with scopes }
  | assign name value => .ok { machine with scopes := machine.scopes.assign name value }
  | enterCall frame => .ok { machine with calls := machine.calls.enter frame }
  | leaveCall =>
    match machine.calls.pop? with
    | none => .error .noCallToLeave
    | some calls => .ok { machine with calls }

def takeAll : List Step → ArenaMachine → Except Misuse ArenaMachine
  | [], machine => .ok machine
  | step :: rest, machine =>
    match step.take machine with
    | .error misuse => .error misuse
    | .ok later => takeAll rest later

/-- The steps that follow if there is a value. -/
def Outcome.stepsThen {α : Type} (outcome : Outcome α) (next : α → Machine → List Step) :
    List Step :=
  match outcome with
  | (.ok value, machine) => next value machine
  | (.error _, _) => []

namespace Machine

/-- The steps of nodes that are run one after the other as long as they have values. -/
def stepsAll {Node α : Type} (run : Node → Machine → Outcome α)
    (steps : Node → Machine → List Step) : List Node → Machine → List Step
  | [], _ => []
  | node :: rest, machine =>
    steps node machine ++ (run node machine).stepsThen fun _ machine =>
      stepsAll run steps rest machine

def enterSteps (function : Function) (values : List Value) (line : Nat) : List Step :=
  .enterCall ⟨function.name, line⟩ :: .openDetached ::
    (function.params.zip values).map fun (param, value) => .assign param.name value

def exprSteps (table : FunctionTable) : Nat → Expr → Machine → List Step
  | 0, _, _ => []
  | fuel + 1, expr, machine =>
    match expr with
    | .literal _ _ => []
    | .var _ _ => []
    | .unary _ _ operand => exprSteps table fuel operand machine
    | .arith _ _ left right =>
      exprSteps table fuel left machine ++
        (evalExpr table fuel left machine).stepsThen fun _ machine =>
          exprSteps table fuel right machine
    | .logical site op left right =>
      exprSteps table fuel right machine ++
        ((evalExpr table fuel right machine).condition (quoted op.symbol) site).stepsThen
          fun decided machine =>
            if op.decides decided then [] else exprSteps table fuel left machine
    | .ifThen site cond thenBranch =>
      exprSteps table fuel cond machine ++
        ((evalExpr table fuel cond machine).condition "condition of 'if'" site).stepsThen
          fun holds machine => if holds then exprSteps table fuel thenBranch machine else []
    | .ifElse site cond thenBranch elseBranch =>
      exprSteps table fuel cond machine ++
        ((evalExpr table fuel cond machine).condition "condition of 'if'" site).stepsThen
          fun holds machine =>
            exprSteps table fuel (if holds then thenBranch else elseBranch) machine
    | .call site callee args =>
      match table.get? callee with
      | none => []
      | some function =>
        stepsAll (evalExpr table fuel) (exprSteps table fuel) args machine ++
          (evalAll (evalExpr table fuel) args machine).stepsThen fun values machine =>
            match machine.refusal? function values with
            | some _ => []
            | none =>
              enterSteps function values site.line ++
                (exprSteps table fuel function.body (machine.enter function values site.line) ++
                  [.closeScope, .leaveCall])

def blockSteps (exec : Stmt → Machine → Outcome Unit) (steps : Stmt → Machine → List Step)
    (block : Block) (machine : Machine) : List Step :=
  .openScope :: (stepsAll exec steps block.stmts { machine with scopes := machine.scopes.push } ++
    [.closeScope])

def stmtSteps (table : FunctionTable) : Nat → Stmt → Machine → List Step
  | 0, _, _ => []
  | fuel + 1, stmt, machine =>
    match stmt with
    | .assign _ target value =>
      exprSteps table fuel value machine ++
        (evalExpr table fuel value machine).stepsThen fun value _ => [.assign target value]
    | .ifThen site cond thenBlock =>
      exprSteps table fuel cond machine ++
        ((evalExpr table fuel cond machine).condition "condition of 'if'" site).stepsThen
          fun holds machine =>
            if holds then blockSteps (execStmt table fuel) (stmtSteps table fuel) thenBlock machine
            else []
    | .ifElse site cond thenBlock elseBlock =>
      exprSteps table fuel cond machine ++
        ((evalExpr table fuel cond machine).condition "condition of 'if'" site).stepsThen
          fun holds machine =>
            blockSteps (execStmt table fuel) (stmtSteps table fuel)
              (if holds then thenBlock else elseBlock) machine
    | .whileLoop site cond body =>
      exprSteps table fuel cond machine ++
        ((evalExpr table fuel cond machine).condition "condition of 'while'" site).stepsThen
          fun holds machine =>
            if holds then
              blockSteps (execStmt table fuel) (stmtSteps table fuel) body machine ++
                (inScope (execAll (execStmt table fuel) body.stmts) machine).stepsThen
                  fun _ machine => stmtSteps table fuel (.whileLoop site cond body) machine
            else
              []

/-- The steps of a whole run with the given fuel. -/
def programSteps (fuel : Nat) (limit? : Option Nat) (program : Program) : List Step :=
  stepsAll (execStmt (.ofProgram program) fuel) (stmtSteps (.ofProgram program) fuel)
    program.body.stmts { calls := { limit? } }

end Machine

/-- The limit on calls is the given one, and no more are active than it allows. -/
structure CallStack.Within (calls : CallStack) (limit? : Option Nat) : Prop where
  limit : calls.limit? = limit?
  depth : ∀ limit ∈ limit?, calls.depth ≤ limit

/-- The steps can be taken one after the other, they end in the other machine, and all the way no
more calls are active than the limit allows. -/
inductive Leads (limit? : Option Nat) : List Step → ArenaMachine → ArenaMachine → Prop where
  | done {machine : ArenaMachine} (within : machine.calls.Within limit?) :
      Leads limit? [] machine machine
  | next {step : Step} {rest : List Step} {machine later final : ArenaMachine}
      (within : machine.calls.Within limit?) (taken : step.take machine = .ok later)
      (behind : Leads limit? rest later final) : Leads limit? (step :: rest) machine final

namespace Leads

variable {limit? : Option Nat} {first second : List Step} {machine middle final : ArenaMachine}

theorem stop (leads : Leads limit? first machine final) : final.calls.Within limit? := by
  induction leads with
  | done within => exact within
  | next within taken behind ih => exact ih

theorem append (one : Leads limit? first machine middle)
    (other : Leads limit? second middle final) : Leads limit? (first ++ second) machine final := by
  induction one with
  | done within => exact other
  | next within taken behind ih => exact .next within taken (ih other)

theorem single {step : Step} (within : machine.calls.Within limit?)
    (taken : step.take machine = .ok final) (after : final.calls.Within limit?) :
    Leads limit? [step] machine final :=
  .next within taken (.done after)

theorem takeAll_eq (leads : Leads limit? first machine final) :
    takeAll first machine = .ok final := by
  induction leads with
  | done within => rfl
  | next within taken behind ih => rw [takeAll, taken]; exact ih

/-- Wherever the steps are interrupted, no more calls are active than the limit allows. -/
theorem within_interrupted {front : List Step} (leads : Leads limit? first machine final)
    (part : front <+: first) :
    ∃ reached, takeAll front machine = .ok reached ∧ reached.calls.Within limit? := by
  induction leads generalizing front with
  | done within =>
      rw [List.prefix_nil.mp part]
      exact ⟨_, rfl, within⟩
  | next within taken behind ih =>
      cases front with
      | nil => exact ⟨_, rfl, within⟩
      | cons step rest =>
          obtain ⟨rfl, inner⟩ := List.cons_prefix_cons.mp part
          obtain ⟨reached, known, bounded⟩ := ih inner
          refine ⟨reached, ?_, bounded⟩
          rw [takeAll, taken]
          exact known

/-- Steps follow each other as the parts of a sequence do. -/
theorem andThen {α β : Type} {outcome : Outcome α} {more : α → Machine → List Step}
    {next : α → Machine → Outcome β} (one : Leads limit? first machine outcome.2.stored)
    (other : ∀ value (machine : Machine), machine.calls.Within limit? →
      Leads limit? (more value machine) machine.stored (next value machine).2.stored) :
    Leads limit? (first ++ outcome.stepsThen more) machine (outcome.andThen next).2.stored := by
  apply one.append
  obtain ⟨result, behind⟩ := outcome
  cases result with
  | ok value => exact other value behind one.stop
  | error halt => exact .done one.stop

end Leads

end Sipl
