import Sipl.Proofs.Format.Unplaced
import Sipl.Proofs.Run.Outcomes

namespace Sipl

open Machine Outcome

namespace FunctionTable

def unplaced (table : FunctionTable) : FunctionTable := ⟨table.functions.map Function.unplaced⟩

theorem declare_unplaced (functions : List Function) (declared : Function) :
    declare (functions.map Function.unplaced) declared.unplaced =
      (declare functions declared).map Function.unplaced := by
  induction functions with
  | nil => rfl
  | cons other rest ih =>
      have names : other.unplaced.name = declared.unplaced.name ↔ other.name = declared.name :=
        Iff.rfl
      by_cases same : other.name = declared.name
      · simp only [List.map_cons, declare, names, if_pos same]
      · simp only [List.map_cons, declare, names, if_neg same, ih]

theorem ofProgram_unplaced (program : Program) :
    ofProgram program.unplaced = (ofProgram program).unplaced := by
  have folded : ∀ declared functions : List Function,
      (declared.map Function.unplaced).foldl declare (functions.map Function.unplaced) =
        (declared.foldl declare functions).map Function.unplaced := by
    intro declared
    induction declared with
    | nil => exact fun functions => rfl
    | cons first rest ih =>
        intro functions
        rw [List.map_cons, List.foldl_cons, declare_unplaced, ih, List.foldl_cons]
  exact congrArg FunctionTable.mk (folded program.functions [])

theorem get?_unplaced (table : FunctionTable) (name : String) :
    table.unplaced.get? name = (table.get? name).map Function.unplaced := by
  rw [get?, get?, unplaced, List.find?_map]
  rfl

end FunctionTable

/-- The same scopes inside as many calls. -/
structure Machine.Alike (machine other : Machine) : Prop where
  scopes : other.scopes = machine.scopes
  limit : other.calls.limit? = machine.calls.limit?
  depth : other.calls.depth = machine.calls.depth

namespace Machine.Alike

variable {machine other : Machine}

theorem refl (machine : Machine) : machine.Alike machine := ⟨rfl, rfl, rfl⟩

theorem withScopes (alike : machine.Alike other) (change : Environment → Environment) :
    Alike { machine with scopes := change machine.scopes }
      { other with scopes := change other.scopes } :=
  ⟨congrArg change alike.scopes, alike.limit, alike.depth⟩

theorem refusal? (alike : machine.Alike other) (function : Function) (values : List Value) :
    other.refusal? function.unplaced values = machine.refusal? function values := by
  have fit : function.unplaced.params.length = function.params.length := List.length_map ..
  rw [Machine.refusal?, Machine.refusal?, CallStack.refusal?, CallStack.refusal?, fit, alike.limit,
    alike.depth]
  rfl

theorem enter (alike : machine.Alike other) (function : Function) (values : List Value)
    (line otherLine : Nat) :
    (machine.enter function values line).Alike
      (other.enter function.unplaced values otherLine) := by
  have names : function.unplaced.params.map Param.name = function.params.map Param.name := by
    simp [Function.unplaced, Function.comp_def]
  rw [enter_eq, enter_eq, paramStore, paramStore, names]
  refine ⟨?_, alike.limit, ?_⟩
  · rw [alike.scopes]
  · have deeper := congrArg (· + 1) alike.depth
    simpa [CallStack.depth, CallStack.enter] using deeper

theorem pop (alike : machine.Alike other) :
    Alike ⟨machine.scopes.pop, machine.calls.pop⟩ ⟨other.scopes.pop, other.calls.pop⟩ := by
  refine ⟨congrArg Environment.pop alike.scopes, alike.limit, ?_⟩
  have shallower := congrArg (· - 1) alike.depth
  simpa [CallStack.depth, CallStack.pop] using shallower

end Machine.Alike

/-- The same value, or errors of the same cause, in machines that are alike. -/
inductive Outcome.Alike {α : Type} : Outcome α → Outcome α → Prop where
  | value {value : α} {machine other : Machine} (behind : machine.Alike other) :
      Alike (.ok value, machine) (.ok value, other)
  | fault {error otherError : RuntimeError} {machine other : Machine}
      (cause : otherError.cause = error.cause) (behind : machine.Alike other) :
      Alike (.error (.fault error), machine) (.error (.fault otherError), other)
  | outOfFuel {machine other : Machine} (behind : machine.Alike other) :
      Alike (.error .outOfFuel, machine) (.error .outOfFuel, other)

namespace Outcome.Alike

variable {α β : Type} {outcome other : Outcome α}

theorem andThen {next otherNext : α → Machine → Outcome β} (alike : outcome.Alike other)
    (following : ∀ value ⦃machine otherMachine⦄, machine.Alike otherMachine →
      (next value machine).Alike (otherNext value otherMachine)) :
    (outcome.andThen next).Alike (other.andThen otherNext) := by
  cases alike with
  | value behind => exact following _ behind
  | fault cause behind => exact .fault cause behind
  | outOfFuel behind => exact .outOfFuel behind

theorem ofOperation {machine otherMachine : Machine} (behind : machine.Alike otherMachine)
    (result : Except Cause α) (site otherSite : Site) :
    (ofOperation result site machine).Alike (ofOperation result otherSite otherMachine) := by
  cases result with
  | ok value => exact .value behind
  | error cause => exact .fault rfl behind

theorem place (alike : outcome.Alike other) (site otherSite : Site) :
    (outcome.place site).Alike (other.place otherSite) := by
  cases alike with
  | value behind => exact .value behind
  | fault cause behind => exact .fault cause behind
  | outOfFuel behind => exact .outOfFuel behind

theorem condition {outcome other : Outcome Value} (alike : outcome.Alike other) (context : String)
    (owner otherOwner : Site) :
    (outcome.condition context owner).Alike (other.condition context otherOwner) := by
  cases alike with
  | @value value machine otherMachine behind =>
      cases value with
      | int value => exact .fault rfl behind
      | bool value => exact .value behind
  | fault cause behind => exact .fault cause behind
  | outOfFuel behind => exact .outOfFuel behind

theorem leave {outcome other : Outcome Value} (alike : outcome.Alike other) :
    (Machine.leave outcome).Alike (Machine.leave other) := by
  cases alike with
  | value behind => exact .value behind.pop
  | fault cause behind =>
      refine .fault ?_ behind.pop
      rw [CallStack.cause_attach, CallStack.cause_attach, cause]
  | outOfFuel behind => exact .outOfFuel behind.pop

theorem inScope {exec otherExec : Machine → Outcome Unit} {machine otherMachine : Machine}
    (alike : machine.Alike otherMachine)
    (inner : ∀ ⦃machine otherMachine⦄, machine.Alike otherMachine →
      (exec machine).Alike (otherExec otherMachine)) :
    (Machine.inScope exec machine).Alike (Machine.inScope otherExec otherMachine) := by
  have inside := inner (alike.withScopes Environment.push)
  unfold Machine.inScope
  generalize exec _ = outcome at inside ⊢
  generalize otherExec _ = other at inside ⊢
  cases inside with
  | value behind => exact .value (behind.withScopes Environment.pop)
  | fault cause behind => exact .fault cause (behind.withScopes Environment.pop)
  | outOfFuel behind => exact .outOfFuel (behind.withScopes Environment.pop)

end Outcome.Alike

/-- With this fuel, every expression and the one without places end alike. -/
def ExprsAlike (table : FunctionTable) (fuel : Nat) : Prop :=
  ∀ ⦃machine other⦄ expr, machine.Alike other →
    (evalExpr table fuel expr machine).Alike (evalExpr table.unplaced fuel expr.unplaced other)

variable {table : FunctionTable} {fuel : Nat} {machine other : Machine}

theorem ExprsAlike.evalAll (exprsAlike : ExprsAlike table fuel) (exprs : List Expr)
    (alike : machine.Alike other) :
    (evalAll (evalExpr table fuel) exprs machine).Alike
      (evalAll (evalExpr table.unplaced fuel) (Expr.argsUnplaced exprs) other) := by
  induction exprs generalizing machine other with
  | nil => exact .value alike
  | cons expr rest ih =>
      apply (exprsAlike expr alike).andThen
      intro value machine other behind
      exact (ih behind).andThen fun values machine other behind => .value behind

theorem ExprsAlike.next (exprsAlike : ExprsAlike table fuel) : ExprsAlike table (fuel + 1) := by
  intro machine other expr alike
  cases expr with
  | literal site value => exact .value alike
  | var site name =>
      simp only [Expr.unplaced, evalExpr, alike.scopes]
      cases machine.scopes.lookup name with
      | some value => exact .value alike
      | none => exact .fault rfl alike
  | unary site op operand =>
      apply (exprsAlike operand alike).andThen
      intro value machine other behind
      exact .ofOperation behind ..
  | arith site op left right =>
      apply (exprsAlike left alike).andThen
      intro leftValue machine other behind
      apply (exprsAlike right behind).andThen
      intro rightValue machine other behind
      exact .ofOperation behind ..
  | logical site op left right =>
      apply ((exprsAlike right alike).condition ..).andThen
      intro decided machine other behind
      split
      · exact .value behind
      · apply (((exprsAlike left behind).condition ..).place ..).andThen
        intro value machine other behind
        exact .value behind
  | ifThen site cond thenBranch =>
      apply ((exprsAlike cond alike).condition ..).andThen
      intro holds machine other behind
      cases holds with
      | true => exact (exprsAlike thenBranch behind).place ..
      | false => exact .fault rfl behind
  | ifElse site cond thenBranch elseBranch =>
      apply ((exprsAlike cond alike).condition ..).andThen
      intro holds machine other behind
      cases holds with
      | true => exact (exprsAlike thenBranch behind).place ..
      | false => exact (exprsAlike elseBranch behind).place ..
  | call site callee args =>
      simp only [Expr.unplaced, evalExpr, FunctionTable.get?_unplaced]
      cases table.get? callee with
      | none => exact .fault rfl alike
      | some function =>
          apply (exprsAlike.evalAll args alike).andThen
          intro values machine other behind
          simp only [behind.refusal?]
          cases machine.refusal? function values with
          | some cause => exact .fault rfl behind
          | none =>
              have entered := behind.enter function values site.line (default : Site).line
              exact (exprsAlike function.body entered).leave.place ..

theorem exprsAlike (table : FunctionTable) (fuel : Nat) : ExprsAlike table fuel := by
  induction fuel with
  | zero => exact fun machine other expr alike => .outOfFuel alike
  | succ fuel ih => exact ih.next

/-- With this fuel, every statement and the one without places end alike. -/
def StmtsAlike (table : FunctionTable) (fuel : Nat) : Prop :=
  ∀ ⦃machine other⦄ stmt, machine.Alike other →
    (execStmt table fuel stmt machine).Alike (execStmt table.unplaced fuel stmt.unplaced other)

theorem StmtsAlike.execAll (stmtsAlike : StmtsAlike table fuel) (stmts : List Stmt)
    (alike : machine.Alike other) :
    (execAll (execStmt table fuel) stmts machine).Alike
      (execAll (execStmt table.unplaced fuel) (stmtsUnplaced stmts) other) := by
  induction stmts generalizing machine other with
  | nil => exact .value alike
  | cons stmt rest ih =>
      apply (stmtsAlike stmt alike).andThen
      intro _ machine other behind
      exact ih behind

theorem Block.stmts_unplaced (block : Block) :
    block.unplaced.stmts = stmtsUnplaced block.stmts := by
  cases block
  rfl

theorem StmtsAlike.block (stmtsAlike : StmtsAlike table fuel) (block : Block)
    (alike : machine.Alike other) :
    (inScope (Machine.execAll (execStmt table fuel) block.stmts) machine).Alike
      (inScope (Machine.execAll (execStmt table.unplaced fuel) block.unplaced.stmts) other) := by
  rw [block.stmts_unplaced]
  apply Outcome.Alike.inScope alike
  intro machine other inside
  exact stmtsAlike.execAll block.stmts inside

theorem StmtsAlike.next (stmtsAlike : StmtsAlike table fuel) : StmtsAlike table (fuel + 1) := by
  intro machine other stmt alike
  cases stmt with
  | assign site target value =>
      apply (exprsAlike table fuel value alike).andThen
      intro value machine other behind
      exact .value (behind.withScopes (·.assign target value))
  | ifThen site cond thenBlock =>
      apply ((exprsAlike table fuel cond alike).condition ..).andThen
      intro holds machine other behind
      cases holds with
      | true => exact stmtsAlike.block thenBlock behind
      | false => exact .value behind
  | ifElse site cond thenBlock elseBlock =>
      apply ((exprsAlike table fuel cond alike).condition ..).andThen
      intro holds machine other behind
      cases holds with
      | true => exact stmtsAlike.block thenBlock behind
      | false => exact stmtsAlike.block elseBlock behind
  | whileLoop site cond body =>
      apply ((exprsAlike table fuel cond alike).condition ..).andThen
      intro holds machine other behind
      cases holds with
      | true =>
          apply (stmtsAlike.block body behind).andThen
          intro _ machine other behind
          exact stmtsAlike (.whileLoop site cond body) behind
      | false => exact .value behind

theorem stmtsAlike (table : FunctionTable) (fuel : Nat) : StmtsAlike table fuel := by
  induction fuel with
  | zero => exact fun machine other stmt alike => .outOfFuel alike
  | succ fuel ih => exact ih.next

/-- A program and the one without places come to the same answer. -/
theorem evaluate_unplaced (fuel : Nat) (limit? : Option Nat) (program : Program) :
    (evaluate fuel limit? program.unplaced).map (·.mapError RuntimeError.cause) =
      (evaluate fuel limit? program).map (·.mapError RuntimeError.cause) := by
  have alike : (execProgram fuel limit? program).Alike
      (execProgram fuel limit? program.unplaced) := by
    rw [execProgram, execProgram, FunctionTable.ofProgram_unplaced]
    have body : program.unplaced.body.stmts = stmtsUnplaced program.body.stmts :=
      program.body.stmts_unplaced
    rw [body]
    exact (stmtsAlike _ fuel).execAll _ (.refl _)
  rw [evaluate, evaluate]
  generalize execProgram fuel limit? program = outcome at alike
  generalize execProgram fuel limit? program.unplaced = other at alike
  cases alike with
  | value behind => simp only [behind.scopes]
  | fault cause behind =>
      exact congrArg (fun cause => some (Except.error cause : Except Cause Bindings)) cause
  | outOfFuel behind => rfl

end Sipl
