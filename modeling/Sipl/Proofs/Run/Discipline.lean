import Sipl.Proofs.Run.Steps

namespace Sipl

open Machine Outcome

variable {limit? : Option Nat} {machine : Machine}

namespace CallStack

theorem pop?_enter (calls : CallStack) (frame : Frame) : (calls.enter frame).pop? = some calls := by
  simp [enter, pop?]

theorem depth_enter (calls : CallStack) (frame : Frame) :
    (calls.enter frame).depth = calls.depth + 1 := Array.size_push ..

theorem refusal?_eq_none_iff {calls : CallStack} :
    calls.refusal? = none ↔ ∀ limit ∈ calls.limit?, calls.depth < limit := by
  simp [refusal?]

theorem Within.enter {calls : CallStack} (within : calls.Within limit?) (frame : Frame)
    (free : calls.refusal? = none) : (calls.enter frame).Within limit? := by
  refine ⟨within.limit, fun limit known => ?_⟩
  rw [depth_enter]
  exact refusal?_eq_none_iff.mp free limit (within.limit ▸ known)

theorem depth_pop (calls : CallStack) : calls.pop.depth = calls.depth - 1 := Array.size_pop ..

theorem Within.pop {calls : CallStack} (within : calls.Within limit?) :
    calls.pop.Within limit? := by
  refine ⟨within.limit, fun limit known => ?_⟩
  rw [depth_pop]
  exact Nat.le_trans (Nat.sub_le ..) (within.depth limit known)

end CallStack

theorem Machine.free_of_refusal? {function : Function} {values : List Value}
    (free : machine.refusal? function values = none) : machine.calls.refusal? = none := by
  rw [Machine.refusal?] at free
  split at free
  · cases free
  · exact free

theorem leads_params (entries : List (Param × Value)) (scopes : Environment) {calls : CallStack}
    (within : calls.Within limit?) :
    Leads limit? (entries.map fun (param, value) => .assign param.name value) ⟨scopes.arena, calls⟩
      ⟨(entries.foldl (fun env (param, value) => env.assign param.name value) scopes).arena,
        calls⟩ := by
  induction entries generalizing scopes with
  | nil => exact .done within
  | cons entry rest ih =>
      apply Leads.next within _ (ih (scopes.assign entry.1.name entry.2))
      rw [Environment.arena_assign]
      rfl

theorem leads_enter (within : machine.calls.Within limit?) (function : Function)
    (values : List Value) (line : Nat) (free : machine.calls.refusal? = none) :
    Leads limit? (enterSteps function values line) machine.stored
      (machine.enter function values line).stored := by
  have entered := within.enter ⟨function.name, line⟩ free
  apply Leads.next within rfl
  apply Leads.next entered _ (leads_params _ machine.scopes.pushDetached entered)
  rw [Environment.arena_pushDetached]
  rfl

theorem arena_pop_enter (machine : Machine) (function : Function) (values : List Value)
    (line : Nat) :
    (machine.enter function values line).scopes.arena.pop = .ok machine.scopes.arena := by
  have deeper : (machine.enter function values line).scopes.arena.current ≠ 0 := by
    rw [enter_eq]
    exact Nat.succ_ne_zero _
  have outside : (machine.enter function values line).scopes.pop = machine.scopes :=
    congrArg Machine.scopes (pop_enter machine function values line)
  rw [Environment.arena_pop deeper, outside]

/-- The scope and the frame of a call are there when it is left. -/
theorem leads_leave (within : machine.calls.Within limit?) (function : Function)
    (values : List Value) (line : Nat) (free : machine.calls.refusal? = none) :
    Leads limit? [.closeScope, .leaveCall] (machine.enter function values line).stored
      machine.stored := by
  have entered := within.enter ⟨function.name, line⟩ free
  have closed := arena_pop_enter machine function values line
  have left : (machine.enter function values line).calls.pop? = some machine.calls :=
    CallStack.pop?_enter ..
  have first : Step.take (machine.enter function values line).stored .closeScope =
      .ok ⟨machine.scopes.arena, (machine.enter function values line).calls⟩ := by
    simp only [Step.take, Machine.stored, closed]
    rfl
  apply Leads.next entered first (.single entered _ within)
  simp only [Step.take, left]
  rfl

variable {table : FunctionTable} {fuel : Nat}

/-- With this fuel, the steps of every expression lead to where its evaluation ends. -/
def ExprsLead (limit? : Option Nat) (table : FunctionTable) (fuel : Nat) : Prop :=
  ∀ expr (machine : Machine), machine.calls.Within limit? →
    Leads limit? (exprSteps table fuel expr machine) machine.stored
      (evalExpr table fuel expr machine).2.stored

namespace ExprsLead

theorem evalAll (exprsLead : ExprsLead limit? table fuel) (exprs : List Expr)
    (within : machine.calls.Within limit?) :
    Leads limit? (stepsAll (evalExpr table fuel) (exprSteps table fuel) exprs machine)
      machine.stored (evalAll (evalExpr table fuel) exprs machine).2.stored := by
  induction exprs generalizing machine with
  | nil => exact .done within
  | cons expr rest ih =>
      apply (exprsLead expr machine within).andThen
      intro value machine within
      rw [snd_andThen rfl fun values => rfl]
      exact ih within

theorem condition (exprsLead : ExprsLead limit? table fuel) (cond : Expr)
    (within : machine.calls.Within limit?) (context : String) (owner : Site) :
    Leads limit? (exprSteps table fuel cond machine) machine.stored
      ((evalExpr table fuel cond machine).condition context owner).2.stored := by
  rw [snd_condition]
  exact exprsLead cond machine within

theorem next (exprsLead : ExprsLead limit? table fuel) : ExprsLead limit? table (fuel + 1) := by
  intro expr machine within
  cases expr with
  | literal site value => exact .done within
  | var site name =>
      simp only [exprSteps, snd_evalExpr]
      exact .done within
  | unary site op operand =>
      rw [evalExpr, snd_andThen rfl fun value => snd_ofOperation ..]
      exact exprsLead operand machine within
  | arith site op left right =>
      apply (exprsLead left machine within).andThen
      intro leftValue machine within
      rw [snd_andThen rfl fun rightValue => snd_ofOperation ..]
      exact exprsLead right machine within
  | logical site op left right =>
      apply (exprsLead.condition right within ..).andThen
      intro decided machine within
      split
      · exact .done within
      · rw [snd_andThen rfl fun value => rfl, snd_place]
        exact exprsLead.condition left within ..
  | ifThen site cond thenBranch =>
      apply (exprsLead.condition cond within ..).andThen
      intro holds machine within
      cases holds with
      | true =>
          simp only [if_true, snd_place]
          exact exprsLead thenBranch machine within
      | false => exact .done within
  | ifElse site cond thenBranch elseBranch =>
      apply (exprsLead.condition cond within ..).andThen
      intro holds machine within
      rw [snd_place]
      exact exprsLead _ machine within
  | call site callee args =>
      simp only [exprSteps, evalExpr]
      cases table.get? callee with
      | none => exact .done within
      | some function =>
          apply (exprsLead.evalAll args within).andThen
          intro values machine within
          cases refused : machine.refusal? function values with
          | some cause => exact .done within
          | none =>
              have free := free_of_refusal? refused
              have entered := leads_enter within function values site.line free
              -- The body leaves the machine as it was entered: the scope and the frame that are
              -- closed behind it are those of this call.
              have body := exprsLead function.body _ entered.stop
              simp only [snd_place, snd_leave, snd_evalExpr, pop_enter] at body ⊢
              exact entered.append (body.append (leads_leave within function values site.line free))

end ExprsLead

theorem exprsLead (limit? : Option Nat) (table : FunctionTable) (fuel : Nat) :
    ExprsLead limit? table fuel := by
  induction fuel with
  | zero => exact fun expr machine within => .done within
  | succ fuel ih => exact ih.next

/-- With this fuel, the steps of every statement lead to where its run ends. -/
def StmtsLead (limit? : Option Nat) (table : FunctionTable) (fuel : Nat) : Prop :=
  ∀ stmt (machine : Machine), machine.calls.Within limit? →
    Leads limit? (stmtSteps table fuel stmt machine) machine.stored
      (execStmt table fuel stmt machine).2.stored

namespace StmtsLead

theorem execAll (stmtsLead : StmtsLead limit? table fuel) (stmts : List Stmt)
    (within : machine.calls.Within limit?) :
    Leads limit? (stepsAll (execStmt table fuel) (stmtSteps table fuel) stmts machine)
      machine.stored (execAll (execStmt table fuel) stmts machine).2.stored := by
  induction stmts generalizing machine with
  | nil => exact .done within
  | cons stmt rest ih =>
      apply (stmtsLead stmt machine within).andThen
      intro _ machine within
      exact ih within

theorem block (stmtsLead : StmtsLead limit? table fuel) (block : Block)
    (within : machine.calls.Within limit?) :
    Leads limit? (blockSteps (execStmt table fuel) (stmtSteps table fuel) block machine)
      machine.stored
      (inScope (Machine.execAll (execStmt table fuel) block.stmts) machine).2.stored := by
  have opened : Step.take machine.stored .openScope =
      .ok (Machine.stored { machine with scopes := machine.scopes.push }) := by
    simp only [Step.take, Machine.stored, Environment.arena_push]
  have inner : Leads limit? _ (Machine.stored { machine with scopes := machine.scopes.push }) _ :=
    stmtsLead.execAll block.stmts within
  have popped := pop_inScope machine ((stmtsGrow table fuel).execAll block.stmts)
  apply Leads.next within opened (inner.append (.single inner.stop _ _))
  · simp only [Step.take, Machine.stored, popped]
    rfl
  · exact inner.stop

theorem next (stmtsLead : StmtsLead limit? table fuel) : StmtsLead limit? table (fuel + 1) := by
  intro stmt machine within
  cases stmt with
  | assign site target value =>
      apply (exprsLead limit? table fuel value machine within).andThen
      intro value machine within
      apply Leads.single within _ within
      simp only [Step.take, Machine.stored, Environment.arena_assign]
  | ifThen site cond thenBlock =>
      apply ((exprsLead limit? table fuel).condition cond within ..).andThen
      intro holds machine within
      cases holds with
      | true => exact stmtsLead.block thenBlock within
      | false => exact .done within
  | ifElse site cond thenBlock elseBlock =>
      apply ((exprsLead limit? table fuel).condition cond within ..).andThen
      intro holds machine within
      exact stmtsLead.block _ within
  | whileLoop site cond body =>
      apply ((exprsLead limit? table fuel).condition cond within ..).andThen
      intro holds machine within
      cases holds with
      | true =>
          apply (stmtsLead.block body within).andThen
          intro _ machine within
          exact stmtsLead (.whileLoop site cond body) machine within
      | false => exact .done within

end StmtsLead

theorem stmtsLead (limit? : Option Nat) (table : FunctionTable) (fuel : Nat) :
    StmtsLead limit? table fuel := by
  induction fuel with
  | zero => exact fun stmt machine within => .done within
  | succ fuel ih => exact ih.next

theorem leads_program (fuel : Nat) (limit? : Option Nat) (program : Program) :
    Leads limit? (programSteps fuel limit? program) { calls := { limit? } }
      (execProgram fuel limit? program).2.stored :=
  (stmtsLead limit? _ fuel).execAll _ ⟨rfl, fun _ _ => Nat.zero_le _⟩

/-- An expression leaves the machine as it was; a block leaves calls, the number of scopes, the
current scope and the names of every scope as they were, and the values outside the chain; whatever
the outcome.  No step of a run closes the global scope, closes scopes out of order or leaves a call
that was not entered. -/
theorem scopes_and_calls_are_kept (fuel : Nat) :
    (∀ table expr machine, (evalExpr table fuel expr machine).2 = machine) ∧
      (∀ table (block : Block) (machine : Machine),
        machine.KeepsTo (inScope (execAll (execStmt table fuel) block.stmts) machine).2) ∧
      ∀ limit? program, takeAll (programSteps fuel limit? program) { calls := { limit? } } =
        .ok (execProgram fuel limit? program).2.stored := by
  refine ⟨?_, ?_, ?_⟩
  · intro table expr machine
    exact snd_evalExpr table fuel expr machine
  · intro table block machine
    exact (stmtsGrow table fuel).block block machine
  · intro limit? program
    exact (leads_program fuel limit? program).takeAll_eq

end Sipl
