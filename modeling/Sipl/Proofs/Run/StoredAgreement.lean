import Sipl.Proofs.Run.Declarations
import Sipl.Proofs.Run.Discipline
import Sipl.Proofs.Run.StoredRun

namespace Sipl

theorem ArithOp.applyStored_eq (op : ArithOp) (left right : Value) :
    op.applyStored left right = .ok (op.apply left right) := by
  apply if_neg
  rintro ⟨rfl, rfl, accepted⟩
  cases accepted

namespace ScopeArena

variable {slots later : List ScopeSlot} {name : String} {index : Nat}

theorem findOwner_append (inside : index < slots.length) :
    findOwner (slots ++ later) name index = findOwner slots name index := by
  induction index using Nat.strongRecOn with
  | ind index ih =>
      rw [findOwner, findOwner, List.getElem?_append_left inside]
      split
      · rfl
      · split
        · rfl
        · split
          · rfl
          · split
            · next front => exact ih _ front (Nat.lt_trans front inside)
            · rfl

theorem slot_of_lt {arena : ScopeArena} (inside : index < arena.slots.length) :
    ∃ slot, arena.slots[index]? = some slot ∧ arena.slot index = .ok slot := by
  have found := List.getElem?_eq_getElem inside
  exact ⟨_, found, by rw [slot, found, Breach.unlessFound]⟩

end ScopeArena

namespace Environment

open ScopeArena

theorem findOwner_slotsFrom (globals : Store) (name : String) (scopes : List Scope) :
    findOwner (slotsFrom globals scopes) name scopes.length =
      .ok (ownerFrom (slotsFrom globals scopes) name scopes.length) := by
  induction scopes with
  | nil =>
      rw [List.length_nil, ownerFrom_slotsFrom_nil, findOwner]
      cases known : globals.binds name <;> simp [slotsFrom, known]
  | cons scope outer ih =>
      have length := length_slotsFrom globals outer
      rw [List.length_cons, ownerFrom_slotsFrom_cons, findOwner, getElem?_slotsFrom_cons]
      cases known : scope.store.binds name with
      | true => simp [known]
      | false =>
          cases scope.detached with
          | true => simp [known]
          | false =>
              simp only [known, Bool.false_eq_true, if_false, Nat.lt_add_one, if_true]
              rw [slotsFrom, findOwner_append (by omega)]
              exact ih

/-- The owner of a name is found, and it stands. -/
theorem findOwner_arena (env : Environment) (name : String) :
    findOwner env.arena.slots name env.arena.current = .ok (env.arena.owner? name) ∧
      ∀ owner ∈ env.arena.owner? name, owner < env.arena.slots.length :=
  ⟨findOwner_slotsFrom env.globals name env.inner, fun _ owned => owner_lt owned⟩

theorem find_arena (env : Environment) (name : String) :
    env.arena.find name = .ok (env.lookup name) := by
  obtain ⟨searched, inside⟩ := findOwner_arena env name
  rw [← env.lookup_arena, ScopeArena.lookup, ScopeArena.find, searched]
  cases owned : env.arena.owner? name with
  | none => rfl
  | some owner =>
      obtain ⟨slot, found, stands⟩ := slot_of_lt (inside owner owned)
      rw [Option.bind_some, found]
      simp only [stands, bind, Except.bind]
      rfl

theorem put_arena (env : Environment) (name : String) (value : Value) :
    env.arena.put name value = .ok (env.assign name value).arena := by
  obtain ⟨searched, inside⟩ := findOwner_arena env name
  have target : (env.arena.owner? name).getD env.arena.current < env.arena.slots.length := by
    cases owned : env.arena.owner? name with
    | none => exact Nat.lt_of_succ_le (Nat.le_of_eq env.latest_arena)
    | some owner => exact inside owner owned
  obtain ⟨slot, found, stands⟩ := slot_of_lt target
  rw [arena_assign, ScopeArena.assign, List.modify_eq_set, found, ScopeArena.put, searched]
  simp only [stands, bind, Except.bind]
  rfl

theorem getElem?_zero_slotsFrom (globals : Store) (scopes : List Scope) :
    (slotsFrom globals scopes)[0]? = some ⟨globals, none, 0⟩ := by
  induction scopes with
  | nil => rfl
  | cons scope outer ih =>
      rw [slotsFrom, List.getElem?_append_left (by rw [length_slotsFrom]; omega), ih]

theorem globals_arena (env : Environment) : env.arena.globals = .ok env.globals := by
  rw [ScopeArena.globals, slot, arena, getElem?_zero_slotsFrom]
  rfl

end Environment

namespace Outcome

variable {α β : Type}

/-- The same outcome on a machine with its scopes in a row. -/
def attempt (outcome : Outcome α) : Attempt α := .ok (outcome.1, outcome.2.stored)

theorem attempt_andThen (outcome : Outcome α) {next : α → Machine → Outcome β}
    {tried : α → ArenaMachine → Attempt β}
    (same : ∀ value (machine : Machine),
      tried value machine.stored = (next value machine).attempt) :
    outcome.attempt.andThen tried = (outcome.andThen next).attempt := by
  obtain ⟨result, machine⟩ := outcome
  cases result with
  | ok value => exact same value machine
  | error halt => rfl

theorem attempt_place (outcome : Outcome α) (site : Site) :
    outcome.attempt.place site = (outcome.place site).attempt := by
  obtain ⟨result, machine⟩ := outcome
  cases result with
  | ok value => rfl
  | error halt => cases halt <;> rfl

theorem attempt_ofOperation (result : Except Cause α) (site : Site) (machine : Machine) :
    Attempt.ofOperation result site machine.stored = (ofOperation result site machine).attempt := by
  cases result <;> rfl

theorem attempt_condition (outcome : Outcome Value) (context : String) (owner : Site) :
    outcome.attempt.condition context owner = (outcome.condition context owner).attempt := by
  obtain ⟨result, machine⟩ := outcome
  cases result with
  | ok value => cases value <;> rfl
  | error halt => rfl

end Outcome

namespace Machine

open Outcome

theorem foldlM_put (entries : List (Param × Value)) (env : Environment) :
    entries.foldlM (fun scopes (param, value) => scopes.put param.name value) env.arena =
      .ok (entries.foldl (fun env (param, value) => env.assign param.name value) env).arena := by
  induction entries generalizing env with
  | nil => rfl
  | cons entry rest ih =>
      simp only [List.foldlM_cons, Environment.put_arena]
      exact ih (env.assign entry.1.name entry.2)

variable {node : FunctionNode} {function : Function}

theorem refusal?_stored (machine : Machine) (name : node.name = function.name)
    (params : node.params = function.params) (values : List Value) :
    machine.stored.refusal? node values = machine.refusal? function values := by
  rw [ArenaMachine.refusal?, Machine.refusal?, name, params]
  rfl

theorem enter_stored (machine : Machine) (name : node.name = function.name)
    (params : node.params = function.params) (values : List Value) (line : Nat) :
    machine.stored.enter node values line = .ok (machine.enter function values line).stored := by
  have filled := foldlM_put (function.params.zip values) machine.scopes.pushDetached
  rw [Environment.arena_pushDetached] at filled
  rw [ArenaMachine.enter, name, params, Machine.stored, filled]
  rfl

theorem attempt_leave {outcome : Outcome Value} {machine : Machine} {values : List Value}
    {line : Nat} (behind : outcome.2 = machine.enter function values line) :
    ArenaMachine.leave outcome.attempt = (leave outcome).attempt := by
  obtain ⟨result, inside⟩ := outcome
  obtain rfl : inside = machine.enter function values line := behind
  have left : (machine.enter function values line).calls.pop? = some machine.calls :=
    CallStack.pop?_enter ..
  have exit : (machine.enter function values line).stored.exit = .ok machine.stored := by
    simp only [ArenaMachine.exit, Machine.stored, ScopeArena.close,
      arena_pop_enter machine function values line, left]
    rfl
  have outside := pop_enter machine function values line
  simp only [attempt, ArenaMachine.leave, Except.bind, exit, Except.map]
  cases result with
  | ok value => simp only [leave, outside]
  | error halt =>
      cases halt with
      | fault error =>
          simp only [leave, outside]
          rfl
      | outOfFuel => simp only [leave, outside]

theorem attempt_inScope {exec : Machine → Outcome Unit} {tried : ArenaMachine → Attempt Unit}
    (machine : Machine) (grows : ∀ machine : Machine, machine.GrowsTo (exec machine).2)
    (same : ∀ machine : Machine, tried machine.stored = (exec machine).attempt) :
    ArenaMachine.inScope tried machine.stored = (inScope exec machine).attempt := by
  have opened := same { machine with scopes := machine.scopes.push }
  have closed := pop_inScope machine grows
  rw [Machine.stored, Environment.arena_push] at opened
  simp only [ArenaMachine.inScope, Machine.stored, opened, attempt, Except.bind, ScopeArena.close,
    closed, Except.map, Except.mapError]
  rfl

end Machine

namespace StoredProgram

variable {stored : StoredProgram} {program : Program} {fuel : Nat}

def Holds (stored : StoredProgram) (program : Program) : Prop :=
  stored.arena.HoldsProgram stored.root program

theorem find?_of_forall₂ {arena : Arena} {nodes : List FunctionNode} {functions : List Function}
    (held : List.Forall₂ arena.HoldsFunction nodes functions) (name : String) :
    Option.Rel arena.HoldsFunction (nodes.find? fun node => node.name == name)
      (functions.find? fun function => function.name == name) := by
  induction held with
  | nil => exact .none
  | cons first others ih =>
      rw [List.find?_cons, List.find?_cons, first.name]
      split
      · exact .some first
      · exact ih

theorem Holds.function? (holds : stored.Holds program) (name : String) :
    Option.Rel stored.arena.HoldsFunction (stored.function? name)
      ((FunctionTable.ofProgram program).get? name) := by
  rw [FunctionTable.get?_ofProgram]
  exact find?_of_forall₂ (List.rel_reverse holds.functions) name

theorem expr_eq {number : Nat} {node : ExprNode}
    (found : stored.arena.exprs[number]? = some node) : stored.expr number = .ok node := by
  rw [expr, found, Breach.unlessFound]

theorem exprs_eq {range : ListRange} {numbers : List Nat}
    (listed : range.numbers? stored.arena.exprLists = some numbers) :
    stored.exprs range = .ok numbers := by
  rw [exprs, listed, Breach.unlessFound]

open Machine Outcome

/-- With this fuel, every expression is evaluated on its numbers as on its tree. -/
def ExprsStored (stored : StoredProgram) (program : Program) (fuel : Nat) : Prop :=
  ∀ ⦃number expr⦄, stored.arena.HoldsExpr number expr → ∀ machine : Machine,
    stored.evalExpr fuel number machine.stored =
      (Machine.evalExpr (.ofProgram program) fuel expr machine).attempt

namespace ExprsStored

theorem evalAll (exprsStored : ExprsStored stored program fuel) {numbers : List Nat}
    {exprs : List Expr} (held : stored.arena.HoldsExprs numbers exprs) (machine : Machine) :
    ArenaMachine.evalAll (stored.evalExpr fuel) numbers machine.stored =
      (Machine.evalAll (Machine.evalExpr (.ofProgram program) fuel) exprs machine).attempt := by
  match held with
  | .nil => rfl
  | .cons first others =>
      rw [ArenaMachine.evalAll, exprsStored first machine]
      apply attempt_andThen
      intro value machine
      rw [exprsStored.evalAll others machine]
      exact attempt_andThen _ fun values machine => rfl

theorem condition (exprsStored : ExprsStored stored program fuel) {number : Nat} {cond : Expr}
    (held : stored.arena.HoldsExpr number cond) (machine : Machine) (context : String)
    (owner : Site) :
    (stored.evalExpr fuel number machine.stored).condition context owner =
      ((Machine.evalExpr (.ofProgram program) fuel cond machine).condition context
        owner).attempt := by
  rw [exprsStored held machine, attempt_condition]

theorem next (holds : stored.Holds program) (exprsStored : ExprsStored stored program fuel) :
    ExprsStored stored program (fuel + 1) := by
  intro number expr held machine
  -- What the arena holds under the number is the node itself, with the numbers of its parts.
  cases held with
  | literal found =>
      rw [evalExpr, expr_eq found]
      rfl
  | var found =>
      rw [evalExpr, expr_eq found]
      simp only [Except.bind, Machine.stored, Environment.find_arena, Machine.evalExpr]
      cases machine.scopes.lookup _ <;> rfl
  | unary found part =>
      simp only [evalExpr, expr_eq found, Except.bind]
      rw [exprsStored part machine]
      exact attempt_andThen _ fun value machine => attempt_ofOperation ..
  | arith found leftPart rightPart =>
      simp only [evalExpr, expr_eq found, Except.bind]
      rw [exprsStored leftPart machine]
      apply attempt_andThen
      intro leftValue machine
      rw [exprsStored rightPart machine]
      apply attempt_andThen
      intro rightValue machine
      rw [ArithOp.applyStored_eq]
      exact attempt_ofOperation ..
  | logical found leftPart rightPart =>
      simp only [evalExpr, expr_eq found, Except.bind]
      rw [exprsStored.condition rightPart machine]
      apply attempt_andThen
      intro decided machine
      split
      · rfl
      · rw [exprsStored.condition leftPart machine, attempt_place]
        exact attempt_andThen _ fun value machine => rfl
  | ifThen found condPart thenPart =>
      simp only [evalExpr, expr_eq found, Except.bind]
      rw [exprsStored.condition condPart machine]
      apply attempt_andThen
      intro holds machine
      cases holds with
      | true => rw [if_pos rfl, if_pos rfl, exprsStored thenPart machine, attempt_place]
      | false => rfl
  | ifElse found condPart thenPart elsePart =>
      simp only [evalExpr, expr_eq found, Except.bind]
      rw [exprsStored.condition condPart machine]
      apply attempt_andThen
      intro holds machine
      cases holds with
      | true =>
          simp only [if_true]
          rw [exprsStored thenPart machine, attempt_place]
      | false =>
          simp only [Bool.false_eq_true, if_false]
          rw [exprsStored elsePart machine, attempt_place]
  | @call _ site callee _ _ _ found listed parts =>
      have declared := holds.function? callee
      simp only [evalExpr, expr_eq found, exprs_eq listed, Except.bind, Machine.evalExpr]
      generalize stored.function? callee = node?,
        (FunctionTable.ofProgram program).get? callee = function? at declared ⊢
      cases declared with
      | none => rfl
      | @some node function same =>
          simp only [exprsStored.evalAll parts machine]
          apply attempt_andThen
          intro values machine
          simp only [refusal?_stored machine same.name same.params]
          cases machine.refusal? function values with
          | some cause => rfl
          | none =>
              simp only [enter_stored machine same.name same.params, exprsStored same.body]
              rw [attempt_leave (snd_evalExpr ..), attempt_place]

end ExprsStored

theorem Holds.exprsStored (holds : stored.Holds program) (fuel : Nat) :
    ExprsStored stored program fuel := by
  induction fuel with
  | zero => exact fun _ _ held machine => rfl
  | succ fuel ih => exact ih.next holds

theorem stmt_eq {number : Nat} {node : StmtNode}
    (found : stored.arena.stmts[number]? = some node) : stored.stmt number = .ok node := by
  rw [stmt, found, Breach.unlessFound]

theorem stmts_eq {range : ListRange} {numbers : List Nat}
    (listed : range.numbers? stored.arena.stmtLists = some numbers) :
    stored.stmts range = .ok numbers := by
  rw [stmts, listed, Breach.unlessFound]

/-- With this fuel, every statement is run on its numbers as on its tree. -/
def StmtsStored (stored : StoredProgram) (program : Program) (fuel : Nat) : Prop :=
  ∀ ⦃number stmt⦄, stored.arena.HoldsStmt number stmt → ∀ machine : Machine,
    stored.execStmt fuel number machine.stored =
      (Machine.execStmt (.ofProgram program) fuel stmt machine).attempt

namespace StmtsStored

theorem execAll (stmtsStored : StmtsStored stored program fuel) {numbers : List Nat}
    {stmts : List Stmt} (held : stored.arena.HoldsStmts numbers stmts) (machine : Machine) :
    ArenaMachine.execAll (stored.execStmt fuel) numbers machine.stored =
      (Machine.execAll (Machine.execStmt (.ofProgram program) fuel) stmts machine).attempt := by
  match held with
  | .nil => rfl
  | .cons first others =>
      rw [ArenaMachine.execAll, stmtsStored first machine]
      apply attempt_andThen
      intro _ machine
      exact stmtsStored.execAll others machine

theorem execBlock (stmtsStored : StmtsStored stored program fuel) {node : BlockNode}
    {block : Block} (held : stored.arena.HoldsBlock node block) (machine : Machine) :
    stored.execBlock (stored.execStmt fuel) node machine.stored =
      (Machine.execAll (Machine.execStmt (.ofProgram program) fuel) block.stmts
        machine).attempt := by
  cases held with
  | mk listed parts =>
      simp only [StoredProgram.execBlock, stmts_eq listed, Except.bind]
      exact stmtsStored.execAll parts machine

theorem inScope (stmtsStored : StmtsStored stored program fuel) {node : BlockNode}
    {block : Block} (held : stored.arena.HoldsBlock node block) (machine : Machine) :
    ArenaMachine.inScope (stored.execBlock (stored.execStmt fuel) node) machine.stored =
      (Machine.inScope (Machine.execAll (Machine.execStmt (.ofProgram program) fuel) block.stmts)
        machine).attempt :=
  attempt_inScope machine ((stmtsGrow _ fuel).execAll block.stmts) (stmtsStored.execBlock held)

theorem next (holds : stored.Holds program) (stmtsStored : StmtsStored stored program fuel) :
    StmtsStored stored program (fuel + 1) := by
  intro number stmt held machine
  have exprsStored := holds.exprsStored fuel
  cases held with
  | assign found part =>
      simp only [execStmt, stmt_eq found, Except.bind]
      rw [exprsStored part machine]
      apply attempt_andThen
      intro value machine
      simp only [Machine.stored, Environment.put_arena]
      rfl
  | ifThen found condPart thenPart =>
      simp only [execStmt, stmt_eq found, Except.bind]
      rw [exprsStored.condition condPart machine]
      apply attempt_andThen
      intro holds machine
      cases holds with
      | true => exact stmtsStored.inScope thenPart machine
      | false => rfl
  | ifElse found condPart thenPart elsePart =>
      simp only [execStmt, stmt_eq found, Except.bind]
      rw [exprsStored.condition condPart machine]
      apply attempt_andThen
      intro holds machine
      cases holds with
      | true => exact stmtsStored.inScope thenPart machine
      | false => exact stmtsStored.inScope elsePart machine
  | whileLoop found condPart bodyPart =>
      simp only [execStmt, stmt_eq found, Except.bind]
      rw [exprsStored.condition condPart machine]
      apply attempt_andThen
      intro holds machine
      cases holds with
      | true =>
          simp only [if_true]
          rw [stmtsStored.inScope bodyPart machine]
          apply attempt_andThen
          intro _ machine
          exact stmtsStored (.whileLoop found condPart bodyPart) machine
      | false => rfl

end StmtsStored

theorem Holds.stmtsStored (holds : stored.Holds program) (fuel : Nat) :
    StmtsStored stored program fuel := by
  induction fuel with
  | zero => exact fun _ _ held machine => rfl
  | succ fuel ih => exact ih.next holds

/-- A program that an arena holds never breaks off, and it ends as its tree does. -/
theorem Holds.evaluate_eq (holds : stored.Holds program) (fuel : Nat) (limit? : Option Nat) :
    stored.evaluate fuel limit? = .ok (Sipl.evaluate fuel limit? program) := by
  have run := (holds.stmtsStored fuel).execBlock holds.body { calls := { limit? } }
  change stored.execBlock (stored.execStmt fuel) stored.root.body { calls := { limit? } } =
    (execProgram fuel limit? program).attempt at run
  rw [evaluate, run, Sipl.evaluate]
  obtain ⟨result, machine⟩ := execProgram fuel limit? program
  cases result with
  | ok value => simp only [attempt, Except.bind, Machine.stored, Environment.globals_arena]; rfl
  | error halt => cases halt <;> rfl

end StoredProgram

end Sipl
