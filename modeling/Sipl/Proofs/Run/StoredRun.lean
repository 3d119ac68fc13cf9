import Sipl.Proofs.Run.Steps
import Sipl.Proofs.Tree.Stored

namespace Sipl

/-! A program that is held by an arena is run with its scopes in a row.  Nodes, lists and scopes are
referred to by number.  A run in which a number leads nowhere, in which scopes or calls are not
closed in order or in which a zero divisor is divided by breaks off, and is left as it stands. -/

/-- What a run breaks off for.  None of this is an error of the program. -/
inductive Breach where
  | missingExpr (number : Nat)
  | missingStmt (number : Nat)
  | missingList (range : ListRange)
  | missingScope (index : Nat)
  /-- The scope where names are looked up next does not stand in front. -/
  | endlessLookup (index : Nat)
  | zeroDivisor
  | misuse (misuse : Misuse)
  deriving DecidableEq

namespace Breach

def unlessFound {α : Type} (breach : Breach) : Option α → Except Breach α
  | some found => .ok found
  | none => .error breach

end Breach

namespace ScopeArena

/-- The nearest scope that binds a name, from a scope on. -/
def findOwner (slots : List ScopeSlot) (name : String) (index : Nat) :
    Except Breach (Option Nat) :=
  match slots[index]? with
  | none => .error (.missingScope index)
  | some slot =>
    if slot.store.binds name then
      .ok (some index)
    else
      match slot.parent? with
      | none => .ok none
      | some parent =>
        if parent < index then findOwner slots name parent else .error (.endlessLookup index)
termination_by index

def slot (arena : ScopeArena) (index : Nat) : Except Breach ScopeSlot :=
  (Breach.missingScope index).unlessFound arena.slots[index]?

def find (arena : ScopeArena) (name : String) : Except Breach (Option Value) := do
  match ← findOwner arena.slots name arena.current with
  | none => return none
  | some owner => return (← arena.slot owner).store.get? name

def put (arena : ScopeArena) (name : String) (value : Value) : Except Breach ScopeArena := do
  let target := (← findOwner arena.slots name arena.current).getD arena.current
  let slot ← arena.slot target
  return { arena with slots := arena.slots.set target (slot.set name value) }

def close (arena : ScopeArena) : Except Breach ScopeArena := arena.pop.mapError .misuse

/-- The bindings of the global scope. -/
def globals (arena : ScopeArena) : Except Breach Store := return (← arena.slot 0).store

end ScopeArena

/-- A division is carried out if the operator is not refused. -/
def ArithOp.applyStored (op : ArithOp) (left right : Value) : Except Breach (Except Cause Value) :=
  if op = .div ∧ right = .int 0 ∧ (op.apply left right).isOk then .error .zeroDivisor
  else .ok (op.apply left right)

/-- A value or the reason why there is none, and the machine as it was left. -/
abbrev StoredOutcome (α : Type) := Except Halt α × ArenaMachine

/-- A run that may break off. -/
abbrev Attempt (α : Type) := Except Breach (StoredOutcome α)

namespace Attempt

variable {α β : Type}

def done (value : α) (machine : ArenaMachine) : Attempt α := .ok (.ok value, machine)

def fault (error : RuntimeError) (machine : ArenaMachine) : Attempt α :=
  .ok (.error (.fault error), machine)

/-- Go on if there is a value. -/
@[inline] def andThen (attempt : Attempt α) (next : α → ArenaMachine → Attempt β) : Attempt β :=
  match attempt with
  | .ok (.ok value, machine) => next value machine
  | .ok (.error halt, machine) => .ok (.error halt, machine)
  | .error breach => .error breach

def place (attempt : Attempt α) (site : Site) : Attempt α :=
  match attempt with
  | .ok (.error (.fault error), machine) => fault (error.orAt site) machine
  | settled => settled

def ofOperation (result : Except Cause α) (site : Site) (machine : ArenaMachine) : Attempt α :=
  match result with
  | .ok value => done value machine
  | .error cause => fault { cause, site? := some site } machine

def condition (attempt : Attempt Value) (context : String) (owner : Site) : Attempt Bool :=
  attempt.andThen fun value machine =>
    match value with
    | .bool value => done value machine
    | .int value =>
      fault { cause := .typeMismatch context .boolean (Value.int value).type, site? := some owner }
        machine

end Attempt

namespace ArenaMachine

open Attempt

def refusal? (machine : ArenaMachine) (function : FunctionNode) (values : List Value) :
    Option Cause :=
  if values.length ≠ function.params.length then
    some (.arityMismatch function.name function.params.length values.length)
  else
    machine.calls.refusal?

def enter (machine : ArenaMachine) (function : FunctionNode) (values : List Value) (line : Nat) :
    Except Breach ArenaMachine := do
  let scopes ← (function.params.zip values).foldlM
    (fun scopes (param, value) => scopes.put param.name value) machine.scopes.pushDetached
  return ⟨scopes, machine.calls.enter ⟨function.name, line⟩⟩

/-- Close the scope of a call and leave the call. -/
def exit (machine : ArenaMachine) : Except Breach ArenaMachine := do
  let scopes ← machine.scopes.close
  let calls ← (Breach.misuse .noCallToLeave).unlessFound machine.calls.pop?
  return ⟨scopes, calls⟩

def leave (attempt : Attempt Value) : Attempt Value :=
  attempt.bind fun (result, machine) =>
    machine.exit.map fun outside =>
      match result with
      | .error (.fault error) => (.error (.fault (machine.calls.attach error)), outside)
      | settled => (settled, outside)

def inScope (exec : ArenaMachine → Attempt Unit) (machine : ArenaMachine) : Attempt Unit :=
  (exec { machine with scopes := machine.scopes.push }).bind fun (result, machine) =>
    machine.scopes.close.map fun scopes => (result, { machine with scopes })

def evalAll (eval : Nat → ArenaMachine → Attempt Value) :
    List Nat → ArenaMachine → Attempt (List Value)
  | [], machine => done [] machine
  | number :: rest, machine =>
    (eval number machine).andThen fun value machine =>
      (evalAll eval rest machine).andThen fun values machine => done (value :: values) machine

def execAll (exec : Nat → ArenaMachine → Attempt Unit) : List Nat → ArenaMachine → Attempt Unit
  | [], machine => done () machine
  | number :: rest, machine =>
    (exec number machine).andThen fun _ machine => execAll exec rest machine

end ArenaMachine

/-- An arena and the root of a program in it. -/
structure StoredProgram where
  arena : Arena
  root : ProgramNode

namespace StoredProgram

open Attempt ArenaMachine

variable (program : StoredProgram)

/-- Of several declarations of one name the last one counts. -/
def function? (name : String) : Option FunctionNode :=
  program.root.functions.reverse.find? fun function => function.name == name

def expr (number : Nat) : Except Breach ExprNode :=
  (Breach.missingExpr number).unlessFound program.arena.exprs[number]?

def exprs (range : ListRange) : Except Breach (List Nat) :=
  (Breach.missingList range).unlessFound (range.numbers? program.arena.exprLists)

def stmt (number : Nat) : Except Breach StmtNode :=
  (Breach.missingStmt number).unlessFound program.arena.stmts[number]?

def stmts (range : ListRange) : Except Breach (List Nat) :=
  (Breach.missingList range).unlessFound (range.numbers? program.arena.stmtLists)

def evalExpr : Nat → Nat → ArenaMachine → Attempt Value
  | 0, _, machine => .ok (.error .outOfFuel, machine)
  | fuel + 1, number, machine =>
    (program.expr number).bind fun node =>
      match node with
      | .literal _ value => done (.ofLiteral value) machine
      | .var site name =>
        (machine.scopes.find name).bind fun
          | some value => done value machine
          | none => fault { cause := .undefinedVariable name, site? := some site } machine
      | .unary site op operand =>
        (evalExpr fuel operand machine).andThen fun value machine =>
          ofOperation (op.apply value) site machine
      | .arith site op left right =>
        (evalExpr fuel left machine).andThen fun leftValue machine =>
          (evalExpr fuel right machine).andThen fun rightValue machine =>
            (op.applyStored leftValue rightValue).bind fun result => ofOperation result site machine
      | .logical site op left right =>
        ((evalExpr fuel right machine).condition (quoted op.symbol) site).andThen
          fun decided machine =>
            if op.decides decided then
              done (.bool decided) machine
            else
              (((evalExpr fuel left machine).condition (quoted op.symbol) site).place
                site).andThen fun value machine => done (.bool value) machine
      | .ifThen site cond thenBranch =>
        ((evalExpr fuel cond machine).condition "condition of 'if'" site).andThen
          fun holds machine =>
            if holds then
              (evalExpr fuel thenBranch machine).place site
            else
              fault { cause := .missingElse, site? := some site } machine
      | .ifElse site cond thenBranch elseBranch =>
        ((evalExpr fuel cond machine).condition "condition of 'if'" site).andThen
          fun holds machine =>
            (evalExpr fuel (if holds then thenBranch else elseBranch) machine).place site
      | .call site callee range =>
        match program.function? callee with
        | none => fault { cause := .undefinedFunction callee } machine
        | some function =>
          (program.exprs range).bind fun args =>
            (evalAll (evalExpr fuel) args machine).andThen fun values machine =>
              match machine.refusal? function values with
              | some cause => fault { cause, site? := some site } machine
              | none =>
                (machine.enter function values site.line).bind fun inside =>
                  (leave (evalExpr fuel function.body inside)).place site

def execBlock (exec : Nat → ArenaMachine → Attempt Unit) (block : BlockNode)
    (machine : ArenaMachine) : Attempt Unit :=
  (program.stmts block.stmts).bind fun numbers => execAll exec numbers machine

def execStmt : Nat → Nat → ArenaMachine → Attempt Unit
  | 0, _, machine => .ok (.error .outOfFuel, machine)
  | fuel + 1, number, machine =>
    (program.stmt number).bind fun node =>
      match node with
      | .assign _ target value =>
        (program.evalExpr fuel value machine).andThen fun value machine =>
          (machine.scopes.put target value).bind fun scopes => done () { machine with scopes }
      | .ifThen site cond thenBlock =>
        ((program.evalExpr fuel cond machine).condition "condition of 'if'" site).andThen
          fun holds machine =>
            if holds then inScope (program.execBlock (execStmt fuel) thenBlock) machine
            else done () machine
      | .ifElse site cond thenBlock elseBlock =>
        ((program.evalExpr fuel cond machine).condition "condition of 'if'" site).andThen
          fun holds machine =>
            inScope (program.execBlock (execStmt fuel) (if holds then thenBlock else elseBlock))
              machine
      | .whileLoop site cond body =>
        ((program.evalExpr fuel cond machine).condition "condition of 'while'" site).andThen
          fun holds machine =>
            if holds then
              (inScope (program.execBlock (execStmt fuel) body) machine).andThen
                fun _ machine => execStmt fuel number machine
            else
              done () machine

/-- The final global bindings or the first error; nothing if the fuel did not suffice. -/
def evaluate (fuel : Nat) (limit? : Option Nat) :
    Except Breach (Option (Except RuntimeError Bindings)) :=
  (program.execBlock (program.execStmt fuel) program.root.body { calls := { limit? } }).bind fun
    | (.ok (), machine) => machine.scopes.globals.map fun store => some (.ok (.ofList store))
    | (.error (.fault error), _) => .ok (some (.error error))
    | (.error .outOfFuel, _) => .ok none

end StoredProgram

end Sipl
