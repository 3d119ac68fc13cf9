import Sipl.Proofs.Run.Outcomes
import Sipl.Proofs.Run.ScopeArena

namespace Sipl

open Machine Outcome

/-- A sequence leads as far as its parts do, whichever of them is the last to run. -/
theorem Outcome.snd_andThen_of_trans {α β : Type} {Leads : Machine → Machine → Prop}
    {outcome : Outcome α} {next : α → Machine → Outcome β} {before : Machine}
    (trans : ∀ {first second third}, Leads first second → Leads second third → Leads first third)
    (first : Leads before outcome.2)
    (second : ∀ value (machine : Machine), Leads machine (next value machine).2) :
    Leads before (outcome.andThen next).2 := by
  obtain ⟨result, machine⟩ := outcome
  cases result with
  | ok value => exact trans first (second value machine)
  | error halt => exact first

/-- Calls are as they were, and so are scopes up to values on the chain and names in the current
scope. -/
structure Machine.GrowsTo (before after : Machine) : Prop where
  calls : after.calls = before.calls
  scopes : before.scopes.arena.Grows after.scopes.arena

namespace Machine.GrowsTo

variable {before middle after : Machine} {α β : Type} {outcome : Outcome α}

theorem refl (machine : Machine) : machine.GrowsTo machine := ⟨rfl, .refl _⟩

theorem trans (first : before.GrowsTo middle) (second : middle.GrowsTo after) :
    before.GrowsTo after :=
  ⟨second.calls.trans first.calls, first.scopes.trans second.scopes⟩

theorem assign (machine : Machine) (name : String) (value : Value) :
    machine.GrowsTo { machine with scopes := machine.scopes.assign name value } := by
  refine ⟨rfl, ?_⟩
  rw [Environment.arena_assign]
  exact ScopeArena.grows_assign ..

theorem andThen {next : α → Machine → Outcome β} (first : before.GrowsTo outcome.2)
    (second : ∀ value (machine : Machine), machine.GrowsTo (next value machine).2) :
    before.GrowsTo (outcome.andThen next).2 :=
  snd_andThen_of_trans trans first second

end Machine.GrowsTo

/-- Calls are as they were, and so are scopes up to values on the chain. -/
structure Machine.KeepsTo (before after : Machine) : Prop where
  calls : after.calls = before.calls
  scopes : before.scopes.arena.Keeps after.scopes.arena

namespace Machine.KeepsTo

variable {before middle after : Machine} {α β : Type} {outcome : Outcome α}

theorem growsTo (kept : before.KeepsTo after) : before.GrowsTo after :=
  ⟨kept.calls, kept.scopes.toGrows⟩

theorem refl (machine : Machine) : machine.KeepsTo machine := ⟨rfl, .refl _⟩

theorem trans (first : before.KeepsTo middle) (second : middle.KeepsTo after) :
    before.KeepsTo after :=
  ⟨second.calls.trans first.calls, first.scopes.trans second.scopes⟩

theorem andThen {next : α → Machine → Outcome β} (first : before.KeepsTo outcome.2)
    (second : ∀ value (machine : Machine), machine.KeepsTo (next value machine).2) :
    before.KeepsTo (outcome.andThen next).2 :=
  snd_andThen_of_trans trans first second

end Machine.KeepsTo

section

variable {exec : Machine → Outcome Unit} (machine : Machine)
  (grows : ∀ machine : Machine, machine.GrowsTo (exec machine).2)

include grows

/-- When the scope of a block is closed, it is the last one and not the global one. -/
theorem Machine.pop_inScope :
    (exec { machine with scopes := machine.scopes.push }).2.scopes.arena.pop =
      .ok (inScope exec machine).2.scopes.arena := by
  have inside := (grows { machine with scopes := machine.scopes.push }).scopes
  rw [Environment.arena_push] at inside
  have deeper :
      (exec { machine with scopes := machine.scopes.push }).2.scopes.arena.current ≠ 0 := by
    have filled : machine.scopes.arena.slots.length ≠ 0 := by
      rw [← Environment.latest_arena machine.scopes]
      exact Nat.succ_ne_zero _
    rw [inside.current]
    exact filled
  exact Environment.arena_pop deeper

theorem Machine.keepsTo_inScope : machine.KeepsTo (inScope exec machine).2 := by
  have inside := grows { machine with scopes := machine.scopes.push }
  refine ⟨inside.calls, ?_⟩
  have scopes := inside.scopes
  rw [Environment.arena_push] at scopes
  have latest := Environment.latest_arena machine.scopes
  have popped := (pop_inScope machine grows).symm.trans (scopes.pop_push latest)
  rw [Except.ok.inj popped]
  exact scopes.keeps_dropLast latest

end

/-- With this fuel, every statement leaves calls and scopes as they were, up to values and new names
in the current scope. -/
def StmtsGrow (table : FunctionTable) (fuel : Nat) : Prop :=
  ∀ stmt (machine : Machine), machine.GrowsTo (execStmt table fuel stmt machine).2

variable {table : FunctionTable} {fuel : Nat}

theorem StmtsGrow.execAll (stmtsGrow : StmtsGrow table fuel) (stmts : List Stmt)
    (machine : Machine) : machine.GrowsTo (execAll (execStmt table fuel) stmts machine).2 := by
  induction stmts generalizing machine with
  | nil => exact .refl machine
  | cons stmt rest ih => exact (stmtsGrow stmt machine).andThen fun _ machine => ih machine

theorem StmtsGrow.block (stmtsGrow : StmtsGrow table fuel) (block : Block) (machine : Machine) :
    machine.KeepsTo (inScope (Machine.execAll (execStmt table fuel) block.stmts) machine).2 :=
  keepsTo_inScope machine (stmtsGrow.execAll block.stmts)

/-- A condition leaves the machine as it was. -/
theorem Machine.keepsTo_condition (table : FunctionTable) (fuel : Nat) (cond : Expr)
    (machine : Machine) (context : String) (owner : Site) :
    machine.KeepsTo ((evalExpr table fuel cond machine).condition context owner).2 := by
  rw [snd_condition, snd_evalExpr]
  exact .refl machine

theorem Machine.growsTo_condition (table : FunctionTable) (fuel : Nat) (cond : Expr)
    (machine : Machine) (context : String) (owner : Site) :
    machine.GrowsTo ((evalExpr table fuel cond machine).condition context owner).2 :=
  (keepsTo_condition table fuel cond machine context owner).growsTo

theorem StmtsGrow.next (stmtsGrow : StmtsGrow table fuel) : StmtsGrow table (fuel + 1) := by
  intro stmt machine
  cases stmt with
  | assign site target value =>
      have kept : machine.GrowsTo (evalExpr table fuel value machine).2 := by
        rw [snd_evalExpr]
        exact .refl machine
      exact kept.andThen fun value machine => .assign machine target value
  | ifThen site cond thenBlock =>
      apply (growsTo_condition table fuel cond machine _ site).andThen
      intro holds machine
      cases holds with
      | true => exact (stmtsGrow.block thenBlock machine).growsTo
      | false => exact .refl machine
  | ifElse site cond thenBlock elseBlock =>
      apply (growsTo_condition table fuel cond machine _ site).andThen
      intro holds machine
      exact (stmtsGrow.block _ machine).growsTo
  | whileLoop site cond body =>
      apply (growsTo_condition table fuel cond machine _ site).andThen
      intro holds machine
      cases holds with
      | true =>
          apply (stmtsGrow.block body machine).growsTo.andThen
          intro _ machine
          exact stmtsGrow (.whileLoop site cond body) machine
      | false => exact .refl machine

theorem stmtsGrow (table : FunctionTable) (fuel : Nat) : StmtsGrow table fuel := by
  induction fuel with
  | zero => exact fun stmt machine => .refl machine
  | succ fuel ih => exact ih.next

end Sipl
