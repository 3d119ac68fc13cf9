import Sipl.Proofs.Run.Blocks
import Sipl.Proofs.Run.FinalBindings

namespace Sipl

open Machine Outcome

namespace Bindings

def names (bindings : Bindings) : List String := bindings.entries.map Prod.fst

theorem mem_names_insert {bindings : Bindings} {name other : String} {value : Value} :
    other ∈ (bindings.insert name value).names ↔ other = name ∨ other ∈ bindings.names := by
  obtain ⟨entries⟩ := bindings
  simp only [names, insert]
  induction entries with
  | nil => simp [insertEntry]
  | cons first rest ih =>
      obtain ⟨bound, old⟩ := first
      rw [insertEntry]
      split
      · next same => simp [same]
      · split
        · simp
        · rw [List.map_cons, List.mem_cons, ih, List.map_cons, List.mem_cons, or_left_comm]

theorem mem_names_ofList {entries : List (String × Value)} {name : String} :
    name ∈ (ofList entries).names ↔ name ∈ entries.map Prod.fst := by
  have folded (bindings : Bindings) :
      name ∈
          (entries.foldl (fun bindings entry => bindings.insert entry.1 entry.2) bindings).names ↔
        name ∈ entries.map Prod.fst ∨ name ∈ bindings.names := by
    induction entries generalizing bindings with
    | nil => simp
    | cons first rest ih =>
        rw [List.foldl_cons, ih, mem_names_insert, List.map_cons, List.mem_cons, or_left_comm,
          or_assoc]
  exact (folded empty).trans (by simp [names, empty])

end Bindings

/-- The statement is itself an assignment to the variable. -/
def Stmt.Assigns (stmt : Stmt) (name : String) : Prop :=
  ∃ site value, stmt = .assign site name value

@[simp] theorem Stmt.assign_assigns_iff {site : Site} {target name : String} {value : Expr} :
    (assign site target value).Assigns name ↔ name = target := by
  simp [Assigns, eq_comm]

variable {table : FunctionTable}

/-- A statement that only has blocks of its own binds no name. -/
theorem keepsTo_of_nested (fuel : Nat) {stmt : Stmt} (nested : ∀ name, ¬ stmt.Assigns name)
    (machine : Machine) : machine.KeepsTo (execStmt table fuel stmt machine).2 := by
  induction fuel generalizing machine with
  | zero => exact .refl machine
  | succ fuel ih =>
      cases stmt with
      | assign site target value => exact absurd ⟨site, value, rfl⟩ (nested target)
      | ifThen site cond thenBlock =>
          apply (keepsTo_condition table fuel cond machine _ site).andThen
          intro holds machine
          cases holds with
          | true => exact (stmtsGrow table fuel).block thenBlock machine
          | false => exact .refl machine
      | ifElse site cond thenBlock elseBlock =>
          apply (keepsTo_condition table fuel cond machine _ site).andThen
          intro holds machine
          exact (stmtsGrow table fuel).block _ machine
      | whileLoop site cond body =>
          apply (keepsTo_condition table fuel cond machine _ site).andThen
          intro holds machine
          cases holds with
          | true =>
              apply ((stmtsGrow table fuel).block body machine).andThen
              intro _ machine
              exact ih machine
          | false => exact .refl machine

/-- No scope but the global one is open, and it binds the given names. -/
structure Environment.BindsGlobally (env : Environment) (bound : String → Prop) : Prop where
  outermost : env.inner = []
  names : ∀ name, name ∈ env.globals.map Prod.fst ↔ bound name

namespace Environment.BindsGlobally

variable {env later : Environment} {bound : String → Prop}

theorem assign (binds : env.BindsGlobally bound) (target : String) (value : Value) :
    (env.assign target value).BindsGlobally fun name => name = target ∨ bound name := by
  obtain ⟨inner, globals⟩ := env
  obtain rfl : inner = [] := binds.outermost
  have assigned : Environment.assign ⟨[], globals⟩ target value =
      ⟨[], Store.set target value globals⟩ := by
    rw [Environment.assign, rebindFrom?, bindHere]
    split <;> rfl
  rw [assigned]
  refine ⟨rfl, fun name => ?_⟩
  rw [Store.mem_names_set, ← binds.names name]

/-- What keeps every scope and its names keeps the names of the global scope. -/
theorem of_keeps (binds : env.BindsGlobally bound) (keeps : env.arena.Keeps later.arena) :
    later.BindsGlobally bound := by
  obtain ⟨inner, globals⟩ := env
  obtain rfl : inner = [] := binds.outermost
  obtain ⟨inner, others⟩ := later
  obtain rfl : inner = [] := List.length_eq_zero_iff.mp keeps.current
  have same : others.map Prod.fst = globals.map Prod.fst := Option.some.inj (keeps.names 0)
  exact ⟨rfl, fun name => by rw [same]; exact binds.names name⟩

end Environment.BindsGlobally

/-- A statement of the main block binds the variable it assigns to, if any, and nothing else. -/
theorem bindsGlobally_execStmt {fuel : Nat} {stmt : Stmt} {machine after : Machine}
    {bound : String → Prop} (binds : machine.scopes.BindsGlobally bound)
    (ran : execStmt table fuel stmt machine = (.ok (), after)) :
    after.scopes.BindsGlobally fun name => stmt.Assigns name ∨ bound name := by
  by_cases direct : ∃ target, stmt.Assigns target
  · obtain ⟨target, site, value, rfl⟩ := direct
    cases fuel with
    | zero => cases ran
    | succ fuel =>
        have rests := snd_evalExpr table fuel value machine
        rw [execStmt] at ran
        cases evaluated : evalExpr table fuel value machine with
        | mk result behind =>
            rw [evaluated] at rests ran
            obtain rfl : behind = machine := rests
            cases result with
            | error halt => cases ran
            | ok value =>
                cases ran
                simpa using binds.assign target value
  · have nested := not_exists.mp direct
    have kept : machine.KeepsTo (execStmt table fuel stmt machine).2 :=
      keepsTo_of_nested fuel nested machine
    rw [ran] at kept
    simpa [nested] using binds.of_keeps kept.scopes

theorem bindsGlobally_execAll {fuel : Nat} {stmts : List Stmt} {machine after : Machine}
    {bound : String → Prop} (binds : machine.scopes.BindsGlobally bound)
    (ran : execAll (execStmt table fuel) stmts machine = (.ok (), after)) :
    after.scopes.BindsGlobally fun name => (∃ stmt ∈ stmts, stmt.Assigns name) ∨ bound name := by
  induction stmts generalizing machine bound with
  | nil =>
      cases ran
      simpa using binds
  | cons stmt rest ih =>
      rw [execAll] at ran
      cases first : execStmt table fuel stmt machine with
      | mk result middle =>
          rw [first] at ran
          cases result with
          | error halt => cases ran
          | ok _ =>
              have reached := ih (bindsGlobally_execStmt binds first) ran
              refine ⟨reached.outermost, fun name => ?_⟩
              simp only [reached.names, List.mem_cons, or_and_right, exists_or, exists_eq_left]
              exact or_left_comm.trans or_assoc.symm

/-- A run that succeeds reports exactly the variables that are assigned to directly in the main
block, whatever path it took. -/
theorem reported_iff_assigned_directly (program : Program) (limit? : Option Nat) (fuel : Nat)
    (bindings : Bindings) (succeeded : evaluate fuel limit? program = some (.ok bindings))
    (name : String) :
    name ∈ bindings.names ↔ ∃ site value, Stmt.assign site name value ∈ program.body.stmts := by
  have start : ({} : Environment).BindsGlobally fun _ => False := ⟨rfl, by simp⟩
  rw [evaluate] at succeeded
  split at succeeded
  · next final ran =>
      cases succeeded
      rw [execProgram] at ran
      rw [Bindings.mem_names_ofList, (bindsGlobally_execAll (by exact start) ran).names, or_false]
      constructor
      · rintro ⟨_, member, site, value, rfl⟩
        exact ⟨site, value, member⟩
      · rintro ⟨site, value, member⟩
        exact ⟨_, member, site, value, rfl⟩
  · cases succeeded
  · cases succeeded

/-- The tree of `program func f(a) = a begin x := 2; while 0 < x do begin y := f(x); x := y - 1
end end`. -/
def countdown : Program where
  functions := [⟨⟨1, ⟨8, 21⟩⟩, "f", [⟨"a", ⟨15, 16⟩⟩], .var ⟨1, ⟨20, 21⟩⟩ "a"⟩]
  body := .mk ⟨22, 86⟩ [
    .assign ⟨1, ⟨28, 34⟩⟩ "x" (.literal ⟨1, ⟨33, 34⟩⟩ (.int 2)),
    .whileLoop ⟨1, ⟨36, 82⟩⟩
      (.arith ⟨1, ⟨42, 47⟩⟩ .lt (.literal ⟨1, ⟨42, 43⟩⟩ (.int 0)) (.var ⟨1, ⟨46, 47⟩⟩ "x"))
      (.mk ⟨51, 82⟩ [
        .assign ⟨1, ⟨57, 66⟩⟩ "y" (.call ⟨1, ⟨62, 66⟩⟩ "f" [.var ⟨1, ⟨64, 65⟩⟩ "x"]),
        .assign ⟨1, ⟨68, 78⟩⟩ "x" (.arith ⟨1, ⟨73, 78⟩⟩ .sub (.var ⟨1, ⟨73, 74⟩⟩ "y")
          (.literal ⟨1, ⟨77, 78⟩⟩ (.int 1)))])]

/-- The variable of the loop and the parameter of the function are not reported. -/
theorem reported_iff_assigned_directly_in_countdown :
    evaluate 9 none countdown = some (.ok ⟨[("x", .int 0)]⟩) ∧
      ∀ name, name ∈ Bindings.names ⟨[("x", .int 0)]⟩ ↔
        ∃ site value, Stmt.assign site name value ∈ countdown.body.stmts := by
  have succeeded : evaluate 9 none countdown = some (.ok ⟨[("x", .int 0)]⟩) := by rfl
  exact ⟨succeeded, reported_iff_assigned_directly countdown none 9 _ succeeded⟩

end Sipl
