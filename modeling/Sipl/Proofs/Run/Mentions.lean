import Sipl.Proofs.Run.Outcomes

namespace Sipl

open Machine Outcome

mutual

/-- The variables of an expression, without those in the bodies of the functions it calls. -/
def Expr.variables : Expr → List String
  | .literal _ _ => []
  | .var _ name => [name]
  | .unary _ _ operand => operand.variables
  | .arith _ _ left right => left.variables ++ right.variables
  | .logical _ _ left right => left.variables ++ right.variables
  | .ifThen _ cond thenBranch => cond.variables ++ thenBranch.variables
  | .ifElse _ cond thenBranch elseBranch =>
    cond.variables ++ thenBranch.variables ++ elseBranch.variables
  | .call _ _ args => Expr.argsVariables args

def Expr.argsVariables : List Expr → List String
  | [] => []
  | arg :: rest => arg.variables ++ Expr.argsVariables rest

end

/-- The same calls are active, and the names have the same values, whatever the scopes. -/
structure Machine.AgreesOn (machine other : Machine) (names : List String) : Prop where
  calls : machine.calls = other.calls
  lookups : ∀ name ∈ names, machine.scopes.lookup name = other.scopes.lookup name

namespace Machine.AgreesOn

variable {machine other : Machine} {names more : List String}

theorem mono (agrees : machine.AgreesOn other names) (fewer : more ⊆ names) :
    machine.AgreesOn other more :=
  ⟨agrees.calls, fun name member => agrees.lookups name (fewer member)⟩

theorem left (agrees : machine.AgreesOn other (names ++ more)) : machine.AgreesOn other names :=
  agrees.mono (List.subset_append_left ..)

theorem right (agrees : machine.AgreesOn other (names ++ more)) : machine.AgreesOn other more :=
  agrees.mono (List.subset_append_right ..)

/-- Inside of a call nothing is left of the scopes around it. -/
theorem enter (calls : machine.calls = other.calls) (function : Function) (values : List Value)
    (line : Nat) (names : List String) :
    (machine.enter function values line).AgreesOn (other.enter function values line) names := by
  refine ⟨?_, fun name _ => ?_⟩
  · rw [enter_eq, enter_eq, calls]
  · rw [lookup_enter, lookup_enter]

theorem refusal? (calls : machine.calls = other.calls) (function : Function)
    (values : List Value) : machine.refusal? function values = other.refusal? function values := by
  rw [Machine.refusal?, Machine.refusal?, calls]

end Machine.AgreesOn

namespace Outcome

variable {α β : Type} {one other : Outcome α}

theorem fst_andThen {next following : α → Machine → Outcome β} (first : one.1 = other.1)
    (second : ∀ value, (next value one.2).1 = (following value other.2).1) :
    (one.andThen next).1 = (other.andThen following).1 := by
  obtain ⟨result, machine⟩ := one
  obtain ⟨_, behind⟩ := other
  obtain rfl := first
  cases result with
  | ok value => exact second value
  | error halt => rfl

theorem fst_ofOperation (result : Except Cause α) (site : Site) (machine behind : Machine) :
    (ofOperation result site machine).1 = (ofOperation result site behind).1 := by
  cases result <;> rfl

theorem fst_place (same : one.1 = other.1) (site : Site) :
    (one.place site).1 = (other.place site).1 := by
  obtain ⟨result, machine⟩ := one
  obtain ⟨_, behind⟩ := other
  obtain rfl := same
  cases result with
  | ok value => rfl
  | error halt => cases halt <;> rfl

theorem fst_condition {one other : Outcome Value} (same : one.1 = other.1) (context : String)
    (owner : Site) : (one.condition context owner).1 = (other.condition context owner).1 := by
  obtain ⟨result, machine⟩ := one
  obtain ⟨_, behind⟩ := other
  obtain rfl := same
  cases result with
  | ok value => cases value <;> rfl
  | error halt => rfl

/-- The backtrace of an error is taken from the calls. -/
theorem fst_leave {one other : Outcome Value} (same : one.1 = other.1)
    (calls : one.2.calls = other.2.calls) : (leave one).1 = (leave other).1 := by
  obtain ⟨result, machine⟩ := one
  obtain ⟨_, behind⟩ := other
  obtain rfl := same
  cases result with
  | ok value => rfl
  | error halt =>
      cases halt with
      | outOfFuel => rfl
      | fault error =>
          have attached : machine.calls.attach error = behind.calls.attach error :=
            congrArg (CallStack.attach · error) calls
          simp only [leave, fault, attached]

end Outcome

variable {table : FunctionTable} {fuel : Nat} {machine other : Machine}

/-- With this fuel, expressions have one result on machines that agree on their variables. -/
def ExprsAgree (table : FunctionTable) (fuel : Nat) : Prop :=
  ∀ expr (machine other : Machine), machine.AgreesOn other expr.variables →
    (evalExpr table fuel expr machine).1 = (evalExpr table fuel expr other).1

namespace ExprsAgree

theorem evalAll (exprsAgree : ExprsAgree table fuel) (args : List Expr)
    (agrees : machine.AgreesOn other (Expr.argsVariables args)) :
    (evalAll (evalExpr table fuel) args machine).1 =
      (evalAll (evalExpr table fuel) args other).1 := by
  induction args with
  | nil => rfl
  | cons arg rest ih =>
      apply fst_andThen (exprsAgree arg machine other agrees.left)
      intro value
      rw [snd_evalExpr, snd_evalExpr]
      exact fst_andThen (ih agrees.right) fun values => rfl

theorem condition (exprsAgree : ExprsAgree table fuel) {cond : Expr}
    (agrees : machine.AgreesOn other cond.variables) (context : String) (owner : Site) :
    ((evalExpr table fuel cond machine).condition context owner).1 =
      ((evalExpr table fuel cond other).condition context owner).1 :=
  fst_condition (exprsAgree cond machine other agrees) context owner

/-- Calls of one function have one result if their arguments have, whatever the scopes. -/
theorem call (exprsAgree : ExprsAgree table fuel) {args others : List Expr}
    (calls : machine.calls = other.calls)
    (same : (Machine.evalAll (evalExpr table fuel) args machine).1 =
      (Machine.evalAll (evalExpr table fuel) others other).1) (site : Site) (callee : String) :
    (evalExpr table (fuel + 1) (.call site callee args) machine).1 =
      (evalExpr table (fuel + 1) (.call site callee others) other).1 := by
  simp only [evalExpr]
  cases table.get? callee with
  | none => rfl
  | some function =>
      apply fst_andThen same
      intro values
      simp only [snd_evalAll (snd_evalExpr table fuel · machine),
        snd_evalAll (snd_evalExpr table fuel · other), AgreesOn.refusal? calls]
      cases other.refusal? function values with
      | some cause => rfl
      | none =>
          have agrees := AgreesOn.enter calls function values site.line function.body.variables
          apply fst_place
          apply fst_leave (exprsAgree function.body _ _ agrees)
          rw [snd_evalExpr, snd_evalExpr, agrees.calls]

theorem next (exprsAgree : ExprsAgree table fuel) : ExprsAgree table (fuel + 1) := by
  intro expr machine other agrees
  cases expr with
  | literal site value => rfl
  | var site name =>
      simp only [evalExpr, agrees.lookups name List.mem_cons_self]
      cases other.scopes.lookup name <;> rfl
  | unary site op operand =>
      exact fst_andThen (exprsAgree operand machine other agrees) fun value => fst_ofOperation ..
  | arith site op left right =>
      apply fst_andThen (exprsAgree left machine other agrees.left)
      intro leftValue
      rw [snd_evalExpr, snd_evalExpr]
      exact fst_andThen (exprsAgree right machine other agrees.right) fun rightValue =>
        fst_ofOperation ..
  | logical site op left right =>
      apply fst_andThen (exprsAgree.condition agrees.right ..)
      intro decided
      rw [snd_condition, snd_condition, snd_evalExpr, snd_evalExpr]
      split
      · rfl
      · exact fst_andThen (fst_place (exprsAgree.condition agrees.left ..) site) fun value => rfl
  | ifThen site cond thenBranch =>
      apply fst_andThen (exprsAgree.condition agrees.left ..)
      intro holds
      rw [snd_condition, snd_condition, snd_evalExpr, snd_evalExpr]
      cases holds with
      | true => exact fst_place (exprsAgree thenBranch machine other agrees.right) site
      | false => rfl
  | ifElse site cond thenBranch elseBranch =>
      apply fst_andThen (exprsAgree.condition agrees.left.left ..)
      intro holds
      rw [snd_condition, snd_condition, snd_evalExpr, snd_evalExpr]
      apply fst_place
      cases holds with
      | true => exact exprsAgree thenBranch machine other agrees.left.right
      | false => exact exprsAgree elseBranch machine other agrees.right
  | call site callee args =>
      exact exprsAgree.call agrees.calls (exprsAgree.evalAll args agrees) site callee

end ExprsAgree

theorem exprsAgree (table : FunctionTable) (fuel : Nat) : ExprsAgree table fuel := by
  induction fuel with
  | zero => exact fun expr machine other agrees => rfl
  | succ fuel ih => exact ih.next

/-- An expression has one result, value or error with its place and its backtrace, in any two
environments that show the same values of its variables.  A call has one result in any two
environments in which its arguments have the same results. -/
theorem result_depends_on_variables (table : FunctionTable) (fuel : Nat) (calls : CallStack) :
    (∀ (expr : Expr) (scopes others : Environment),
      (∀ name ∈ expr.variables, scopes.lookup name = others.lookup name) →
        (evalExpr table fuel expr ⟨scopes, calls⟩).1 =
          (evalExpr table fuel expr ⟨others, calls⟩).1) ∧
      ∀ (site : Site) (callee : String) (args otherArgs : List Expr) (scopes others : Environment),
        (evalAll (evalExpr table fuel) args ⟨scopes, calls⟩).1 =
            (evalAll (evalExpr table fuel) otherArgs ⟨others, calls⟩).1 →
          (evalExpr table (fuel + 1) (.call site callee args) ⟨scopes, calls⟩).1 =
            (evalExpr table (fuel + 1) (.call site callee otherArgs) ⟨others, calls⟩).1 := by
  refine ⟨?_, ?_⟩
  · intro expr scopes others lookups
    exact exprsAgree table fuel expr ⟨scopes, calls⟩ ⟨others, calls⟩ ⟨rfl, lookups⟩
  · intro site callee args otherArgs scopes others same
    apply (exprsAgree table fuel).call _ same
    rfl

/-- The table of `func f(a) = a + b`. -/
def openBody : FunctionTable :=
  ⟨[⟨⟨1, ⟨0, 17⟩⟩, "f", [⟨"a", ⟨7, 8⟩⟩],
    .arith ⟨1, ⟨12, 17⟩⟩ .add (.var ⟨1, ⟨12, 13⟩⟩ "a") (.var ⟨1, ⟨16, 17⟩⟩ "b")⟩]⟩

/-- The variable of the body is not found, although it is bound around one of the calls.  It makes
no difference whether the argument is a variable or a number. -/
theorem result_depends_on_variables_of_openBody :
    let calls : CallStack := { limit? := none }
    let mentioned : List Expr := [.var ⟨2, ⟨25, 26⟩⟩ "x"]
    let written : List Expr := [.literal ⟨2, ⟨25, 26⟩⟩ (.int 3)]
    let call := Expr.call ⟨2, ⟨23, 27⟩⟩ "f"
    let scopes : Environment := ⟨[], [("b", .int 1), ("x", .int 3)]⟩
    let others : Environment := ⟨[⟨true, [("x", .int 3)]⟩], [("x", .bool true)]⟩
    (∀ name ∈ (call mentioned).variables, scopes.lookup name = others.lookup name) ∧
      (evalExpr openBody 3 (call mentioned) ⟨scopes, calls⟩).1 =
        (evalExpr openBody 3 (call mentioned) ⟨others, calls⟩).1 ∧
      (evalAll (evalExpr openBody 2) mentioned ⟨scopes, calls⟩).1 =
        (evalAll (evalExpr openBody 2) written ⟨others, calls⟩).1 ∧
      (evalExpr openBody 3 (call mentioned) ⟨scopes, calls⟩).1 =
        (evalExpr openBody 3 (call written) ⟨others, calls⟩).1 ∧
      (evalExpr openBody 3 (call written) ⟨others, calls⟩).1 =
        .error (.fault ⟨.undefinedVariable "b", some ⟨1, ⟨16, 17⟩⟩, some ⟨[⟨"f", 2⟩]⟩⟩) := by
  intro calls mentioned written call scopes others
  have lookups : ∀ name ∈ (call mentioned).variables, scopes.lookup name = others.lookup name := by
    decide
  have arguments : (evalAll (evalExpr openBody 2) mentioned ⟨scopes, calls⟩).1 =
      (evalAll (evalExpr openBody 2) written ⟨others, calls⟩).1 := by rfl
  exact ⟨lookups,
    (result_depends_on_variables openBody 3 calls).1 (call mentioned) scopes others lookups,
    arguments, (result_depends_on_variables openBody 2 calls).2 ⟨2, ⟨23, 27⟩⟩ "f" mentioned written
      scopes others arguments, by rfl⟩

end Sipl
