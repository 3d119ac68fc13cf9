import Sipl.Proofs.Run.Discipline

namespace Sipl

open Machine Outcome

def Cause.overflows : Cause → Bool
  | callDepthExceeded _ => true
  | _ => false

/-- Operations on values do not call. -/
theorem UnaryOp.not_overflows {op : UnaryOp} {operand : Value} {cause : Cause}
    (failed : op.apply operand = .error cause) : cause.overflows = false := by
  cases op <;> cases operand <;> cases failed <;> rfl

theorem ArithOp.not_overflows {op : ArithOp} {left right : Value} {cause : Cause}
    (failed : op.apply left right = .error cause) : cause.overflows = false := by
  unfold apply at failed
  split at failed
  · cases failed
    rfl
  · cases left <;> cases right <;> cases failed <;> rfl

/-- An error of a call beyond the limit, met again with some calls active: it tells the limit, and
it knows the calls it was raised under as soon as one of them has been left. -/
structure RuntimeError.Overflow (limit active : Nat) (error : RuntimeError) : Prop where
  cause : error.cause = .callDepthExceeded limit
  backtrace : error.backtrace?.map (·.frames.length) = if active = limit then none else some limit

/-- When a call is left, the error has learnt as many calls as the limit allows. -/
theorem RuntimeError.Overflow.leave {limit : Nat} {calls : CallStack} {error : RuntimeError}
    (raised : error.Overflow limit calls.depth) (within : calls.Within (some limit))
    (inside : calls.depth ≠ 0) : (calls.attach error).Overflow limit calls.pop.depth := by
  refine ⟨(calls.cause_attach error).trans raised.cause, ?_⟩
  have bounded := within.depth limit rfl
  have fewer : calls.pop.depth ≠ limit := by
    rw [CallStack.depth_pop]
    omega
  have active : calls.frames.isEmpty = false := by simpa [CallStack.depth] using inside
  have backtrace := raised.backtrace
  -- An error without a backtrace comes from the call that was refused: all the calls are active.
  rw [if_neg fewer, CallStack.attach, active, Bool.false_or]
  cases known : error.backtrace? with
  | some found =>
      rw [known] at backtrace
      split at backtrace
      · cases backtrace
      · simpa [known] using backtrace
  | none =>
      rw [known] at backtrace
      split at backtrace
      · next full => simpa [withBacktrace, CallStack.capture, CallStack.depth] using full
      · cases backtrace

/-- The same machine under another limit. -/
def Machine.withLimit (machine : Machine) (more? : Option Nat) : Machine :=
  ⟨machine.scopes, more?, machine.calls.frames⟩

/-- How a run under a limit compares with the same run under another one: it ends alike, or the
limit was exceeded. -/
inductive Outcome.CarriesOver {α : Type} (limit : Nat) (more? : Option Nat) :
    Outcome α → Outcome α → Prop where
  | value {value : α} {machine : Machine} (within : machine.calls.Within (some limit)) :
      CarriesOver limit more? (.ok value, machine) (.ok value, machine.withLimit more?)
  | fault {error : RuntimeError} {machine : Machine} (plain : error.cause.overflows = false)
      (within : machine.calls.Within (some limit)) :
      CarriesOver limit more? (.error (.fault error), machine)
        (.error (.fault error), machine.withLimit more?)
  | outOfFuel {machine : Machine} (within : machine.calls.Within (some limit)) :
      CarriesOver limit more? (.error .outOfFuel, machine)
        (.error .outOfFuel, machine.withLimit more?)
  | overflow {error : RuntimeError} {machine : Machine} {other : Outcome α}
      (within : machine.calls.Within (some limit))
      (raised : error.Overflow limit machine.calls.depth) :
      CarriesOver limit more? (.error (.fault error), machine) other

namespace Outcome.CarriesOver

variable {α β : Type} {limit : Nat} {more? : Option Nat} {outcome other : Outcome α}
  {machine : Machine}

theorem andThen {next otherNext : α → Machine → Outcome β}
    (carries : outcome.CarriesOver limit more? other)
    (following : ∀ value (machine : Machine), machine.calls.Within (some limit) →
      (next value machine).CarriesOver limit more? (otherNext value (machine.withLimit more?))) :
    (outcome.andThen next).CarriesOver limit more? (other.andThen otherNext) := by
  cases carries with
  | value within => exact following _ _ within
  | fault plain within => exact .fault plain within
  | outOfFuel within => exact .outOfFuel within
  | overflow within raised => exact .overflow within raised

theorem ofOperation {result : Except Cause α}
    (plain : ∀ cause, result = .error cause → cause.overflows = false)
    (within : machine.calls.Within (some limit)) (site : Site) :
    (ofOperation result site machine).CarriesOver limit more?
      (Outcome.ofOperation result site (machine.withLimit more?)) := by
  cases result with
  | ok value => exact .value within
  | error cause => exact .fault (plain cause rfl) within

theorem place (carries : outcome.CarriesOver limit more? other) (site : Site) :
    (outcome.place site).CarriesOver limit more? (other.place site) := by
  cases carries with
  | value within => exact .value within
  | fault plain within => exact .fault plain within
  | outOfFuel within => exact .outOfFuel within
  | overflow within raised => exact .overflow within ⟨raised.cause, raised.backtrace⟩

theorem condition {outcome other : Outcome Value} (carries : outcome.CarriesOver limit more? other)
    (context : String) (owner : Site) :
    (outcome.condition context owner).CarriesOver limit more? (other.condition context owner) := by
  cases carries with
  | @value value machine within =>
      cases value with
      | int value => exact .fault rfl within
      | bool value => exact .value within
  | fault plain within => exact .fault plain within
  | outOfFuel within => exact .outOfFuel within
  | overflow within raised => exact .overflow within raised

theorem inScope {exec otherExec : Machine → Outcome Unit}
    (within : machine.calls.Within (some limit))
    (inner : ∀ machine : Machine, machine.calls.Within (some limit) →
      (exec machine).CarriesOver limit more? (otherExec (machine.withLimit more?))) :
    (Machine.inScope exec machine).CarriesOver limit more?
      (Machine.inScope otherExec (machine.withLimit more?)) := by
  have inside := inner { machine with scopes := machine.scopes.push } within
  unfold Machine.inScope
  generalize exec _ = outcome at inside ⊢
  have same : otherExec (Machine.withLimit { machine with scopes := machine.scopes.push } more?) =
      otherExec { machine.withLimit more? with scopes := (machine.withLimit more?).scopes.push } :=
    rfl
  rw [same] at inside
  generalize otherExec _ = other at inside ⊢
  cases inside with
  | value within => exact .value within
  | fault plain within => exact .fault plain within
  | outOfFuel within => exact .outOfFuel within
  | overflow within raised => exact .overflow within raised

/-- When a call is left, an error of a call beyond the limit has learnt as many calls as the limit
allows. -/
theorem leave {outcome other : Outcome Value} (carries : outcome.CarriesOver limit more? other)
    (inside : outcome.2.calls.depth ≠ 0) :
    (Machine.leave outcome).CarriesOver limit more? (Machine.leave other) := by
  cases carries with
  | value within => exact .value within.pop
  | fault plain within =>
      refine .fault ?_ within.pop
      rw [CallStack.cause_attach]
      exact plain
  | outOfFuel within => exact .outOfFuel within.pop
  | overflow within raised => exact .overflow within.pop (raised.leave within inside)

end Outcome.CarriesOver

/-- A looser limit refuses a call for the same reason, if the reason is not the limit. -/
theorem Machine.refusal?_withLimit {limit : Nat} {more? : Option Nat} {machine : Machine}
    (looser : ∀ more ∈ more?, limit ≤ more) (within : machine.calls.Within (some limit))
    (function : Function) (values : List Value) :
    machine.refusal? function values = some (.callDepthExceeded limit) ∧
        machine.calls.depth = limit ∨
      (machine.withLimit more?).refusal? function values = machine.refusal? function values ∧
        ∀ cause, machine.refusal? function values = some cause → cause.overflows = false := by
  have bounded := within.depth limit rfl
  rw [refusal?, refusal?]
  by_cases fit : values.length = function.params.length
  · rw [if_neg (not_not_intro fit), if_neg (not_not_intro fit)]
    by_cases full : limit ≤ machine.calls.depth
    · left
      refine ⟨?_, Nat.le_antisymm bounded full⟩
      rw [CallStack.refusal?, within.limit]
      simp [full]
    · right
      have active : machine.calls.depth < limit := Nat.lt_of_not_le full
      have free : machine.calls.refusal? = none := by
        rw [CallStack.refusal?_eq_none_iff, within.limit]
        intro reached known
        cases known
        exact active
      have freeAgain : (machine.withLimit more?).calls.refusal? = none := by
        rw [CallStack.refusal?_eq_none_iff]
        intro more known
        exact Nat.lt_of_lt_of_le active (looser more known)
      rw [free, freeAgain]
      exact ⟨rfl, fun cause refused => by cases refused⟩
  · right
    rw [if_pos fit, if_pos fit]
    exact ⟨rfl, fun cause refused => by cases refused; rfl⟩

/-- With this fuel, every expression has the same outcome under the other limit, unless the limit is
exceeded. -/
def ExprsCarryOver (limit : Nat) (more? : Option Nat) (table : FunctionTable) (fuel : Nat) : Prop :=
  ∀ expr (machine : Machine), machine.calls.Within (some limit) →
    (evalExpr table fuel expr machine).CarriesOver limit more?
      (evalExpr table fuel expr (machine.withLimit more?))

variable {limit : Nat} {more? : Option Nat} {table : FunctionTable} {fuel : Nat}
  {machine : Machine}

namespace ExprsCarryOver

theorem evalAll (carryOver : ExprsCarryOver limit more? table fuel) (exprs : List Expr)
    (within : machine.calls.Within (some limit)) :
    (evalAll (evalExpr table fuel) exprs machine).CarriesOver limit more?
      (evalAll (evalExpr table fuel) exprs (machine.withLimit more?)) := by
  induction exprs generalizing machine with
  | nil => exact .value within
  | cons expr rest ih =>
      apply (carryOver expr machine within).andThen
      intro value machine within
      exact (ih within).andThen fun values machine within => .value within

theorem next (looser : ∀ more ∈ more?, limit ≤ more)
    (carryOver : ExprsCarryOver limit more? table fuel) :
    ExprsCarryOver limit more? table (fuel + 1) := by
  intro expr machine within
  cases expr with
  | literal site value => exact .value within
  | var site name =>
      have same : (machine.withLimit more?).scopes.lookup name = machine.scopes.lookup name := rfl
      simp only [evalExpr, same]
      cases machine.scopes.lookup name with
      | some value => exact .value within
      | none => exact .fault rfl within
  | unary site op operand =>
      apply (carryOver operand machine within).andThen
      intro value machine within
      exact .ofOperation (fun cause failed => op.not_overflows failed) within site
  | arith site op left right =>
      apply (carryOver left machine within).andThen
      intro leftValue machine within
      apply (carryOver right machine within).andThen
      intro rightValue machine within
      exact .ofOperation (fun cause failed => op.not_overflows failed) within site
  | logical site op left right =>
      apply ((carryOver right machine within).condition ..).andThen
      intro decided machine within
      split
      · exact .value within
      · apply (((carryOver left machine within).condition ..).place site).andThen
        intro value machine within
        exact .value within
  | ifThen site cond thenBranch =>
      apply ((carryOver cond machine within).condition ..).andThen
      intro holds machine within
      cases holds with
      | true => exact (carryOver thenBranch machine within).place site
      | false => exact .fault rfl within
  | ifElse site cond thenBranch elseBranch =>
      apply ((carryOver cond machine within).condition ..).andThen
      intro holds machine within
      exact (carryOver _ machine within).place site
  | call site callee args =>
      simp only [evalExpr]
      cases table.get? callee with
      | none => exact .fault rfl within
      | some function =>
          apply (carryOver.evalAll args within).andThen
          intro values machine within
          rcases refusal?_withLimit looser within function values with
            ⟨refused, full⟩ | ⟨same, plain⟩
          -- Beyond the limit nothing is asked of the other run any more.
          · rw [refused]
            refine .overflow within ⟨rfl, ?_⟩
            rw [if_pos full]
            rfl
          · rw [same]
            cases refused : machine.refusal? function values with
            | some cause => exact .fault (plain cause refused) within
            | none =>
                have entered := within.enter ⟨function.name, site.line⟩ (free_of_refusal? refused)
                have deeper : (machine.enter function values site.line).calls.depth =
                    machine.calls.depth + 1 := CallStack.depth_enter ..
                have body :=
                  carryOver function.body (machine.enter function values site.line) entered
                refine (body.leave ?_).place site
                rw [snd_evalExpr, deeper]
                exact Nat.succ_ne_zero _

end ExprsCarryOver

theorem exprsCarryOver (looser : ∀ more ∈ more?, limit ≤ more) (table : FunctionTable)
    (fuel : Nat) : ExprsCarryOver limit more? table fuel := by
  induction fuel with
  | zero => exact fun expr machine within => .outOfFuel within
  | succ fuel ih => exact ih.next looser

/-- With this fuel, every statement has the same outcome under the other limit, unless the limit is
exceeded. -/
def StmtsCarryOver (limit : Nat) (more? : Option Nat) (table : FunctionTable) (fuel : Nat) : Prop :=
  ∀ stmt (machine : Machine), machine.calls.Within (some limit) →
    (execStmt table fuel stmt machine).CarriesOver limit more?
      (execStmt table fuel stmt (machine.withLimit more?))

namespace StmtsCarryOver

theorem execAll (carryOver : StmtsCarryOver limit more? table fuel) (stmts : List Stmt)
    (within : machine.calls.Within (some limit)) :
    (execAll (execStmt table fuel) stmts machine).CarriesOver limit more?
      (execAll (execStmt table fuel) stmts (machine.withLimit more?)) := by
  induction stmts generalizing machine with
  | nil => exact .value within
  | cons stmt rest ih =>
      apply (carryOver stmt machine within).andThen
      intro _ machine within
      exact ih within

theorem block (carryOver : StmtsCarryOver limit more? table fuel) (block : Block)
    (within : machine.calls.Within (some limit)) :
    (inScope (Machine.execAll (execStmt table fuel) block.stmts) machine).CarriesOver limit more?
      (inScope (Machine.execAll (execStmt table fuel) block.stmts) (machine.withLimit more?)) := by
  apply CarriesOver.inScope within
  intro machine within
  exact carryOver.execAll block.stmts within

theorem next (looser : ∀ more ∈ more?, limit ≤ more)
    (carryOver : StmtsCarryOver limit more? table fuel) :
    StmtsCarryOver limit more? table (fuel + 1) := by
  have exprs := exprsCarryOver looser table fuel
  intro stmt machine within
  cases stmt with
  | assign site target value =>
      apply (exprs value machine within).andThen
      intro value machine within
      exact .value within
  | ifThen site cond thenBlock =>
      apply ((exprs cond machine within).condition ..).andThen
      intro holds machine within
      cases holds with
      | true => exact carryOver.block thenBlock within
      | false => exact .value within
  | ifElse site cond thenBlock elseBlock =>
      apply ((exprs cond machine within).condition ..).andThen
      intro holds machine within
      exact carryOver.block _ within
  | whileLoop site cond body =>
      apply ((exprs cond machine within).condition ..).andThen
      intro holds machine within
      cases holds with
      | true =>
          apply (carryOver.block body within).andThen
          intro _ machine within
          exact carryOver (.whileLoop site cond body) machine within
      | false => exact .value within

end StmtsCarryOver

theorem stmtsCarryOver (looser : ∀ more ∈ more?, limit ≤ more) (table : FunctionTable)
    (fuel : Nat) : StmtsCarryOver limit more? table fuel := by
  induction fuel with
  | zero => exact fun stmt machine within => .outOfFuel within
  | succ fuel ih => exact ih.next looser

theorem carriesOver_execProgram (looser : ∀ more ∈ more?, limit ≤ more) (fuel : Nat)
    (program : Program) :
    (execProgram fuel (some limit) program).CarriesOver limit more?
      (execProgram fuel more? program) :=
  (stmtsCarryOver looser _ fuel).execAll _ ⟨rfl, fun _ _ => Nat.zero_le _⟩

theorem evaluate_of_looser (looser : ∀ more ∈ more?, limit ≤ more) {program : Program}
    {answer : Except RuntimeError Bindings}
    (known : evaluate fuel (some limit) program = some answer)
    (plain : ∀ error, answer = .error error → error.cause.overflows = false) :
    evaluate fuel more? program = some answer := by
  have carries := carriesOver_execProgram looser fuel program
  rw [evaluate] at known ⊢
  generalize execProgram fuel (some limit) program = outcome at carries known
  generalize execProgram fuel more? program = other at carries ⊢
  cases carries with
  | value within | fault _ within | outOfFuel within => exact known
  | @overflow error machine other within raised =>
      obtain rfl : .error error = answer := Option.some.inj known
      have exceeded := plain error rfl
      rw [raised.cause] at exceeded
      cases exceeded

theorem overflow_of_evaluate {program : Program} {error : RuntimeError}
    (failed : evaluate fuel (some limit) program = some (.error error))
    (exceeded : error.cause.overflows = true) : error.Overflow limit 0 := by
  have unlimited : ∀ more ∈ (none : Option Nat), limit ≤ more := by simp
  have carries := carriesOver_execProgram unlimited fuel program
  have returned : (execProgram fuel (some limit) program).2.calls.depth = 0 :=
    congrArg CallStack.depth
      ((stmtsGrow (.ofProgram program) fuel).execAll program.body.stmts _).calls
  rw [evaluate] at failed
  generalize execProgram fuel (some limit) program = outcome at carries failed returned
  generalize execProgram fuel none program = other at carries
  cases carries with
  | value within => cases failed
  | outOfFuel within => cases failed
  | @fault found machine plain within =>
      obtain rfl : found = error := Except.error.inj (Option.some.inj failed)
      rw [plain] at exceeded
      cases exceeded
  | @overflow found machine other within raised =>
      obtain rfl : found = error := Except.error.inj (Option.some.inj failed)
      rwa [returned] at raised

/-- A run that does not exceed its limit on calls has the same answer under every looser limit.  If
the limit is exceeded, the error tells the limit and that many calls, none if the limit is zero.
Wherever a run is interrupted, no more calls are active than the limit allows. -/
theorem limit_only_cuts_short (fuel limit : Nat) (program : Program) :
    (∀ more? answer, (∀ more ∈ more?, limit ≤ more) →
      evaluate fuel (some limit) program = some answer →
      (∀ error reached, answer = .error error → error.cause ≠ .callDepthExceeded reached) →
      evaluate fuel more? program = some answer) ∧
    (∀ error reached, evaluate fuel (some limit) program = some (.error error) →
      error.cause = .callDepthExceeded reached →
      reached = limit ∧
        error.backtrace?.map (·.frames.length) = if limit = 0 then none else some limit) ∧
    ∀ front, front <+: programSteps fuel (some limit) program →
      ∃ reached, takeAll front { calls := { limit? := some limit } } = .ok reached ∧
        reached.calls.depth ≤ limit := by
  refine ⟨?_, ?_, ?_⟩
  · intro more? answer looser known plain
    apply evaluate_of_looser looser known
    intro error failed
    cases cause : error.cause with
    | callDepthExceeded reached => exact absurd cause (plain error reached failed)
    | _ => rfl
  · intro error reached failed cause
    have overflow := overflow_of_evaluate failed (by rw [cause]; rfl)
    have same := overflow.cause
    rw [cause] at same
    refine ⟨Cause.callDepthExceeded.inj same, ?_⟩
    have backtrace := overflow.backtrace
    simpa only [eq_comm] using backtrace
  · intro front part
    have leads := leads_program fuel (some limit) program
    obtain ⟨reached, taken, within⟩ := leads.within_interrupted part
    exact ⟨reached, taken, within.depth limit rfl⟩

/-- A function that calls nothing but itself. -/
def endlessProgram : Program :=
  ⟨[⟨default, "f", [], .call default "f" []⟩],
    .mk default [.assign default "x" (.call default "f" [])]⟩

theorem limit_only_cuts_short_of_endlessProgram :
    ∃ error, evaluate 6 (some 2) endlessProgram = some (.error error) ∧
      error.cause = .callDepthExceeded 2 ∧ error.backtrace?.map (·.frames.length) = some 2 := by
  have failed : evaluate 6 (some 2) endlessProgram =
      some (.error ⟨.callDepthExceeded 2, some default, some ⟨[⟨"f", 0⟩, ⟨"f", 0⟩]⟩⟩) := rfl
  exact ⟨_, failed, rfl, ((limit_only_cuts_short 6 2 endlessProgram).2.1 _ 2 failed rfl).2⟩

end Sipl
