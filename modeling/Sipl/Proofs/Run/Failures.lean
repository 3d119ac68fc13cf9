import Sipl.Proofs.Run.Agreement
import Sipl.Proofs.Run.Trails

namespace Sipl

open Reference Machine Outcome

namespace Reference

/-- Whether an error without a place is placed at the node on its way out of this part. -/
def Role.catches : Role → Bool
  | .other | .branch | .body _ => true
  | .operand | .decider | .condition | .argument => false

namespace Trail

/-- An error is placed at the node that raised it.  Only the call of an unknown function is placed
at a node further out, or nowhere. -/
def place? (trail : Trail) : Option Site :=
  match trail.cause with
  | .undefinedFunction _ => (trail.steps.find? fun step => step.role.catches).map Step.site
  | _ => some trail.raised

/-- The calls that are active where the error is raised, if it is raised in one of the calls of the
trail; there are other calls around these. -/
def backtrace? (trail : Trail) (outer : List Frame) : Option Backtrace :=
  if trail.frames.isEmpty then none else some ⟨trail.frames ++ outer⟩

/-- The error as it leaves the outermost node, inside of other calls. -/
def error (trail : Trail) (outer : List Frame) : RuntimeError :=
  ⟨trail.cause, trail.place?, trail.backtrace? outer⟩

variable (trail : Trail) (site : Site) (outer : List Frame)

theorem place?_through (role : Role) :
    (trail.through site role).place? =
      if role.catches then trail.place?.or (some site) else trail.place? := by
  cases cause : trail.cause with
  | undefinedFunction name =>
      simp only [place?, through, cause, List.find?_append]
      cases caught : trail.steps.find? fun step => step.role.catches with
      | some step => cases role.catches <;> rfl
      | none => cases catches : role.catches <;> simp [catches]
  | _ => cases role.catches <;> simp [place?, through, cause]

theorem frames_through {role : Role} (plain : ∀ frame, role ≠ .body frame) :
    (trail.through site role).frames = trail.frames := by
  cases role with
  | body frame => exact absurd rfl (plain frame)
  | _ => simp [frames, through]

theorem frames_through_body (frame : Frame) :
    (trail.through site (.body frame)).frames = trail.frames ++ [frame] := by
  simp [frames, through]

theorem error_through_quiet {role : Role} (quiet : role.catches = false) :
    (trail.through site role).error outer = trail.error outer := by
  have plain : ∀ frame, role ≠ .body frame := by
    rintro frame rfl
    cases quiet
  rw [error, error, place?_through, backtrace?, backtrace?, frames_through _ _ plain, quiet]
  rfl

theorem error_through_caught {role : Role} (caught : role = .other ∨ role = .branch) :
    (trail.through site role).error outer = (trail.error outer).orAt site := by
  have plain : ∀ frame, role ≠ .body frame := by
    rintro frame rfl
    rcases caught with caught | caught <;> cases caught
  have catches : role.catches := by rcases caught with rfl | rfl <;> rfl
  rw [error, error, place?_through, backtrace?, backtrace?, frames_through _ _ plain,
    if_pos catches]
  rfl

/-- Leaving a call gives an error the calls that are still active, unless it has them already. -/
theorem error_through_body {calls : CallStack} {frame : Frame}
    (active : calls.frames.toList.reverse = frame :: outer) :
    (trail.through site (.body frame)).error outer =
      (calls.attach (trail.error (frame :: outer))).orAt site := by
  have some : calls.frames.isEmpty = false := by
    rw [Array.isEmpty_eq_false_iff]
    rintro none
    simp [none] at active
  rw [error, place?_through, backtrace?, frames_through_body, CallStack.attach, error, backtrace?,
    some]
  cases inner : trail.frames with
  | nil =>
      simp [RuntimeError.orAt, RuntimeError.withBacktrace, CallStack.capture, Role.catches, through,
        active]
  | cons latest others => simp [RuntimeError.orAt, Role.catches, through]

end Trail

/-- In a call that is entered, its own frame is the latest one. -/
theorem LastDeclared.frames_enter {program : Program} {callee : String} {function : Function}
    (declared : LastDeclared program callee function) (machine : Machine) (values : List Value)
    (line : Nat) :
    (machine.enter function values line).calls.frames.toList.reverse =
      ⟨callee, line⟩ :: machine.calls.frames.toList.reverse := by
  rw [enter_eq, declared.name_eq]
  simp [CallStack.enter]

theorem Enters.role_ne_body {program : Program} {limit? : Option Nat} {active : Nat}
    {names : Names} {expr part : Expr} {role : Role}
    (enters : Enters program limit? active names expr role part) (frame : Frame) :
    role ≠ .body frame := by
  cases enters <;> exact nofun

theorem value_of_truth {program : Program} {limit? : Option Nat} {active : Nat} {names : Names}
    {context : String} {expr : Expr} {holds : Bool}
    (evaluates : Evaluates program limit? active names (.truth context expr (.ok holds))) :
    Evaluates program limit? active names (.value expr (.ok (.bool holds))) := by
  cases evaluates with
  | truth evaluated => exact evaluated

end Reference

namespace Outcome

variable {α β : Type} {outcome : Outcome α} {error : RuntimeError} {machine : Machine}

def Faults (outcome : Outcome α) (error : RuntimeError) : Prop :=
  outcome.1 = .error (.fault error)

theorem faults_fault {inner : RuntimeError} :
    (fault inner machine : Outcome α).Faults error ↔ error = inner := by
  simp [Faults, fault, eq_comm]

theorem faults_andThen {next : α → Machine → Outcome β}
    (faults : (outcome.andThen next).Faults error) (behind : outcome.2 = machine) :
    (∃ value, outcome.verdict = some (.ok value) ∧ (next value machine).Faults error) ∨
      outcome.Faults error := by
  subst behind
  obtain ⟨result, machine⟩ := outcome
  cases result with
  | ok value => exact .inl ⟨value, rfl, faults⟩
  | error halt => exact .inr (congrArg Except.error (Except.error.inj faults))

theorem faults_condition {outcome : Outcome Value} {context : String} {owner : Site}
    (faults : (outcome.condition context owner).Faults error) :
    (∃ value, outcome.verdict = some (.ok (.int value)) ∧
        error = { cause := .typeMismatch context .boolean .integer, site? := some owner }) ∨
      outcome.Faults error := by
  obtain ⟨result, machine⟩ := outcome
  cases result with
  | ok value =>
      cases value with
      | bool holds => cases faults
      | int value => exact .inl ⟨value, rfl, (Halt.fault.inj (Except.error.inj faults)).symm⟩
  | error halt => exact .inr (congrArg Except.error (Except.error.inj faults))

theorem faults_place {site : Site} (faults : (outcome.place site).Faults error) :
    ∃ inner, outcome.Faults inner ∧ error = inner.orAt site := by
  obtain ⟨result, machine⟩ := outcome
  cases result with
  | ok value => cases faults
  | error halt =>
      cases halt with
      | outOfFuel => cases faults
      | fault inner => exact ⟨inner, rfl, (Halt.fault.inj (Except.error.inj faults)).symm⟩

theorem faults_leave {outcome : Outcome Value} (faults : (leave outcome).Faults error) :
    ∃ inner, outcome.Faults inner ∧ error = outcome.2.calls.attach inner := by
  obtain ⟨result, machine⟩ := outcome
  cases result with
  | ok value => cases faults
  | error halt =>
      cases halt with
      | outOfFuel => cases faults
      | fault inner => exact ⟨inner, rfl, (Halt.fault.inj (Except.error.inj faults)).symm⟩

theorem faults_ofOperation {result : Except Cause α} {site : Site}
    (faults : (ofOperation result site machine).Faults error) :
    ∃ cause, result = .error cause ∧ error = { cause, site? := some site } := by
  cases result with
  | ok value => cases faults
  | error cause => exact ⟨cause, rfl, (Halt.fault.inj (Except.error.inj faults)).symm⟩

end Outcome

section Expressions

variable {program : Program} {limit? : Option Nat} {active fuel : Nat} {names : Names}
  {machine : Machine} {error : RuntimeError}

/-- There is a trail from an expression whose end is the error. -/
def Ends (program : Program) (limit? : Option Nat) (active : Nat) (names : Names)
    (machine : Machine) (expr : Expr) (error : RuntimeError) : Prop :=
  ∃ trail, Fails program limit? active names expr trail ∧
    error = trail.error machine.calls.frames.toList.reverse

/-- Whatever error there is with this fuel, a trail ends with it. -/
def Tracked (program : Program) (limit? : Option Nat) (fuel : Nat) : Prop :=
  ∀ ⦃active names machine expr error⦄, machine.Sees limit? active names →
    (evalExpr (.ofProgram program) fuel expr machine).Faults error →
    Ends program limit? active names machine expr error

theorem Ends.raised {expr : Expr} {cause : Cause}
    (raises : Raises program limit? active names expr cause)
    (located : ∀ name, cause ≠ .undefinedFunction name) :
    Ends program limit? active names machine expr { cause, site? := some expr.site } := by
  refine ⟨_, .raised raises, ?_⟩
  cases cause with
  | undefinedFunction name => exact absurd rfl (located name)
  | _ => rfl

theorem Ends.quiet {expr part : Expr} {role : Role}
    (ends : Ends program limit? active names machine part error)
    (enters : Enters program limit? active names expr role part) (quiet : role.catches = false) :
    Ends program limit? active names machine expr error := by
  obtain ⟨trail, fails, rfl⟩ := ends
  exact ⟨_, .inside enters fails, (trail.error_through_quiet expr.site _ quiet).symm⟩

theorem Ends.caught {expr part : Expr} {role : Role}
    (ends : Ends program limit? active names machine part error)
    (enters : Enters program limit? active names expr role part)
    (caught : role = .other ∨ role = .branch) :
    Ends program limit? active names machine expr (error.orAt expr.site) := by
  obtain ⟨trail, fails, rfl⟩ := ends
  exact ⟨_, .inside enters fails, (trail.error_through_caught expr.site _ caught).symm⟩

theorem Ends.called {site : Site} {callee : String} {args : List Expr} {function : Function}
    {values : List Value} (declared : LastDeclared program callee function)
    (arguments : Evaluates program limit? active names (.values args (.ok values)))
    (fit : values.length = function.params.length)
    (free : ∀ limit, limit? = some limit → active < limit)
    (ends : Ends program limit? (active + 1) (.ofParams function.params values)
      (machine.enter function values site.line) function.body error) :
    Ends program limit? active names machine (.call site callee args)
      (((machine.enter function values site.line).calls.attach error).orAt site) := by
  obtain ⟨trail, fails, rfl⟩ := ends
  have frames := declared.frames_enter machine values site.line
  rw [frames]
  exact ⟨_, .called declared arguments fit free fails,
    (trail.error_through_body site _ frames).symm⟩

namespace Tracked

variable {site : Site}

/-- The condition of a node has a truth value, or another one, or fails itself. -/
theorem condition (tracked : Tracked program limit? fuel)
    (sees : machine.Sees limit? active names) {α : Type} {cond : Expr} {context : String}
    {owner : Site} {next : Bool → Machine → Outcome α}
    (faults : (((evalExpr (.ofProgram program) fuel cond machine).condition context owner).andThen
      next).Faults error) :
    (∃ holds, Evaluates program limit? active names (.value cond (.ok (.bool holds))) ∧
        (next holds machine).Faults error) ∨
      (∃ value, Evaluates program limit? active names (.value cond (.ok (.int value))) ∧
        error = { cause := .typeMismatch context .boolean .integer, site? := some owner }) ∨
      Ends program limit? active names machine cond error := by
  have told : Told program limit? active names fuel machine := evaluates_of_verdict sees
  rcases faults_andThen faults ((snd_condition ..).trans (snd_evalExpr ..)) with
    ⟨holds, known, faults⟩ | faults
  · exact .inl ⟨holds, value_of_truth (told.truth known), faults⟩
  · rcases faults_condition faults with ⟨value, known, rfl⟩ | faults
    · exact .inr (.inl ⟨value, told _ _ known, rfl⟩)
    · exact .inr (.inr (tracked sees faults))

theorem var (sees : machine.Sees limit? active names) {name : String}
    (faults : (evalExpr (.ofProgram program) (fuel + 1) (.var site name) machine).Faults error) :
    Ends program limit? active names machine (.var site name) error := by
  rw [evalExpr, sees.looks] at faults
  cases found : names name with
  | some value =>
      rw [found] at faults
      cases faults
  | none =>
      rw [found] at faults
      obtain rfl := faults_fault.mp faults
      exact .raised (.undefinedVariable found) (by simp)

theorem unary (tracked : Tracked program limit? fuel) (sees : machine.Sees limit? active names)
    {op : UnaryOp} {operand : Expr}
    (faults : (evalExpr (.ofProgram program) (fuel + 1) (.unary site op operand) machine).Faults
      error) :
    Ends program limit? active names machine (.unary site op operand) error := by
  have told : Told program limit? active names fuel machine := evaluates_of_verdict sees
  rcases faults_andThen faults (snd_evalExpr ..) with ⟨value, known, faults⟩ | faults
  · obtain ⟨cause, refused, rfl⟩ := faults_ofOperation faults
    have applied := UnaryOp.apply_eq_iff.mp refused
    refine .raised (.unary (told _ _ known) applied) ?_
    rintro name rfl
    cases applied
  · exact (tracked sees faults).quiet .unary rfl

theorem arith (tracked : Tracked program limit? fuel) (sees : machine.Sees limit? active names)
    {op : ArithOp} {left right : Expr}
    (faults : (evalExpr (.ofProgram program) (fuel + 1) (.arith site op left right)
      machine).Faults error) :
    Ends program limit? active names machine (.arith site op left right) error := by
  have told : Told program limit? active names fuel machine := evaluates_of_verdict sees
  rcases faults_andThen faults (snd_evalExpr ..) with ⟨leftValue, first, faults⟩ | faults
  · rcases faults_andThen faults (snd_evalExpr ..) with ⟨rightValue, second, faults⟩ | faults
    · obtain ⟨cause, refused, rfl⟩ := faults_ofOperation faults
      have applied := ArithOp.apply_eq_iff.mp refused
      refine .raised (.arith (told _ _ first) (told _ _ second) applied) ?_
      rintro name rfl
      cases applied
    · exact (tracked sees faults).quiet (.right (told _ _ first)) rfl
  · exact (tracked sees faults).quiet .left rfl

theorem logical (tracked : Tracked program limit? fuel) (sees : machine.Sees limit? active names)
    {op : LogicalOp} {left right : Expr}
    (faults : (evalExpr (.ofProgram program) (fuel + 1) (.logical site op left right)
      machine).Faults error) :
    Ends program limit? active names machine (.logical site op left right) error := by
  rcases tracked.condition sees faults with
    ⟨decided, first, faults⟩ | ⟨value, evaluated, rfl⟩ | ends
  · have told : Told program limit? active names fuel machine := evaluates_of_verdict sees
    have undecided : Undecided op decided := by
      cases op <;> cases decided
      case and.true => exact .and
      case or.false => exact .or
      all_goals cases faults
    have notDecided : op.decides decided = false := by cases undecided <;> rfl
    rw [notDecided, if_neg Bool.false_ne_true] at faults
    rcases faults_andThen faults rfl with ⟨value, _, faults⟩ | faults
    · cases faults
    · obtain ⟨inner, failed, rfl⟩ := faults_place faults
      rcases faults_condition failed with ⟨value, known, rfl⟩ | failed
      · exact .raised (.other first undecided (told _ _ known)) (by simp)
      · exact (tracked sees failed).caught (.other first undecided) (.inl rfl)
  · exact .raised (.decider evaluated) (by simp)
  · exact ends.quiet .decider rfl

theorem ifThen (tracked : Tracked program limit? fuel) (sees : machine.Sees limit? active names)
    {cond thenBranch : Expr}
    (faults : (evalExpr (.ofProgram program) (fuel + 1) (.ifThen site cond thenBranch)
      machine).Faults error) :
    Ends program limit? active names machine (.ifThen site cond thenBranch) error := by
  rcases tracked.condition sees faults with
    ⟨holds, condition, faults⟩ | ⟨value, evaluated, rfl⟩ | ends
  · cases holds with
    | true =>
        rw [if_pos rfl] at faults
        obtain ⟨inner, failed, rfl⟩ := faults_place faults
        exact (tracked sees failed).caught (.thenBranch condition) (.inr rfl)
    | false =>
        obtain rfl := faults_fault.mp faults
        exact .raised (.missingElse condition) (by simp)
  · exact .raised (.ifThen evaluated) (by simp)
  · exact ends.quiet .ifThen rfl

theorem ifElse (tracked : Tracked program limit? fuel) (sees : machine.Sees limit? active names)
    {cond thenBranch elseBranch : Expr}
    (faults : (evalExpr (.ofProgram program) (fuel + 1) (.ifElse site cond thenBranch elseBranch)
      machine).Faults error) :
    Ends program limit? active names machine (.ifElse site cond thenBranch elseBranch) error := by
  rcases tracked.condition sees faults with
    ⟨holds, condition, faults⟩ | ⟨value, evaluated, rfl⟩ | ends
  · obtain ⟨inner, failed, rfl⟩ := faults_place faults
    exact (tracked sees failed).caught (.eitherBranch condition) (.inr rfl)
  · exact .raised (.ifElse evaluated) (by simp)
  · exact ends.quiet .ifElse rfl

theorem values (tracked : Tracked program limit? fuel) (sees : machine.Sees limit? active names)
    {args : List Expr}
    (faults : (evalAll (evalExpr (.ofProgram program) fuel) args machine).Faults error) :
    ∃ before arg after values, args = before ++ arg :: after ∧
      Evaluates program limit? active names (.values before (.ok values)) ∧
      Ends program limit? active names machine arg error := by
  induction args with
  | nil => cases faults
  | cons first others ih =>
      rcases faults_andThen faults (snd_evalExpr ..) with ⟨value, known, faults⟩ | faults
      · have told : Told program limit? active names fuel machine := evaluates_of_verdict sees
        rcases faults_andThen faults rfl with ⟨values, _, faults⟩ | faults
        · cases faults
        · obtain ⟨before, arg, after, values, rfl, earlier, ends⟩ := ih faults
          exact ⟨first :: before, arg, after, value :: values, rfl,
            .moreValues (told _ _ known) earlier, ends⟩
      · exact ⟨[], first, others, [], rfl, .noValues, tracked sees faults⟩

theorem call (tracked : Tracked program limit? fuel) (sees : machine.Sees limit? active names)
    {callee : String} {args : List Expr}
    (faults : (evalExpr (.ofProgram program) (fuel + 1) (.call site callee args) machine).Faults
      error) :
    Ends program limit? active names machine (.call site callee args) error := by
  rw [evalExpr] at faults
  cases found : (FunctionTable.ofProgram program).get? callee with
  | none =>
      rw [found] at faults
      obtain rfl := faults_fault.mp faults
      exact ⟨_, .raised (.undefinedFunction (FunctionTable.get?_eq_none_iff.mp found)), rfl⟩
  | some function =>
      have declared := FunctionTable.get?_eq_some_iff.mp found
      have told : Told program limit? active names fuel machine := evaluates_of_verdict sees
      rw [found] at faults
      rcases faults_andThen faults (snd_evalAll (fun expr => snd_evalExpr ..) args) with
        ⟨values, known, faults⟩ | faults
      · have arguments := told.values known
        cases refused : machine.refusal? function values with
        | some cause =>
            rw [refused] at faults
            obtain rfl := faults_fault.mp faults
            rcases sees.refusal?_eq_some_iff.mp refused with
              ⟨unfit, rfl⟩ | ⟨fit, limit, limited, full, rfl⟩
            · rw [declared.name_eq]
              exact .raised (.arityMismatch declared arguments unfit) (by simp)
            · exact .raised (.callDepthExceeded declared arguments fit limited full) (by simp)
        | none =>
            obtain ⟨fit, free⟩ := sees.refusal?_eq_none_iff.mp refused
            rw [refused] at faults
            obtain ⟨placed, left, rfl⟩ := faults_place faults
            obtain ⟨inner, failed, rfl⟩ := faults_leave left
            rw [snd_evalExpr]
            exact (tracked (sees.enter site.line) failed).called declared arguments fit free
      · obtain ⟨before, arg, after, values, rfl, earlier, ends⟩ := tracked.values sees faults
        exact ends.quiet (.argument declared earlier) rfl

end Tracked

theorem tracked (program : Program) (limit? : Option Nat) (fuel : Nat) :
    Tracked program limit? fuel := by
  induction fuel with
  | zero =>
      intro active names machine expr error sees faults
      cases faults
  | succ fuel ih =>
      intro active names machine expr error sees faults
      cases expr with
      | literal => cases faults
      | var => exact Tracked.var sees faults
      | unary => exact ih.unary sees faults
      | arith => exact ih.arith sees faults
      | logical => exact ih.logical sees faults
      | ifThen => exact ih.ifThen sees faults
      | ifElse => exact ih.ifElse sees faults
      | call => exact ih.call sees faults

end Expressions

section Statements

variable {program : Program} {limit? : Option Nat} {fuel : Nat} {names : Names}
  {outer : List Names} {machine : Machine} {error : RuntimeError}

/-- The statements come to one that fails with the error. -/
def StmtsEnd (program : Program) (limit? : Option Nat) (names : Names) (stmts : List Stmt)
    (error : RuntimeError) : Prop :=
  ∃ final stmt trail, Reaches program limit? names stmts final stmt ∧
    StmtFails program limit? final stmt trail ∧ error = trail.error []

/-- Whatever error a statement ends with on this fuel, it is told why, whatever would follow. -/
def StmtsTracked (program : Program) (limit? : Option Nat) (fuel : Nat) : Prop :=
  ∀ ⦃stmt machine names outer error⦄, machine.Rests limit? names outer →
    (execStmt (.ofProgram program) fuel stmt machine).Faults error →
    ∀ others, StmtsEnd program limit? names (stmt :: others) error

theorem StmtsEnd.of_reaches {stmts inner : List Stmt} {before : Names}
    (ends : StmtsEnd program limit? names inner error)
    (reaches : ∀ {final stmt}, Reaches program limit? names inner final stmt →
      Reaches program limit? before stmts final stmt) :
    StmtsEnd program limit? before stmts error := by
  obtain ⟨final, stmt, trail, reached, fails, same⟩ := ends
  exact ⟨final, stmt, trail, reaches reached, fails, same⟩

/-- Outside of calls the trail alone tells the backtrace. -/
theorem Ends.at_rest {expr : Expr} (ends : Ends program limit? 0 names machine expr error)
    (rests : machine.Rests limit? names outer) :
    ∃ trail, Fails program limit? 0 names expr trail ∧ error = trail.error [] := by
  obtain ⟨trail, fails, same⟩ := ends
  rw [rests.calls] at same
  exact ⟨trail, fails, same⟩

theorem Outcome.Leaves.rests {outcome : Outcome Unit} {value : Unit} {result : Except Cause Names}
    (leaves : outcome.Leaves limit? outer result) (known : outcome.verdict = some (.ok value)) :
    ∃ after, result = .ok after ∧ outcome.2.Rests limit? after outer := by
  cases result with
  | ok after => exact ⟨after, rfl, leaves.2⟩
  | error cause => cases known.symm.trans leaves

namespace StmtsTracked

theorem stmts (tracked : StmtsTracked program limit? fuel) {stmts : List Stmt}
    (rests : machine.Rests limit? names outer)
    (faults : (execAll (execStmt (.ofProgram program) fuel) stmts machine).Faults error) :
    StmtsEnd program limit? names stmts error := by
  induction stmts generalizing machine names with
  | nil => cases faults
  | cons first others ih =>
      rcases faults_andThen faults rfl with ⟨value, known, faults⟩ | faults
      · obtain ⟨result, leaves, one⟩ :=
          traced program limit? fuel rests (Option.isSome_of_eq_some known)
        obtain ⟨after, rfl, restsAfter⟩ := leaves.rests known
        exact (ih restsAfter faults).of_reaches (.later one)
      · exact tracked rests faults others

theorem block (tracked : StmtsTracked program limit? fuel) {block : Block}
    (rests : machine.Rests limit? names outer)
    (faults : (inScope (execAll (execStmt (.ofProgram program) fuel) block.stmts)
      machine).Faults error) :
    StmtsEnd program limit? names block.stmts error :=
  tracked.stmts rests.push faults

/-- A statement goes on behind its condition, or the condition is the end of it. -/
theorem condition (rests : machine.Rests limit? names outer) (stmt : Stmt) {cond : Expr}
    {context : String} {owner : Site} {next : Bool → Machine → Outcome Unit}
    (tested : test? stmt = some (cond, context)) (owned : stmt.site = owner)
    (faults : (((evalExpr (.ofProgram program) fuel cond machine).condition context
      owner).andThen next).Faults error) (others : List Stmt) :
    (∃ holds, Evaluates program limit? 0 names (.value cond (.ok (.bool holds))) ∧
        (next holds machine).Faults error) ∨
      StmtsEnd program limit? names (stmt :: others) error := by
  subst owned
  rcases (tracked program limit? fuel).condition rests.sees faults with
    passed | ⟨value, evaluated, rfl⟩ | ends
  · exact .inl passed
  · exact .inr ⟨names, stmt, _, .here, .mismatch tested evaluated, rfl⟩
  · obtain ⟨trail, fails, same⟩ := ends.at_rest rests
    exact .inr ⟨names, stmt, trail, .here, .condition tested fails, same⟩

theorem next (tracked : StmtsTracked program limit? fuel) :
    StmtsTracked program limit? (fuel + 1) := by
  intro stmt machine names outer error rests faults others
  cases stmt with
  | assign site target value =>
      rcases faults_andThen faults rfl with ⟨found, _, faults⟩ | faults
      · cases faults
      · have ends := Sipl.tracked program limit? fuel rests.sees faults
        obtain ⟨trail, fails, same⟩ := ends.at_rest rests
        exact ⟨names, _, trail, .here, .value fails, same⟩
  | ifThen site cond thenBlock =>
      rcases condition rests (.ifThen site cond thenBlock) rfl rfl faults others with
        ⟨holds, truth, faults⟩ | ends
      · cases holds with
        | true => exact (tracked.block rests faults).of_reaches (.ifThen truth)
        | false => cases faults
      · exact ends
  | ifElse site cond thenBlock elseBlock =>
      rcases condition rests (.ifElse site cond thenBlock elseBlock) rfl rfl faults others with
        ⟨holds, truth, faults⟩ | ends
      · exact (tracked.block rests faults).of_reaches (.ifElse truth)
      · exact ends
  | whileLoop site cond body =>
      rcases condition rests (.whileLoop site cond body) rfl rfl faults others with
        ⟨holds, truth, faults⟩ | ends
      · cases holds with
        | false => cases faults
        | true =>
            rw [if_pos rfl] at faults
            rcases faults_andThen faults rfl with ⟨value, known, faults⟩ | faults
            · obtain ⟨result, leaves, turn⟩ :=
                (traced program limit? fuel).block rests (Option.isSome_of_eq_some known)
              obtain ⟨after, rfl, restsAfter⟩ := leaves.rests known
              exact (tracked restsAfter faults others).of_reaches (.again truth turn)
            · exact (tracked.block rests faults).of_reaches (.whileLoop truth)
      · exact ends

end StmtsTracked

theorem stmtsTracked (program : Program) (limit? : Option Nat) (fuel : Nat) :
    StmtsTracked program limit? fuel := by
  induction fuel with
  | zero =>
      intro stmt machine names outer error rests faults
      cases faults
  | succ fuel ih => exact ih.next

end Statements

/-- A program that ends with an error fails along a trail, and the trail tells all of the error. -/
theorem exists_trail_of_evaluate {program : Program} {limit? : Option Nat} {fuel : Nat}
    {error : RuntimeError} (failed : evaluate fuel limit? program = some (.error error)) :
    ∃ trail, FailsAlong program limit? trail ∧ error = trail.error [] := by
  have faults : (execProgram fuel limit? program).Faults error := by
    rw [evaluate] at failed
    split at failed
    · cases failed
    · next inner machine same =>
        rw [Faults, same, Except.error.inj (Option.some.inj failed)]
    · cases failed
  obtain ⟨names, stmt, trail, reaches, fails, same⟩ :=
    (stmtsTracked program limit? fuel).stmts (.start limit?) faults
  exact ⟨trail, ⟨names, stmt, reaches, fails⟩, same⟩

end Sipl
