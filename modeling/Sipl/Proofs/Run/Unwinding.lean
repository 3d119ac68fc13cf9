import Sipl.Proofs.Run.Failures

namespace Sipl

open Reference Machine Outcome

namespace Outcome

variable {α β : Type} {outcome : Outcome α} {error : RuntimeError} {machine : Machine}

theorem Faults.andThen (faults : outcome.Faults error) (next : α → Machine → Outcome β) :
    (outcome.andThen next).Faults error := by
  obtain ⟨result, machine⟩ := outcome
  obtain rfl : result = .error (.fault error) := faults
  rfl

theorem Faults.place (faults : outcome.Faults error) (site : Site) :
    (outcome.place site).Faults (error.orAt site) := by
  obtain ⟨result, machine⟩ := outcome
  obtain rfl : result = .error (.fault error) := faults
  rfl

theorem Faults.condition {outcome : Outcome Value} (faults : outcome.Faults error)
    (context : String) (owner : Site) : (outcome.condition context owner).Faults error := by
  obtain ⟨result, machine⟩ := outcome
  obtain rfl : result = .error (.fault error) := faults
  rfl

theorem Faults.leave {outcome : Outcome Value} (faults : outcome.Faults error)
    (behind : outcome.2 = machine) :
    (Machine.leave outcome).Faults (machine.calls.attach error) := by
  obtain ⟨result, _⟩ := outcome
  obtain rfl : result = .error (.fault error) := faults
  obtain rfl := behind
  rfl

/-- Expressions that have values do not keep the ones behind them from failing. -/
theorem Faults.evalAll_append {eval : Expr → Machine → Outcome Value}
    (kept : ∀ expr, (eval expr machine).2 = machine) {before others : List Expr}
    {values : List Value} (passed : (evalAll eval before machine).verdict = some (.ok values))
    (faults : (evalAll eval others machine).Faults error) :
    (evalAll eval (before ++ others) machine).Faults error := by
  induction before generalizing values with
  | nil => exact faults
  | cons first before ih =>
      rcases verdict_andThen passed (kept first) with ⟨value, one, passed⟩ | ⟨_, _, impossible⟩
      · rcases verdict_andThen passed (snd_evalAll kept before) with
          ⟨values, passed, _⟩ | ⟨_, _, impossible⟩
        · rw [List.cons_append, evalAll, eq_of_verdict_ok one (kept first)]
          exact (ih passed).andThen _
        · cases impossible
      · cases impossible

end Outcome

/-- From some amount of fuel on, a run ends with one error. -/
def Ruins {α : Type} (run : Nat → Outcome α) (error : RuntimeError) : Prop :=
  ∃ enough, ∀ fuel, enough ≤ fuel → (run fuel).Faults error

namespace Ruins

variable {α β : Type} {run : Nat → Outcome α} {next : Nat → α → Machine → Outcome β}
  {machine : Machine} {error : RuntimeError}

theorem of_faults {outcome : Outcome α} (faults : outcome.Faults error) :
    Ruins (fun _ => outcome) error :=
  ⟨0, fun _ _ => faults⟩

/-- One unit of fuel makes no difference. -/
theorem step (ruins : Ruins (fun fuel => run (fuel + 1)) error) : Ruins run error := by
  obtain ⟨enough, ruined⟩ := ruins
  refine ⟨enough + 1, fun fuel more => ?_⟩
  obtain ⟨less, rfl⟩ : ∃ less, fuel = less + 1 := ⟨fuel - 1, by omega⟩
  exact ruined less (by omega)

theorem first (ruins : Ruins run error) :
    Ruins (fun fuel => (run fuel).andThen (next fuel)) error := by
  obtain ⟨enough, ruined⟩ := ruins
  exact ⟨enough, fun fuel more => (ruined fuel more).andThen _⟩

theorem andThen {value : α} (settles : Settles run (.ok value) machine)
    (ruins : Ruins (fun fuel => next fuel value machine) error) :
    Ruins (fun fuel => (run fuel).andThen (next fuel)) error := by
  obtain ⟨enough, settled⟩ := settles
  obtain ⟨sufficient, ruined⟩ := ruins
  refine ⟨max enough sufficient, fun fuel more => ?_⟩
  obtain ⟨known, behind⟩ := settled fuel (by omega)
  dsimp only
  rw [eq_of_verdict_ok known behind]
  exact ruined fuel (by omega)

theorem place (ruins : Ruins run error) (site : Site) :
    Ruins (fun fuel => (run fuel).place site) (error.orAt site) := by
  obtain ⟨enough, ruined⟩ := ruins
  exact ⟨enough, fun fuel more => (ruined fuel more).place site⟩

theorem condition {run : Nat → Outcome Value} (ruins : Ruins run error) (context : String)
    (owner : Site) : Ruins (fun fuel => (run fuel).condition context owner) error := by
  obtain ⟨enough, ruined⟩ := ruins
  exact ⟨enough, fun fuel more => (ruined fuel more).condition context owner⟩

/-- A number where a truth value is wanted is an error of the node that wants it. -/
theorem mismatch {run : Nat → Outcome Value} {value : Int}
    (settles : Settles run (.ok (.int value)) machine) (context : String) (owner : Site) :
    Ruins (fun fuel => (run fuel).condition context owner)
      { cause := .typeMismatch context .boolean .integer, site? := some owner } := by
  obtain ⟨enough, settled⟩ := settles
  refine ⟨enough, fun fuel more => ?_⟩
  obtain ⟨known, behind⟩ := settled fuel more
  dsimp only
  rw [eq_of_verdict_ok known behind]
  rfl

theorem leave {run : Nat → Outcome Value} (ruins : Ruins run error)
    (behind : ∀ fuel, (run fuel).2 = machine) :
    Ruins (fun fuel => Machine.leave (run fuel)) (machine.calls.attach error) := by
  obtain ⟨enough, ruined⟩ := ruins
  exact ⟨enough, fun fuel more => (ruined fuel more).leave (behind fuel)⟩

end Ruins

section Expressions

variable {program : Program} {limit? : Option Nat} {active : Nat} {names : Names}
  {machine : Machine} {expr part : Expr} {cause : Cause} {error : RuntimeError}

theorem settles_value {value : Value}
    (evaluated : Evaluates program limit? active names (.value expr (.ok value)))
    (sees : machine.Sees limit? active names) :
    Settles (fun fuel => evalExpr (.ofProgram program) fuel expr machine) (.ok value) machine :=
  settled_of_evaluates evaluated sees

theorem settles_truth {holds : Bool}
    (evaluated : Evaluates program limit? active names (.value expr (.ok (.bool holds))))
    (sees : machine.Sees limit? active names) (context : String) (owner : Site) :
    Settles (fun fuel => (evalExpr (.ofProgram program) fuel expr machine).condition context owner)
      (.ok holds) machine :=
  (settles_value evaluated sees).condition context owner

/-- A right operand that leaves the result to the left one does not decide it. -/
theorem Reference.Undecided.decides_eq {op : LogicalOp} {decided : Bool}
    (undecided : Undecided op decided) : op.decides decided = false := by
  cases undecided <;> rfl

/-- The node that raises an error places it, unless it calls an unknown function. -/
theorem ruins_of_raises (raises : Raises program limit? active names expr cause)
    (sees : machine.Sees limit? active names) (outer : List Frame) :
    Ruins (fun fuel => evalExpr (.ofProgram program) fuel expr machine)
      (Trail.error { cause, raised := expr.site } outer) := by
  apply Ruins.step
  cases raises with
  | undefinedVariable free =>
      simp only [evalExpr, sees.looks, free]
      exact .of_faults rfl
  | unary evaluated refused =>
      simp only [evalExpr]
      apply Ruins.andThen (settles_value evaluated sees)
      rw [UnaryOp.apply_eq_iff.mpr refused]
      cases refused <;> exact .of_faults rfl
  | arith first second refused =>
      simp only [evalExpr]
      apply Ruins.andThen (settles_value first sees)
      apply Ruins.andThen (settles_value second sees)
      rw [ArithOp.apply_eq_iff.mpr refused]
      cases refused <;> exact .of_faults rfl
  | decider evaluated => exact (Ruins.mismatch (settles_value evaluated sees) _ _).first
  | other first undecided evaluated =>
      simp only [evalExpr]
      apply Ruins.andThen (settles_truth first sees _ _)
      rw [undecided.decides_eq]
      exact ((Ruins.mismatch (settles_value evaluated sees) _ _).place _).first
  | ifThen evaluated => exact (Ruins.mismatch (settles_value evaluated sees) _ _).first
  | ifElse evaluated => exact (Ruins.mismatch (settles_value evaluated sees) _ _).first
  | missingElse condition =>
      exact .andThen (settles_truth condition sees _ _) (.of_faults rfl)
  | undefinedFunction undeclared =>
      simp only [evalExpr, FunctionTable.get?_eq_none_iff.mpr undeclared]
      exact .of_faults rfl
  | arityMismatch declared arguments unfit =>
      simp only [evalExpr, FunctionTable.get?_eq_some_iff.mpr declared]
      apply Ruins.andThen (settled_of_evaluates arguments sees)
      rw [sees.refusal?_eq_some_iff.mpr (.inl ⟨unfit, rfl⟩), declared.name_eq]
      exact .of_faults rfl
  | callDepthExceeded declared arguments fit limited full =>
      simp only [evalExpr, FunctionTable.get?_eq_some_iff.mpr declared]
      apply Ruins.andThen (settled_of_evaluates arguments sees)
      rw [sees.refusal?_eq_some_iff.mpr (.inr ⟨fit, _, limited, full, rfl⟩)]
      exact .of_faults rfl

/-- A part that fails ruins the node: the node places the error or lets it pass. -/
theorem ruins_of_enters {role : Role} {trail : Trail} {outer : List Frame}
    (enters : Enters program limit? active names expr role part)
    (sees : machine.Sees limit? active names)
    (ruins : Ruins (fun fuel => evalExpr (.ofProgram program) fuel part machine)
      (trail.error outer)) :
    Ruins (fun fuel => evalExpr (.ofProgram program) fuel expr machine)
      ((trail.through expr.site role).error outer) := by
  have quiet : role.catches = false →
      (trail.through expr.site role).error outer = trail.error outer :=
    trail.error_through_quiet expr.site outer
  have caught : role = .other ∨ role = .branch →
      (trail.through expr.site role).error outer = (trail.error outer).orAt expr.site :=
    trail.error_through_caught expr.site outer
  apply Ruins.step
  cases enters with
  | unary =>
      rw [quiet rfl]
      exact ruins.first
  | left =>
      rw [quiet rfl]
      exact ruins.first
  | right first =>
      rw [quiet rfl]
      exact .andThen (settles_value first sees) ruins.first
  | decider =>
      rw [quiet rfl]
      exact (ruins.condition _ _).first
  | other first undecided =>
      rw [caught (.inl rfl)]
      simp only [evalExpr]
      apply Ruins.andThen (settles_truth first sees _ _)
      rw [undecided.decides_eq]
      exact ((ruins.condition _ _).place _).first
  | ifThen =>
      rw [quiet rfl]
      exact (ruins.condition _ _).first
  | ifElse =>
      rw [quiet rfl]
      exact (ruins.condition _ _).first
  | thenBranch condition =>
      rw [caught (.inr rfl)]
      exact .andThen (settles_truth condition sees _ _) (ruins.place _)
  | eitherBranch condition =>
      rw [caught (.inr rfl)]
      exact .andThen (settles_truth condition sees _ _) (ruins.place _)
  | argument declared earlier =>
      rw [quiet rfl]
      simp only [evalExpr, FunctionTable.get?_eq_some_iff.mpr declared]
      apply Ruins.first
      obtain ⟨enough, settled⟩ := settled_of_evaluates earlier sees
      obtain ⟨sufficient, ruined⟩ := ruins
      refine ⟨max enough sufficient, fun fuel more => ?_⟩
      refine .evalAll_append (fun expr => snd_evalExpr ..) (settled fuel (by omega)).1 ?_
      exact (ruined fuel (by omega)).andThen _

/-- The induction is on the way down to the node that raises the error. -/
theorem ruins_of_fails {trail : Trail} (fails : Fails program limit? active names expr trail)
    (sees : machine.Sees limit? active names) :
    Ruins (fun fuel => evalExpr (.ofProgram program) fuel expr machine)
      (trail.error machine.calls.frames.toList.reverse) := by
  induction fails generalizing machine with
  | raised raises => exact ruins_of_raises raises sees _
  | inside enters failed ih => exact ruins_of_enters enters sees (ih sees)
  | @called active names site callee args function values trail declared arguments fit free failed
      ih =>
      have frames := declared.frames_enter machine values site.line
      have body := ih (sees.enter site.line)
      rw [frames] at body
      apply Ruins.step
      simp only [evalExpr, FunctionTable.get?_eq_some_iff.mpr declared]
      apply Ruins.andThen (settled_of_evaluates arguments sees)
      rw [sees.refusal?_eq_none_iff.mpr ⟨fit, free⟩, trail.error_through_body site _ frames]
      exact (body.leave fun fuel => snd_evalExpr ..).place site

end Expressions

section Statements

variable {program : Program} {limit? : Option Nat} {names final : Names} {outer : List Names}
  {machine : Machine} {trail : Trail} {error : RuntimeError}

/-- A statement fails by itself with the error of its trail. -/
theorem ruins_of_stmtFails {stmt : Stmt} (fails : StmtFails program limit? names stmt trail)
    (rests : machine.Rests limit? names outer) :
    Ruins (fun fuel => execStmt (.ofProgram program) fuel stmt machine) (trail.error []) := by
  have ruins_of_expr : ∀ {expr}, Fails program limit? 0 names expr trail →
      Ruins (fun fuel => evalExpr (.ofProgram program) fuel expr machine) (trail.error []) := by
    intro expr failed
    have ruins := ruins_of_fails failed rests.sees
    rwa [rests.calls] at ruins
  apply Ruins.step
  cases fails with
  | value failed => exact (ruins_of_expr failed).first
  | condition tested failed =>
      have ruins := ruins_of_expr failed
      cases stmt with
      | assign => cases tested
      | ifThen | ifElse | whileLoop => cases tested; exact (ruins.condition _ _).first
  | mismatch tested evaluated =>
      have settles := settles_value evaluated rests.sees
      cases stmt with
      | assign => cases tested
      | ifThen | ifElse | whileLoop => cases tested; exact (Ruins.mismatch settles _ _).first

theorem Ruins.inScope {exec : Nat → Machine → Outcome Unit}
    (ruins : Ruins (fun fuel => exec fuel { machine with scopes := machine.scopes.push }) error) :
    Ruins (fun fuel => Machine.inScope (exec fuel) machine) error := by
  obtain ⟨enough, ruined⟩ := ruins
  exact ⟨enough, fun fuel more => ruined fuel more⟩

/-- Among the names some statements end with the error: the first of them does, or it is passed and
those behind it do. -/
def Doomed (program : Program) (limit? : Option Nat) (names : Names) (stmts : List Stmt)
    (error : RuntimeError) : Prop :=
  ∃ first others, stmts = first :: others ∧
    ((∀ ⦃machine outer⦄, machine.Rests limit? names outer →
        Ruins (fun fuel => execStmt (.ofProgram program) fuel first machine) error) ∨
      ∃ after, Runs program limit? names (.stmt first (.ok after)) ∧
        ∀ ⦃machine outer⦄, machine.Rests limit? after outer →
          Ruins (fun fuel => execAll (execStmt (.ofProgram program) fuel) others machine) error)

namespace Doomed

variable {stmts : List Stmt} {first : Stmt} {others : List Stmt}

theorem ruins (doomed : Doomed program limit? names stmts error)
    (rests : machine.Rests limit? names outer) :
    Ruins (fun fuel => execAll (execStmt (.ofProgram program) fuel) stmts machine) error := by
  obtain ⟨first, others, rfl, ruins | ⟨after, one, ruins⟩⟩ := doomed
  · exact (ruins rests).first
  · cases concluded_of_runs one rests with
    | ok settles restsAfter => exact .andThen settles (ruins restsAfter)

theorem block {block : Block} (doomed : Doomed program limit? names block.stmts error)
    (rests : machine.Rests limit? names outer) :
    Ruins (fun fuel =>
      inScope (execAll (execStmt (.ofProgram program) fuel) block.stmts) machine) error :=
  (doomed.ruins rests.push).inScope

end Doomed

/-- Statements that come to one that fails by itself end with its error.  A loop that comes to it in
a later turn is doomed as the loop behind the turn before is. -/
theorem doomed_of_reaches {stmts : List Stmt} {stmt : Stmt}
    (reaches : Reaches program limit? names stmts final stmt)
    (fails : StmtFails program limit? final stmt trail) :
    Doomed program limit? names stmts (trail.error []) := by
  induction reaches with
  | here => exact ⟨_, _, rfl, .inl fun _ _ rests => ruins_of_stmtFails fails rests⟩
  | later one _ ih => exact ⟨_, _, rfl, .inr ⟨_, one, fun _ _ rests => (ih fails).ruins rests⟩⟩
  | ifThen condition _ ih =>
      refine ⟨_, _, rfl, .inl fun _ _ rests => .step ?_⟩
      exact .andThen (settles_truth condition rests.sees _ _) ((ih fails).block rests)
  | ifElse condition _ ih =>
      refine ⟨_, _, rfl, .inl fun _ _ rests => .step ?_⟩
      exact .andThen (settles_truth condition rests.sees _ _) ((ih fails).block rests)
  | whileLoop condition _ ih =>
      refine ⟨_, _, rfl, .inl fun _ _ rests => .step ?_⟩
      exact .andThen (settles_truth condition rests.sees _ _) ((ih fails).block rests).first
  | again condition turn _ ih =>
      obtain ⟨_, _, same, again⟩ := ih fails
      obtain ⟨rfl, rfl⟩ := List.cons.inj same
      rcases again with ruins | ⟨_, one, ruins⟩
      · refine ⟨_, _, rfl, .inl fun _ _ rests => .step ?_⟩
        apply Ruins.andThen (settles_truth condition rests.sees _ _)
        cases concluded_of_runs turn rests with
        | ok settles restsAfter => exact .andThen settles (ruins restsAfter)
      · exact ⟨_, _, rfl, .inr ⟨_, .whileLoop (.truth condition) turn one, ruins⟩⟩

/-- A program that fails along a trail ends with its error. -/
theorem evaluate_of_failsAlong (fails : FailsAlong program limit? trail) :
    ∃ enough, ∀ fuel, enough ≤ fuel →
      evaluate fuel limit? program = some (.error (trail.error [])) := by
  obtain ⟨names, stmt, reaches, fails⟩ := fails
  obtain ⟨enough, ruined⟩ := (doomed_of_reaches reaches fails).ruins (.start limit?)
  refine ⟨enough, fun fuel more => ?_⟩
  have faults : (execProgram fuel limit? program).1 = .error (.fault (trail.error [])) :=
    ruined fuel more
  rw [evaluate]
  split
  · next same => rw [same] at faults; cases faults
  · next same => rw [same] at faults; cases faults; rfl
  · next same => rw [same] at faults; cases faults

/-- Whatever the trail along which a program fails, its error is the one that the program ends
with. -/
theorem error_eq_of_failsAlong {fuel : Nat}
    (failed : evaluate fuel limit? program = some (.error error))
    (fails : FailsAlong program limit? trail) : error = trail.error [] := by
  obtain ⟨other, failsToo, rfl⟩ := exists_trail_of_evaluate failed
  obtain ⟨enough, ends⟩ := evaluate_of_failsAlong fails
  obtain ⟨sufficient, endsToo⟩ := evaluate_of_failsAlong failsToo
  have same := (endsToo (max enough sufficient) (by omega)).symm.trans
    (ends (max enough sufficient) (by omega))
  exact Except.error.inj (Option.some.inj same)

end Statements

end Sipl
