import Sipl.Proofs.Run.Expressions

namespace Sipl

open Reference Machine Outcome

/-- No call is active, and the scopes show the map inside the open blocks. -/
structure Machine.Rests (machine : Machine) (limit? : Option Nat) (names : Names)
    (outer : List Names) : Prop where
  scopes : machine.scopes.Shows names outer
  calls : machine.calls = { limit? }

namespace Machine.Rests

variable {machine : Machine} {limit? : Option Nat} {names before : Names} {outer : List Names}

theorem sees (rests : machine.Rests limit? names outer) : machine.Sees limit? 0 names := by
  refine ⟨rests.scopes.lookup, ?_, ?_⟩
  · rw [rests.calls]
  · rw [rests.calls]
    rfl

theorem assign (rests : machine.Rests limit? names outer) (target : String) (value : Value) :
    Rests { machine with scopes := machine.scopes.assign target value } limit?
      (names.set target value) outer :=
  ⟨rests.scopes.assign target value, rests.calls⟩

theorem push (rests : machine.Rests limit? names outer) :
    Rests { machine with scopes := machine.scopes.push } limit? names (names :: outer) :=
  ⟨rests.scopes.push, rests.calls⟩

theorem pop (rests : machine.Rests limit? names (before :: outer)) :
    Rests { machine with scopes := machine.scopes.pop } limit? (names.within before) outer :=
  ⟨rests.scopes.pop, rests.calls⟩

end Machine.Rests

section Soundness

variable {program : Program} {limit? : Option Nat} {names before : Names} {outer : List Names}
  {fuel : Nat} {machine : Machine}

/-- The outcome is the one that the reference semantics tells. -/
def Outcome.Leaves (outcome : Outcome Unit) (limit? : Option Nat) (outer : List Names) :
    Except Cause Names → Prop
  | .ok names => outcome.verdict = some (.ok ()) ∧ outcome.2.Rests limit? names outer
  | .error cause => outcome.verdict = some (.error cause)

theorem Outcome.Leaves.andThen_ok {outcome : Outcome Unit} {next : Unit → Machine → Outcome Unit}
    (leaves : outcome.Leaves limit? outer (.ok names)) :
    outcome.andThen next = next () outcome.2 := by
  rw [eq_of_verdict_ok leaves.1 rfl]
  rfl

theorem Outcome.Leaves.andThen_error {outcome : Outcome Unit}
    {next : Unit → Machine → Outcome Unit} {cause : Cause}
    (leaves : outcome.Leaves limit? outer (.error cause)) :
    (outcome.andThen next).Leaves limit? outer (.error cause) := by
  obtain ⟨error, same, rfl⟩ := eq_of_verdict_error leaves rfl
  rw [same]
  rfl

theorem Outcome.Leaves.inScope {exec : Machine → Outcome Unit} {result : Except Cause Names}
    (leaves : (exec { machine with scopes := machine.scopes.push }).Leaves limit? (names :: outer)
      result) :
    (inScope exec machine).Leaves limit? outer (result.map (·.within names)) := by
  cases result with
  | ok after => exact ⟨leaves.1, leaves.2.pop⟩
  | error cause => exact leaves

theorem Outcome.verdict_first {α β : Type} {outcome : Outcome α} {next : α → Machine → Outcome β}
    (known : (outcome.andThen next).verdict.isSome) : outcome.verdict.isSome := by
  obtain ⟨result, verdict⟩ := Option.isSome_iff_exists.mp known
  rcases verdict_andThen verdict rfl with ⟨value, first, _⟩ | ⟨cause, failed, _⟩
  · rw [first]
    rfl
  · rw [failed]
    rfl

/-- Whatever outcome statements have with this fuel, the reference semantics tells it too. -/
def Traced (program : Program) (limit? : Option Nat) (fuel : Nat) : Prop :=
  ∀ ⦃stmt machine names outer⦄, machine.Rests limit? names outer →
    (execStmt (.ofProgram program) fuel stmt machine).verdict.isSome →
    ∃ result, (execStmt (.ofProgram program) fuel stmt machine).Leaves limit? outer result ∧
      Runs program limit? names (.stmt stmt result)

namespace Traced

theorem stmts (traced : Traced program limit? fuel) {stmts : List Stmt}
    (rests : machine.Rests limit? names outer)
    (known : (execAll (execStmt (.ofProgram program) fuel) stmts machine).verdict.isSome) :
    ∃ result,
      (execAll (execStmt (.ofProgram program) fuel) stmts machine).Leaves limit? outer result ∧
        Runs program limit? names (.stmts stmts result) := by
  induction stmts generalizing machine names with
  | nil => exact ⟨.ok names, ⟨rfl, rests⟩, .none⟩
  | cons first others ih =>
      rw [execAll] at known ⊢
      obtain ⟨result, leaves, one⟩ := traced rests (verdict_first known)
      cases result with
      | error cause => exact ⟨.error cause, leaves.andThen_error, .stop one⟩
      | ok after =>
          rw [leaves.andThen_ok] at known ⊢
          obtain ⟨result, last, rest⟩ := ih leaves.2 known
          exact ⟨result, last, .more one rest⟩

theorem block (traced : Traced program limit? fuel) {block : Block}
    (rests : machine.Rests limit? names outer)
    (known : (inScope (execAll (execStmt (.ofProgram program) fuel) block.stmts)
      machine).verdict.isSome) :
    ∃ result,
      (inScope (execAll (execStmt (.ofProgram program) fuel) block.stmts) machine).Leaves limit?
          outer result ∧
        Runs program limit? names (.block block result) := by
  obtain ⟨result, leaves, inner⟩ := traced.stmts rests.push known
  exact ⟨_, leaves.inScope, .block inner⟩

/-- A condition has a truth value or is the end of the statement. -/
theorem condition (rests : machine.Rests limit? names outer) {cond : Expr} {context : String}
    {owner : Site} {next : Bool → Machine → Outcome Unit}
    (known : (((evalExpr (.ofProgram program) fuel cond machine).condition context owner).andThen
      next).verdict.isSome) :
    (∃ holds, Evaluates program limit? 0 names (.truth context cond (.ok holds)) ∧
      ((evalExpr (.ofProgram program) fuel cond machine).condition context owner).andThen next =
        next holds machine) ∨
      ∃ cause, Evaluates program limit? 0 names (.truth context cond (.error cause)) ∧
        (((evalExpr (.ofProgram program) fuel cond machine).condition context owner).andThen
          next).Leaves limit? outer (.error cause) := by
  have behind : ((evalExpr (.ofProgram program) fuel cond machine).condition context owner).2 =
      machine := (snd_condition ..).trans (snd_evalExpr ..)
  have told : Told program limit? 0 names fuel machine := evaluates_of_verdict rests.sees
  obtain ⟨result, verdict⟩ := Option.isSome_iff_exists.mp (verdict_first known)
  cases result with
  | ok holds =>
      rw [eq_of_verdict_ok verdict behind]
      exact .inl ⟨holds, told.truth verdict, rfl⟩
  | error cause =>
      obtain ⟨error, same, rfl⟩ := eq_of_verdict_error verdict behind
      rw [same]
      exact .inr ⟨error.cause, told.truth verdict, rfl⟩

theorem next (traced : Traced program limit? fuel) : Traced program limit? (fuel + 1) := by
  intro stmt machine names outer rests known
  cases stmt with
  | assign site target value =>
      rw [execStmt] at known ⊢
      have told : Told program limit? 0 names fuel machine := evaluates_of_verdict rests.sees
      have behind := snd_evalExpr (.ofProgram program) fuel value machine
      obtain ⟨result, verdict⟩ := Option.isSome_iff_exists.mp (verdict_first known)
      cases result with
      | ok found =>
          rw [eq_of_verdict_ok verdict behind]
          exact ⟨.ok (names.set target found), ⟨rfl, rests.assign target found⟩,
            .assign (told _ _ verdict)⟩
      | error cause =>
          obtain ⟨error, same, rfl⟩ := eq_of_verdict_error verdict behind
          rw [same]
          exact ⟨.error error.cause, rfl, .assignFails (told _ _ verdict)⟩
  | ifThen site cond thenBlock =>
      rw [execStmt] at known ⊢
      rcases condition rests known with ⟨holds, truth, same⟩ | ⟨cause, failed, leaves⟩
      · rw [same] at known ⊢
        cases holds with
        | true =>
            obtain ⟨result, leaves, branch⟩ := traced.block rests known
            exact ⟨result, leaves, .ifThen truth branch⟩
        | false => exact ⟨.ok names, ⟨rfl, rests⟩, .ifThenSkipped truth⟩
      · exact ⟨.error cause, leaves, .ifThenFails failed⟩
  | ifElse site cond thenBlock elseBlock =>
      rw [execStmt] at known ⊢
      rcases condition rests known with ⟨holds, truth, same⟩ | ⟨cause, failed, leaves⟩
      · rw [same] at known ⊢
        obtain ⟨result, leaves, branch⟩ := traced.block rests known
        exact ⟨result, leaves, .ifElse truth branch⟩
      · exact ⟨.error cause, leaves, .ifElseFails failed⟩
  | whileLoop site cond body =>
      rw [execStmt] at known ⊢
      rcases condition rests known with ⟨holds, truth, same⟩ | ⟨cause, failed, leaves⟩
      · rw [same] at known ⊢
        cases holds with
        | true =>
            rw [if_pos rfl] at known ⊢
            obtain ⟨result, leaves, turn⟩ := traced.block rests (verdict_first known)
            cases result with
            | ok after =>
                rw [leaves.andThen_ok] at known ⊢
                obtain ⟨result, last, again⟩ := traced leaves.2 known
                exact ⟨result, last, .whileLoop truth turn again⟩
            | error cause => exact ⟨.error cause, leaves.andThen_error, .whileBodyFails truth turn⟩
        | false => exact ⟨.ok names, ⟨rfl, rests⟩, .whileEnds truth⟩
      · exact ⟨.error cause, leaves, .whileFails failed⟩

end Traced

theorem traced (program : Program) (limit? : Option Nat) (fuel : Nat) :
    Traced program limit? fuel := by
  induction fuel with
  | zero =>
      intro stmt machine names outer rests known
      cases known
  | succ fuel ih => exact ih.next

end Soundness

section Completeness

variable {program : Program} {limit? : Option Nat} {names : Names} {outer : List Names}

/-- From some amount of fuel on, a run ends as the reference semantics tells. -/
inductive Concludes (run : Nat → Outcome Unit) (limit? : Option Nat) (outer : List Names) :
    Except Cause Names → Prop where
  | ok {machine : Machine} {names : Names} (settles : Settles run (.ok ()) machine)
      (rests : machine.Rests limit? names outer) : Concludes run limit? outer (.ok names)
  | error {machine : Machine} {cause : Cause} (settles : Settles run (.error cause) machine) :
      Concludes run limit? outer (.error cause)

namespace Concludes

variable {α : Type} {run : Nat → Outcome Unit} {eval : Nat → Outcome α} {machine : Machine}
  {next : Nat → α → Machine → Outcome Unit} {result : Except Cause Names}

theorem step (concludes : Concludes (fun fuel => run (fuel + 1)) limit? outer result) :
    Concludes run limit? outer result := by
  cases concludes with
  | ok settles rests => exact .ok settles.step rests
  | error settles => exact .error settles.step

theorem andThen {value : α} (first : Settles eval (.ok value) machine)
    (second : Concludes (fun fuel => next fuel value machine) limit? outer result) :
    Concludes (fun fuel => (eval fuel).andThen (next fuel)) limit? outer result := by
  cases second with
  | ok settles rests => exact .ok (first.andThen settles) rests
  | error settles => exact .error (first.andThen settles)

theorem andThen_error {cause : Cause} (first : Settles eval (.error cause) machine) :
    Concludes (fun fuel => (eval fuel).andThen (next fuel)) limit? outer (.error cause) :=
  .error first.andThen_error

theorem inScope {exec : Nat → Machine → Outcome Unit}
    (concludes : Concludes (fun fuel => exec fuel { machine with scopes := machine.scopes.push })
      limit? (names :: outer) result) :
    Concludes (fun fuel => Machine.inScope (exec fuel) machine) limit? outer
      (result.map (·.within names)) := by
  have closed : ∀ {result final},
      Settles (fun fuel => exec fuel { machine with scopes := machine.scopes.push }) result final →
      Settles (fun fuel => Machine.inScope (exec fuel) machine) result
        { final with scopes := final.scopes.pop } := by
    rintro result final ⟨enough, settled⟩
    refine ⟨enough, fun fuel more => ?_⟩
    obtain ⟨known, behind⟩ := settled fuel more
    exact ⟨known, by rw [← behind]; rfl⟩
  cases concludes with
  | ok settles rests => exact .ok (closed settles) rests.pop
  | error settles => exact .error (closed settles)

end Concludes

def Reference.Effect.Concluded (table : FunctionTable) (limit? : Option Nat) (outer : List Names)
    (machine : Machine) : Effect → Prop
  | .stmt code result =>
    Concludes (fun fuel => execStmt table fuel code machine) limit? outer result
  | .stmts code result =>
      Concludes (fun fuel => execAll (execStmt table fuel) code machine) limit? outer result
  | .block code result =>
      Concludes (fun fuel => Machine.inScope (execAll (execStmt table fuel) code.stmts) machine)
        limit? outer result

theorem concluded_of_runs {effect : Effect} (runs : Runs program limit? names effect)
    {machine : Machine} (rests : machine.Rests limit? names outer) :
    effect.Concluded (.ofProgram program) limit? outer machine := by
  -- On the rules of the effect.  A statement that succeeds leaves a machine that rests on the names
  -- behind it, and there the next one starts.
  induction runs generalizing machine outer with
  | @assign names site target expr value evaluated =>
      apply Concludes.step
      apply Concludes.andThen (settled_of_evaluates evaluated rests.sees)
      exact .ok (.of_verdict rfl rfl) (rests.assign target value)
  | assignFails failed =>
      exact .step (.andThen_error (settled_of_evaluates failed rests.sees))
  | ifThen condition branch ih =>
      exact .step (.andThen (settled_of_evaluates condition rests.sees _) (ih rests))
  | ifThenSkipped condition =>
      apply Concludes.step
      apply Concludes.andThen (settled_of_evaluates condition rests.sees _)
      exact .ok (.of_verdict rfl rfl) rests
  | ifThenFails failed =>
      exact .step (.andThen_error (settled_of_evaluates failed rests.sees _))
  | ifElse condition branch ih =>
      exact .step (.andThen (settled_of_evaluates condition rests.sees _) (ih rests))
  | ifElseFails failed =>
      exact .step (.andThen_error (settled_of_evaluates failed rests.sees _))
  | whileEnds condition =>
      apply Concludes.step
      apply Concludes.andThen (settled_of_evaluates condition rests.sees _)
      exact .ok (.of_verdict rfl rfl) rests
  | whileLoop condition turn again ihTurn ihAgain =>
      apply Concludes.step
      apply Concludes.andThen (settled_of_evaluates condition rests.sees _)
      cases ihTurn rests with
      | ok settles restsAfter => exact .andThen settles (ihAgain restsAfter)
  | whileBodyFails condition failed ih =>
      apply Concludes.step
      apply Concludes.andThen (settled_of_evaluates condition rests.sees _)
      cases ih rests with
      | error settles => exact .andThen_error settles
  | whileFails failed =>
      exact .step (.andThen_error (settled_of_evaluates failed rests.sees _))
  | none => exact .ok (.of_verdict rfl rfl) rests
  | more one rest ihOne ihRest =>
      cases ihOne rests with
      | ok settles restsAfter => exact .andThen settles (ihRest restsAfter)
  | stop failed ih =>
      cases ih rests with
      | error settles => exact .andThen_error settles
  | block inner ih => exact .inScope (ih rests.push)

end Completeness

end Sipl
