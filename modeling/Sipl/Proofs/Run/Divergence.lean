import Mathlib.Order.WellFounded
import Sipl.Proofs.Run.CallDepth
import Sipl.Proofs.Run.Endings
import Sipl.Proofs.Run.Trails

namespace Sipl

open Reference Machine Outcome

section Uniqueness

variable {program : Program} {limit? : Option Nat} {names : Names} {outer : List Names}
  {machine : Machine}

theorem Settles.unique {α : Type} {run : Nat → Outcome α} {first second : Except Cause α}
    {behind behindToo : Machine} (settles : Settles run first behind)
    (again : Settles run second behindToo) : first = second ∧ behind = behindToo := by
  obtain ⟨enough, settled⟩ := settles
  obtain ⟨sufficient, settledAgain⟩ := again
  obtain ⟨verdict, left⟩ := settled (max enough sufficient) (by omega)
  obtain ⟨verdictToo, leftToo⟩ := settledAgain (max enough sufficient) (by omega)
  exact ⟨Option.some.inj (verdict.symm.trans verdictToo), left.symm.trans leftToo⟩

/-- A machine shows one map of names. -/
theorem Machine.Rests.unique {other : Names} {outerToo : List Names}
    (rests : machine.Rests limit? names outer) (again : machine.Rests limit? other outerToo) :
    names = other := by
  funext name
  rw [← rests.scopes.lookup name, again.scopes.lookup name]

theorem Concludes.unique {run : Nat → Outcome Unit} {first second : Except Cause Names}
    (concludes : Concludes run limit? outer first)
    (again : Concludes run limit? outer second) : first = second := by
  cases concludes with
  | ok settles rests =>
      cases again with
      | ok settlesToo restsToo =>
          obtain ⟨_, rfl⟩ := settles.unique settlesToo
          rw [rests.unique restsToo]
      | error settlesToo => cases (settles.unique settlesToo).1
  | error settles =>
      cases again with
      | ok settlesToo _ => cases (settles.unique settlesToo).1
      | error settlesToo =>
          cases (settles.unique settlesToo).1
          rfl

theorem stmt_result_unique {stmt : Stmt} {first second : Except Cause Names}
    (rests : machine.Rests limit? names outer)
    (runs : Runs program limit? names (.stmt stmt first))
    (again : Runs program limit? names (.stmt stmt second)) : first = second :=
  Concludes.unique (concluded_of_runs runs rests) (concluded_of_runs again rests)

theorem block_result_unique {block : Block} {first second : Except Cause Names}
    (rests : machine.Rests limit? names outer)
    (runs : Runs program limit? names (.block block first))
    (again : Runs program limit? names (.block block second)) : first = second :=
  Concludes.unique (concluded_of_runs runs rests) (concluded_of_runs again rests)

theorem truth_unique {expr : Expr} {holds : Bool} {context : String} {result : Except Cause Bool}
    (rests : machine.Rests limit? names outer)
    (evaluates : Evaluates program limit? 0 names (.value expr (.ok (.bool holds))))
    (again : Evaluates program limit? 0 names (.truth context expr result)) :
    result = .ok holds :=
  (Settles.unique (settled_of_evaluates again rests.sees default)
    (settled_of_evaluates (.truth evaluates) rests.sees default)).1

/-- The machine behind a statement that was passed shows the names behind it. -/
theorem exists_rests_stmt {stmt : Stmt} {after : Names} (rests : machine.Rests limit? names outer)
    (runs : Runs program limit? names (.stmt stmt (.ok after))) :
    ∃ later : Machine, later.Rests limit? after outer := by
  cases concluded_of_runs runs rests with
  | ok settles restsAfter => exact ⟨_, restsAfter⟩

theorem exists_rests_block {block : Block} {after : Names}
    (rests : machine.Rests limit? names outer)
    (runs : Runs program limit? names (.block block (.ok after))) :
    ∃ later : Machine, later.Rests limit? after outer := by
  cases concluded_of_runs runs rests with
  | ok settles restsAfter => exact ⟨_, restsAfter⟩

end Uniqueness

section Loops

variable (program : Program) (limit? : Option Nat)

/-- One turn of a loop: the condition holds, and the body comes to its end. -/
structure Turn (cond : Expr) (body : Block) (names after : Names) : Prop where
  condition : Evaluates program limit? 0 names (.value cond (.ok (.bool true)))
  body : Runs program limit? names (.block body (.ok after))

/-- Each turn of a loop is followed by another one. -/
def Endless (cond : Expr) (body : Block) (names : Names) : Prop :=
  ∃ turns : Nat → Names, turns 0 = names ∧
    ∀ number, Turn program limit? cond body (turns number) (turns (number + 1))

/-- Statements come to a loop without end. -/
def ComesToEndless (names : Names) (stmts : List Stmt) : Prop :=
  ∃ final site cond body, Reaches program limit? names stmts final (.whileLoop site cond body) ∧
    Endless program limit? cond body final

end Loops

namespace Endless

variable {program : Program} {limit? : Option Nat} {cond : Expr} {body : Block} {names : Names}
  {outer : List Names} {machine : Machine}

theorem next (endless : Endless program limit? cond body names) :
    ∃ after, Turn program limit? cond body names after ∧
      Endless program limit? cond body after := by
  obtain ⟨turns, rfl, follows⟩ := endless
  exact ⟨turns 1, follows 0, fun number => turns (number + 1), rfl,
    fun number => follows (number + 1)⟩

/-- The induction is on the derivation, which tells the turns one by one. -/
theorem not_runs {site : Site} {result : Except Cause Names}
    (runs : Runs program limit? names (.stmt (.whileLoop site cond body) result))
    (endless : Endless program limit? cond body names)
    (rests : machine.Rests limit? names outer) : False := by
  generalize told : Effect.stmt (.whileLoop site cond body) result = effect at runs
  induction runs generalizing machine with
  | whileEnds condition =>
      cases told
      obtain ⟨after, turn, _⟩ := endless.next
      cases truth_unique rests turn.condition condition
  | whileLoop condition passed again _ ih =>
      cases told
      obtain ⟨after, turn, more⟩ := endless.next
      cases block_result_unique rests turn.body passed
      obtain ⟨later, restsLater⟩ := exists_rests_block rests passed
      exact ih more restsLater rfl
  | whileBodyFails condition failed =>
      cases told
      obtain ⟨after, turn, _⟩ := endless.next
      cases block_result_unique rests turn.body failed
  | whileFails failed =>
      cases told
      obtain ⟨after, turn, _⟩ := endless.next
      cases truth_unique rests turn.condition failed
  | _ => cases told

end Endless

/-- Behind a turn that a loop takes it goes on as it would have. -/
theorem loop_goes_on {program : Program} {limit? : Option Nat} {names after : Names}
    {outer : List Names} {machine : Machine} {site : Site} {cond : Expr} {body : Block}
    {result : Except Cause Names} (turn : Turn program limit? cond body names after)
    (rests : machine.Rests limit? names outer)
    (runs : Runs program limit? names (.stmt (.whileLoop site cond body) result)) :
    Runs program limit? after (.stmt (.whileLoop site cond body) result) := by
  cases runs with
  | whileEnds ends => cases truth_unique rests turn.condition ends
  | whileLoop condition passed again =>
      cases block_result_unique rests turn.body passed
      exact again
  | whileBodyFails condition failed => cases block_result_unique rests turn.body failed
  | whileFails failed => cases truth_unique rests turn.condition failed

section Inversion

variable {program : Program} {limit? : Option Nat} {names : Names}

theorem exists_first_runs {first : Stmt} {others : List Stmt} {result : Except Cause Names}
    (runs : Runs program limit? names (.stmts (first :: others) result)) :
    ∃ result, Runs program limit? names (.stmt first result) := by
  cases runs with
  | more one rest => exact ⟨_, one⟩
  | stop failed => exact ⟨_, failed⟩

theorem exists_inner_runs {block : Block} {result : Except Cause Names}
    (runs : Runs program limit? names (.block block result)) :
    ∃ result, Runs program limit? names (.stmts block.stmts result) := by
  generalize told : Effect.block block result = effect at runs
  cases runs with
  | block inner =>
      cases told
      exact ⟨_, inner⟩
  | _ => cases told

end Inversion

namespace ComesToEndless

variable {program : Program} {limit? : Option Nat} {names : Names} {outer : List Names}
  {machine : Machine}

/-- Statements that come to a loop without end have no effect. -/
theorem not_runs {stmts : List Stmt} {result : Except Cause Names}
    (comes : ComesToEndless program limit? names stmts)
    (runs : Runs program limit? names (.stmts stmts result))
    (rests : machine.Rests limit? names outer) : False := by
  obtain ⟨final, site, cond, body, reaches, endless⟩ := comes
  generalize loop : Stmt.whileLoop site cond body = stmt at reaches
  -- On the way to the loop: effects are unique, so a run takes the same way and meets the loop.
  induction reaches generalizing machine outer result with
  | here =>
      subst loop
      obtain ⟨result, one⟩ := exists_first_runs runs
      exact endless.not_runs one rests
  | later one rest ih =>
      cases runs with
      | more passed others =>
          cases stmt_result_unique rests one passed
          obtain ⟨later, restsLater⟩ := exists_rests_stmt rests one
          exact ih others restsLater endless loop
      | stop failed => cases stmt_result_unique rests one failed
  | ifThen condition inner ih =>
      obtain ⟨result, one⟩ := exists_first_runs runs
      cases one with
      | ifThen _ branch =>
          obtain ⟨result, inside⟩ := exists_inner_runs branch
          exact ih inside rests.push endless loop
      | ifThenSkipped skipped => cases truth_unique rests condition skipped
      | ifThenFails failed => cases truth_unique rests condition failed
  | ifElse condition inner ih =>
      obtain ⟨result, one⟩ := exists_first_runs runs
      cases one with
      | ifElse decided branch =>
          cases truth_unique rests condition decided
          obtain ⟨result, inside⟩ := exists_inner_runs branch
          exact ih inside rests.push endless loop
      | ifElseFails failed => cases truth_unique rests condition failed
  | whileLoop condition inner ih =>
      obtain ⟨result, one⟩ := exists_first_runs runs
      cases one with
      | whileEnds ends => cases truth_unique rests condition ends
      | whileLoop _ turn _ =>
          obtain ⟨result, inside⟩ := exists_inner_runs turn
          exact ih inside rests.push endless loop
      | whileBodyFails _ failed =>
          obtain ⟨result, inside⟩ := exists_inner_runs failed
          exact ih inside rests.push endless loop
      | whileFails failed => cases truth_unique rests condition failed
  | again condition turn rest ih =>
      obtain ⟨later, restsLater⟩ := exists_rests_block rests turn
      cases runs with
      | more passed others =>
          exact ih (.more (loop_goes_on ⟨condition, turn⟩ rests passed) others) restsLater endless
            loop
      | stop failed =>
          exact ih (.stop (loop_goes_on ⟨condition, turn⟩ rests failed)) restsLater endless loop

end ComesToEndless

section Statements

variable {program : Program} {limit : Nat} {names : Names} {outer : List Names}
  {machine : Machine}

/-- Whatever statements there are behind it, a statement has an effect or comes to a loop without
end. -/
def EndsOrLoops (program : Program) (limit : Nat) (stmt : Stmt) (names : Names) : Prop :=
  (∃ result, Runs program (some limit) names (.stmt stmt result)) ∨
    ∀ others, ComesToEndless program (some limit) names (stmt :: others)

/-- Wherever a block is run, it has an effect or comes to a loop without end. -/
def BlockEndsOrLoops (program : Program) (limit : Nat) (stmts : List Stmt) : Prop :=
  ∀ ⦃names : Names⦄ ⦃machine : Machine⦄ ⦃outer : List Names⦄,
    machine.Rests (some limit) names outer →
    (∃ result, Runs program (some limit) names (.stmts stmts result)) ∨
      ComesToEndless program (some limit) names stmts

theorem value_of_truth {context : String} {cond : Expr} {holds : Bool} {limit? : Option Nat}
    (truth : Evaluates program limit? 0 names (.truth context cond (.ok holds))) :
    Evaluates program limit? 0 names (.value cond (.ok (.bool holds))) := by
  cases truth with
  | truth evaluated => exact evaluated

theorem endsOrLoops_assign (rests : machine.Rests (some limit) names outer) (site : Site)
    (target : String) (value : Expr) :
    EndsOrLoops program limit (.assign site target value) names := by
  obtain ⟨result, evaluates⟩ := exists_evaluates program rests.sees value
  cases result with
  | ok value => exact .inl ⟨_, .assign evaluates⟩
  | error cause => exact .inl ⟨_, .assignFails evaluates⟩

theorem endsOrLoops_ifThen {thenBlock : Block}
    (inner : BlockEndsOrLoops program limit thenBlock.stmts)
    (rests : machine.Rests (some limit) names outer) (site : Site) (cond : Expr) :
    EndsOrLoops program limit (.ifThen site cond thenBlock) names := by
  obtain ⟨result, truth⟩ := exists_truth program rests.sees "condition of 'if'" cond
  cases result with
  | error cause => exact .inl ⟨_, .ifThenFails truth⟩
  | ok holds =>
      cases holds with
      | false => exact .inl ⟨_, .ifThenSkipped truth⟩
      | true =>
          rcases inner rests.push with ⟨result, runs⟩ | ⟨final, site, cond, body, reaches, endless⟩
          · exact .inl ⟨_, .ifThen truth (.block runs)⟩
          · exact .inr fun others =>
              ⟨_, _, _, _, .ifThen (value_of_truth truth) reaches, endless⟩

theorem endsOrLoops_ifElse {thenBlock elseBlock : Block}
    (first : BlockEndsOrLoops program limit thenBlock.stmts)
    (second : BlockEndsOrLoops program limit elseBlock.stmts)
    (rests : machine.Rests (some limit) names outer) (site : Site) (cond : Expr) :
    EndsOrLoops program limit (.ifElse site cond thenBlock elseBlock) names := by
  obtain ⟨result, truth⟩ := exists_truth program rests.sees "condition of 'if'" cond
  cases result with
  | error cause => exact .inl ⟨_, .ifElseFails truth⟩
  | ok holds =>
      have chosen :
          BlockEndsOrLoops program limit (if holds then thenBlock else elseBlock).stmts := by
        cases holds with
        | true => exact first
        | false => exact second
      rcases chosen rests.push with ⟨result, runs⟩ | ⟨final, site, cond, body, reaches, endless⟩
      · exact .inl ⟨_, .ifElse truth (.block runs)⟩
      · exact .inr fun others => ⟨_, _, _, _, .ifElse (value_of_truth truth) reaches, endless⟩

/-- A loop takes turn after turn without end, or the induction is on the turns that are left. -/
theorem endsOrLoops_whileLoop {body : Block} (inner : BlockEndsOrLoops program limit body.stmts)
    (rests : machine.Rests (some limit) names outer) (site : Site) (cond : Expr) :
    EndsOrLoops program limit (.whileLoop site cond body) names := by
  by_cases ends : Acc (fun after names => Turn program (some limit) cond body names after) names
  · induction ends generalizing machine with
    | intro names _ ih =>
        obtain ⟨result, truth⟩ :=
          exists_truth program rests.sees "condition of 'while'" cond
        cases result with
        | error cause => exact .inl ⟨_, .whileFails truth⟩
        | ok holds =>
            cases holds with
            | false => exact .inl ⟨_, .whileEnds truth⟩
            | true =>
                have condition := value_of_truth truth
                rcases inner rests.push with ⟨result, runs⟩ | ⟨_, _, _, _, reaches, endless⟩
                · have turn : Runs program (some limit) names (.block body _) := .block runs
                  cases result with
                  | error cause => exact .inl ⟨_, .whileBodyFails truth turn⟩
                  | ok inside =>
                      obtain ⟨later, restsLater⟩ := exists_rests_block rests turn
                      rcases ih _ ⟨condition, turn⟩ restsLater with ⟨result, again⟩ | comes
                      · exact .inl ⟨_, .whileLoop truth turn again⟩
                      · refine .inr fun others => ?_
                        obtain ⟨_, _, _, _, reaches, endless⟩ := comes others
                        exact ⟨_, _, _, _, .again condition turn reaches, endless⟩
                · exact .inr fun others => ⟨_, _, _, _, .whileLoop condition reaches, endless⟩
  · obtain ⟨turns, start, follows⟩ := not_acc_iff_exists_descending_chain.mp ends
    exact .inr fun others => ⟨names, site, cond, body, .here, turns, start, follows⟩

theorem endsOrLoops_cons {first : Stmt} {others : List Stmt}
    (one : ∀ ⦃names : Names⦄ ⦃machine : Machine⦄ ⦃outer : List Names⦄,
      machine.Rests (some limit) names outer → EndsOrLoops program limit first names)
    (rest : BlockEndsOrLoops program limit others) :
    BlockEndsOrLoops program limit (first :: others) := by
  intro names machine outer rests
  rcases one rests with ⟨result, runs⟩ | comes
  · cases result with
    | error cause => exact .inl ⟨_, .stop runs⟩
    | ok after =>
        obtain ⟨later, restsLater⟩ := exists_rests_stmt rests runs
        rcases rest restsLater with ⟨result, behind⟩ | ⟨_, _, _, _, reaches, endless⟩
        · exact .inl ⟨_, .more runs behind⟩
        · exact .inr ⟨_, _, _, _, .later runs reaches, endless⟩
  · exact .inr (comes others)

mutual

theorem Stmt.endsOrLoops (stmt : Stmt) ⦃names : Names⦄ ⦃machine : Machine⦄ ⦃outer : List Names⦄
    (rests : machine.Rests (some limit) names outer) : EndsOrLoops program limit stmt names := by
  cases stmt with
  | assign site target value => exact endsOrLoops_assign rests site target value
  | ifThen site cond thenBlock =>
      exact endsOrLoops_ifThen (Block.endsOrLoops thenBlock) rests site cond
  | ifElse site cond thenBlock elseBlock =>
      exact endsOrLoops_ifElse (Block.endsOrLoops thenBlock) (Block.endsOrLoops elseBlock) rests
        site cond
  | whileLoop site cond body =>
      exact endsOrLoops_whileLoop (Block.endsOrLoops body) rests site cond

theorem Block.endsOrLoops (block : Block) : BlockEndsOrLoops program limit block.stmts := by
  cases block with
  | mk span stmts => exact stmts_endOrLoop stmts

theorem stmts_endOrLoop (stmts : List Stmt) : BlockEndsOrLoops program limit stmts := by
  cases stmts with
  | nil => exact fun names machine outer rests => .inl ⟨_, .none⟩
  | cons first others => exact endsOrLoops_cons (Stmt.endsOrLoops first) (stmts_endOrLoop others)

end

end Statements

mutual

/-- There is no loop in a statement. -/
def Stmt.LoopFree : Stmt → Prop
  | .assign _ _ _ => True
  | .ifThen _ _ thenBlock => thenBlock.LoopFree
  | .ifElse _ _ thenBlock elseBlock => thenBlock.LoopFree ∧ elseBlock.LoopFree
  | .whileLoop _ _ _ => False

def Block.LoopFree : Block → Prop
  | .mk _ stmts => stmtsLoopFree stmts

def stmtsLoopFree : List Stmt → Prop
  | [] => True
  | stmt :: others => stmt.LoopFree ∧ stmtsLoopFree others

end

/-- What statements without loops come to is no loop. -/
theorem loopFree_of_reaches {program : Program} {limit? : Option Nat} {names final : Names}
    {stmts : List Stmt} {stmt : Stmt} (reaches : Reaches program limit? names stmts final stmt)
    (free : stmtsLoopFree stmts) : stmt.LoopFree := by
  induction reaches with
  | here => exact free.1
  | later one rest ih => exact ih free.2
  | @ifThen names final site cond thenBlock stmt others condition inner ih =>
      cases thenBlock with
      | mk span stmts => exact ih free.1
  | @ifElse names final site cond thenBlock elseBlock stmt others holds condition inner ih =>
      cases thenBlock with
      | mk span stmts =>
          cases elseBlock with
          | mk elseSpan elseStmts =>
              cases holds with
              | true => exact ih free.1.1
              | false => exact ih free.1.2
  | whileLoop condition inner ih => exact free.1.elim
  | again condition turn rest ih => exact free.1.elim

section Programs

variable {program : Program} {limit : Nat}

theorem means_iff_runs {limit? : Option Nat} :
    (∃ answer, Means program limit? answer) ↔
      ∃ result, Runs program limit? .empty (.stmts program.body.stmts result) := by
  constructor
  · intro told
    obtain ⟨answer, means⟩ := told
    cases means with
    | ends run listed => exact ⟨_, run⟩
    | fails run => exact ⟨_, run⟩
  · intro told
    obtain ⟨result, run⟩ := told
    cases result with
    | error cause => exact ⟨_, .fails run⟩
    | ok names =>
        cases concluded_of_runs run (.start limit?) with
        | ok settles rests =>
            obtain ⟨distinct, globals⟩ := rests.scopes.get?_globals
            exact ⟨_, .ends run (Bindings.lists_ofList distinct globals)⟩

/-- Under a limit a program has an answer, or it comes to a loop without end. -/
theorem means_or_endless (program : Program) (limit : Nat) :
    (∃ answer, Means program (some limit) answer) ∨
      ComesToEndless program (some limit) .empty program.body.stmts := by
  rw [means_iff_runs]
  exact Block.endsOrLoops program.body (.start (some limit))

theorem not_means_of_endless
    (comes : ComesToEndless program (some limit) .empty program.body.stmts) :
    ¬ ∃ answer, Means program (some limit) answer := by
  rw [means_iff_runs]
  intro told
  obtain ⟨result, runs⟩ := told
  exact comes.not_runs runs (.start (some limit))

end Programs

/-- Under a limit on calls every expression has an outcome, from any machine.  So a program without
loops has an answer, and a program without an answer is one that comes to a loop which takes turn
after turn without end. -/
theorem limited_run_ends_or_loops (program : Program) (limit : Nat) :
    (∀ table expr (machine : Machine), machine.calls.limit? = some limit →
      ∃ outcome enough, outcome.1 ≠ .error .outOfFuel ∧
        ∀ fuel, enough ≤ fuel → evalExpr table fuel expr machine = outcome) ∧
    (program.body.LoopFree →
      ∃ enough, ∀ fuel, enough ≤ fuel → evaluate fuel (some limit) program ≠ none) ∧
    ((∀ fuel, evaluate fuel (some limit) program = none) ↔
      ∃ names site cond body,
        Reaches program (some limit) .empty program.body.stmts names (.whileLoop site cond body) ∧
          Endless program (some limit) cond body names) := by
  have answered : (∃ answer, Means program (some limit) answer) →
      ∃ enough, ∀ fuel, enough ≤ fuel → evaluate fuel (some limit) program ≠ none := by
    intro told
    obtain ⟨answer, means⟩ := told
    obtain ⟨enough, ends⟩ := evaluate_of_means means
    refine ⟨enough, fun fuel more => ?_⟩
    obtain ⟨found, known, _⟩ := ends fuel more
    simp [known]
  refine ⟨?_, ?_, ?_, ?_⟩
  · intro table expr machine limited
    obtain ⟨outcome, enough, known, same⟩ := ends_of_limited table limited expr
    refine ⟨outcome, enough, fun spent => ?_, same⟩
    simp [verdict, spent] at known
  · intro free
    rcases means_or_endless program limit with told | comes
    · exact answered told
    · obtain ⟨names, site, cond, body, reaches, _⟩ := comes
      cases block : program.body with
      | mk span stmts =>
          rw [block] at free reaches
          exact (loopFree_of_reaches reaches free).elim
  · intro unanswered
    rcases means_or_endless program limit with told | comes
    · obtain ⟨enough, ends⟩ := answered told
      exact absurd (unanswered enough) (ends enough (Nat.le_refl enough))
    · exact comes
  · intro comes fuel
    cases known : evaluate fuel (some limit) program with
    | none => rfl
    | some answer =>
        exact (not_means_of_endless comes ⟨_, means_of_evaluate known⟩).elim

/-- The tree of `program begin while true do begin end end`. -/
def spinningProgram : Program :=
  ⟨[], .mk default [.whileLoop default (.literal default (.bool true)) (.mk default [])]⟩

/-- A function that calls itself is cut short by the limit, a loop is not. -/
theorem limited_run_ends_or_loops_of_spinningProgram :
    (∃ outcome enough, outcome.1 ≠ .error .outOfFuel ∧ ∀ fuel, enough ≤ fuel →
      evalExpr (.ofProgram endlessProgram) fuel (.call default "f" [])
        { calls := { limit? := some 2 } } = outcome) ∧
      (∃ enough, ∀ fuel, enough ≤ fuel → evaluate fuel (some 2) endlessProgram ≠ none) ∧
      ∀ fuel, evaluate fuel (some 2) spinningProgram = none := by
  have forgets : Names.empty.within .empty = .empty := rfl
  have turn : Turn spinningProgram (some 2) (.literal default (.bool true)) (.mk default [])
      .empty .empty := by
    refine ⟨.literal, ?_⟩
    have empty : Runs spinningProgram (some 2) .empty
        (.block (.mk default []) ((Except.ok Names.empty).map (·.within .empty))) := .block .none
    rwa [Except.map, forgets] at empty
  obtain ⟨limited, free, _⟩ := limited_run_ends_or_loops endlessProgram 2
  obtain ⟨_, _, diverges⟩ := limited_run_ends_or_loops spinningProgram 2
  exact ⟨limited _ _ _ rfl, free ⟨trivial, trivial⟩,
    diverges.mpr ⟨.empty, _, _, _, .here, fun _ => .empty, rfl, fun _ => turn⟩⟩

end Sipl
