import Sipl.Diagnostic.Problem
import Sipl.Proofs.Run.Failures

namespace Sipl

namespace Reference

variable {program : Program} {limit? : Option Nat} {active : Nat} {names : Names}

theorem UnaryResult.phase {op : UnaryOp} {value : Value} {cause : Cause}
    (refused : UnaryResult op value (.error cause)) : cause.code.phase = .running := by
  cases refused <;> rfl

theorem ArithResult.phase {op : ArithOp} {left right : Value} {cause : Cause}
    (refused : ArithResult op left right (.error cause)) : cause.code.phase = .running := by
  cases refused <;> rfl

theorem Raises.phase {expr : Expr} {cause : Cause}
    (raises : Raises program limit? active names expr cause) : cause.code.phase = .running := by
  cases raises with
  | unary evaluated refused => exact refused.phase
  | arith first second refused => exact refused.phase
  | _ => rfl

theorem Fails.phase {expr : Expr} {trail : Trail}
    (fails : Fails program limit? active names expr trail) :
    trail.cause.code.phase = .running := by
  induction fails with
  | raised raises => exact raises.phase
  | inside enters failed ih => exact ih
  | called declared arguments fit free failed ih => exact ih

theorem StmtFails.phase {stmt : Stmt} {trail : Trail}
    (fails : StmtFails program limit? names stmt trail) : trail.cause.code.phase = .running := by
  cases fails with
  | value failed => exact failed.phase
  | condition tested failed => exact failed.phase
  | mismatch tested evaluated => rfl

end Reference

/-- Whatever ends a run with an error, the interpreter itself has not failed. -/
theorem phase_of_evaluate {program : Program} {limit? : Option Nat} {fuel : Nat}
    {error : RuntimeError} (failed : evaluate fuel limit? program = some (.error error)) :
    error.cause.code.phase = .running := by
  obtain ⟨trail, ⟨_, _, _, fails⟩, rfl⟩ := exists_trail_of_evaluate failed
  exact fails.phase

end Sipl
