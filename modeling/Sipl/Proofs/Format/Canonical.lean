import Sipl.Proofs.Format.RoundTrip

namespace Sipl

open Ink Scan

mutual

theorem Expr.writable_unplaced (expr : Expr) : expr.unplaced.Writable ↔ expr.Writable := by
  match expr with
  | .literal .. | .var .. => rfl
  | .unary _ _ operand =>
      simp [Expr.unplaced, Expr.Writable, Expr.FitsAt, operand.writable_unplaced]
  | .arith _ _ left right | .logical _ _ left right =>
      simp [Expr.unplaced, Expr.Writable, Expr.FitsAt, left.writable_unplaced,
        right.writable_unplaced]
  | .ifThen _ cond thenBranch =>
      simp [Expr.unplaced, Expr.Writable, Expr.FitsAt, cond.writable_unplaced,
        thenBranch.writable_unplaced]
  | .ifElse _ cond thenBranch elseBranch =>
      simp [Expr.unplaced, Expr.Writable, Expr.FitsAt, cond.writable_unplaced,
        thenBranch.writable_unplaced, elseBranch.writable_unplaced]
  | .call _ _ args => simp [Expr.unplaced, Expr.Writable, Expr.argsWritable_unplaced args]

theorem Expr.argsWritable_unplaced (args : List Expr) :
    Expr.ArgsWritable (Expr.argsUnplaced args) ↔ Expr.ArgsWritable args := by
  match args with
  | [] => rfl
  | arg :: rest =>
      simp [Expr.argsUnplaced, Expr.ArgsWritable, Expr.FitsAt, arg.writable_unplaced,
        Expr.argsWritable_unplaced rest]

end

mutual

theorem Stmt.writable_unplaced (stmt : Stmt) : stmt.unplaced.Writable ↔ stmt.Writable := by
  match stmt with
  | .assign _ _ value => simp [Stmt.unplaced, Stmt.Writable, value.writable_unplaced]
  | .ifThen _ cond thenBlock =>
      simp [Stmt.unplaced, Stmt.Writable, cond.writable_unplaced, thenBlock.writable_unplaced]
  | .ifElse _ cond thenBlock elseBlock =>
      simp [Stmt.unplaced, Stmt.Writable, cond.writable_unplaced, thenBlock.writable_unplaced,
        elseBlock.writable_unplaced]
  | .whileLoop _ cond body =>
      simp [Stmt.unplaced, Stmt.Writable, cond.writable_unplaced, body.writable_unplaced]

theorem Block.writable_unplaced (block : Block) : block.unplaced.Writable ↔ block.Writable := by
  match block with
  | .mk _ stmts => simp [Block.unplaced, Block.Writable, stmtsWritable_unplaced stmts]

theorem stmtsWritable_unplaced (stmts : List Stmt) :
    StmtsWritable (stmtsUnplaced stmts) ↔ StmtsWritable stmts := by
  match stmts with
  | [] => rfl
  | stmt :: rest =>
      simp [stmtsUnplaced, StmtsWritable, stmt.writable_unplaced, stmtsWritable_unplaced rest]

end

mutual

theorem Stmt.emptyBlocks_unplaced (stmt : Stmt) :
    stmt.unplaced.emptyBlocks = stmt.emptyBlocks := by
  match stmt with
  | .assign .. => rfl
  | .ifThen _ _ thenBlock => exact thenBlock.emptyBlocks_unplaced
  | .ifElse _ _ thenBlock elseBlock =>
      rw [Stmt.unplaced, Stmt.emptyBlocks, Stmt.emptyBlocks, thenBlock.emptyBlocks_unplaced,
        elseBlock.emptyBlocks_unplaced]
  | .whileLoop _ _ body => exact body.emptyBlocks_unplaced

theorem Block.emptyBlocks_unplaced (block : Block) :
    block.unplaced.emptyBlocks = block.emptyBlocks := by
  match block with
  | .mk _ stmts => exact stmtsEmptyBlocks_unplaced stmts

theorem stmtsEmptyBlocks_unplaced (stmts : List Stmt) :
    stmtsEmptyBlocks (stmtsUnplaced stmts) = stmtsEmptyBlocks stmts := by
  match stmts with
  | [] => rfl
  | [last] => exact last.emptyBlocks_unplaced
  | first :: second :: others =>
      have rest := stmtsEmptyBlocks_unplaced (second :: others)
      simp only [stmtsUnplaced, stmtsEmptyBlocks] at rest ⊢
      rw [first.emptyBlocks_unplaced, rest]

end

theorem Function.writable_unplaced (function : Function) :
    function.unplaced.Writable ↔ function.Writable := by
  have params : (∀ param ∈ function.unplaced.params, IsName param.name) ↔
      ∀ param ∈ function.params, IsName param.name := by simp [Function.unplaced]
  have body : function.unplaced.body.Writable ↔ function.body.Writable :=
    function.body.writable_unplaced
  have fits : function.unplaced.body.FitsAt .comparison ↔ function.body.FitsAt .comparison := by
    simp [Function.unplaced, Expr.FitsAt]
  constructor
  · intro written
    exact ⟨written.named, params.mp written.params, body.mp written.body, fits.mp written.fits⟩
  · intro written
    exact ⟨written.named, params.mpr written.params, body.mpr written.body, fits.mpr written.fits⟩

theorem Analysis.diagnostics_eq_nil_iff {source : String} :
    (ofSource source).diagnostics = [] ↔
      (scan source).errors = [] ∧ (ofSource source).parsed.errors = [] := by
  simp [ofSource]

namespace Program

variable {source : String} {program : Program}

theorem writable_unplaced : program.unplaced.Writable ↔ program.Writable := by
  have functions : (∀ function ∈ program.unplaced.functions, function.Writable) ↔
      ∀ function ∈ program.functions, function.Writable := by
    simp [unplaced, Function.writable_unplaced]
  have body : program.unplaced.body.Writable ↔ program.body.Writable :=
    program.body.writable_unplaced
  constructor
  · intro written
    exact ⟨functions.mp written.functions, body.mp written.body⟩
  · intro written
    exact ⟨functions.mpr written.functions, body.mpr written.body⟩

theorem writable_ofSource (found : (Analysis.ofSource source).parsed.program? = some program) :
    program.Writable := by
  have spelled : (Cursor.start (scan source).tokens (closed_scan source)).IsSpelled := by
    rw [Cursor.IsSpelled, Parsed.upcoming_start]
    exact exists_spelled_scanFrom 0 1 source.toList
  exact Parsed.writable_ofCursor spelled found

/-- Whatever a source text without problems is read as can be written, also with other places. -/
theorem written_of_clean {again : Program} (clean : (Analysis.ofSource source).diagnostics = [])
    (found : (Analysis.ofSource source).parsed.program? = some again)
    (same : again.unplaced = program.unplaced) :
    program.Writable ∧ program.body.emptyBlocks = 0 := by
  have writable := writable_ofSource found
  have filled := emptyBlocks_eq_zero found (Analysis.diagnostics_eq_nil_iff.mp clean).2
  have bodies : again.body.unplaced = program.body.unplaced := congrArg Program.body same
  rw [← writable_unplaced, same] at writable
  rw [← again.body.emptyBlocks_unplaced, bodies, program.body.emptyBlocks_unplaced] at filled
  exact ⟨writable_unplaced.mp writable, filled⟩

theorem exists_of_clean (clean : (Analysis.ofSource source).diagnostics = []) :
    ∃ program, (Analysis.ofSource source).parsed.program? = some program ∧ program.Writable ∧
      program.body.emptyBlocks = 0 := by
  obtain ⟨_, silent⟩ := Analysis.diagnostics_eq_nil_iff.mp clean
  obtain ⟨program, found⟩ :=
    Option.isSome_iff_exists.mp (Parsed.isSome_program?_of_errors silent)
  exact ⟨program, found, written_of_clean clean found rfl⟩

/-- The canonical text is read without a problem, as the same tree up to places. -/
theorem clean_format (writable : program.Writable) (filled : program.body.emptyBlocks = 0) :
    (Analysis.ofSource program.format).diagnostics = [] ∧
      ∃ again, (Analysis.ofSource program.format).parsed.program? = some again ∧
        again.unplaced = program.unplaced := by
  obtain ⟨written, legible⟩ := spelled_scanFrom 0 1 (legible_inks writable)
  rw [← toList_format] at written legible
  have stands : (Cursor.start (scan program.format).tokens (closed_scan program.format)).At
      (words program.inks) := by
    rw [Cursor.At, Parsed.upcoming_start]
    exact written
  obtain ⟨again, found, same, reported⟩ := reread writable stands
  rw [filled] at reported
  exact ⟨Analysis.diagnostics_eq_nil_iff.mpr ⟨legible, List.map_eq_nil_iff.mp reported⟩, again,
    found, same⟩

end Program

end Sipl
