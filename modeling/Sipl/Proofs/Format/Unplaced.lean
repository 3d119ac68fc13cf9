import Sipl.Tree.Printer

namespace Sipl

namespace Expr

mutual

def unplaced : Expr → Expr
  | literal _ value => literal default value
  | var _ name => var default name
  | unary _ op operand => unary default op operand.unplaced
  | arith _ op left right => arith default op left.unplaced right.unplaced
  | logical _ op left right => logical default op left.unplaced right.unplaced
  | ifThen _ cond thenBranch => ifThen default cond.unplaced thenBranch.unplaced
  | ifElse _ cond thenBranch elseBranch =>
    ifElse default cond.unplaced thenBranch.unplaced elseBranch.unplaced
  | call _ callee args => call default callee (argsUnplaced args)

def argsUnplaced : List Expr → List Expr
  | [] => []
  | arg :: rest => arg.unplaced :: argsUnplaced rest

end

@[simp] theorem precedence_unplaced (expr : Expr) :
    expr.unplaced.precedence = expr.precedence := by
  cases expr <;> rfl

@[simp] theorem isConditional_unplaced (expr : Expr) :
    expr.unplaced.isConditional = expr.isConditional := by
  cases expr <;> rfl

@[simp] theorem endsOpen_unplaced (expr : Expr) : expr.unplaced.endsOpen = expr.endsOpen := by
  match expr with
  | literal .. | var .. | unary .. | arith .. | logical .. | ifThen .. | call .. => rfl
  | ifElse _ _ _ elseBranch => exact endsOpen_unplaced elseBranch

@[simp] theorem loose_unplaced (expr : Expr) (minimum : Precedence) :
    expr.unplaced.loose minimum = expr.loose minimum := by
  simp [loose]

@[simp] theorem looseOperand_unplaced (expr : Expr) (minimum : Precedence) :
    expr.unplaced.looseOperand minimum = expr.looseOperand minimum := by
  simp [looseOperand]

mutual

@[simp] theorem inks_unplaced (expr : Expr) : expr.unplaced.inks = expr.inks := by
  match expr with
  | literal .. | var .. => rfl
  | unary _ _ operand => simp [unplaced, inks, inks_unplaced operand]
  | arith _ _ left right =>
      simp [unplaced, inks, inks_unplaced left, inks_unplaced right]
  | logical _ _ left right =>
      simp [unplaced, inks, inks_unplaced left, inks_unplaced right]
  | ifThen _ cond thenBranch =>
      simp [unplaced, inks, inks_unplaced cond, inks_unplaced thenBranch]
  | ifElse _ cond thenBranch elseBranch =>
      simp [unplaced, inks, inks_unplaced cond, inks_unplaced thenBranch,
        inks_unplaced elseBranch]
  | call _ _ args => simp [unplaced, inks, argsInks_unplaced args]

theorem argsInks_unplaced (args : List Expr) : argsInks (argsUnplaced args) = argsInks args := by
  match args with
  | [] => rfl
  | arg :: rest => simp [argsUnplaced, argsInks, inks_unplaced arg, argsInks_unplaced rest]

end

end Expr

mutual

def Stmt.unplaced : Stmt → Stmt
  | .assign _ target value => .assign default target value.unplaced
  | .ifThen _ cond thenBlock => .ifThen default cond.unplaced thenBlock.unplaced
  | .ifElse _ cond thenBlock elseBlock =>
    .ifElse default cond.unplaced thenBlock.unplaced elseBlock.unplaced
  | .whileLoop _ cond body => .whileLoop default cond.unplaced body.unplaced

def Block.unplaced : Block → Block
  | .mk _ stmts => .mk default (stmtsUnplaced stmts)

def stmtsUnplaced : List Stmt → List Stmt
  | [] => []
  | stmt :: rest => stmt.unplaced :: stmtsUnplaced rest

end

mutual

theorem Stmt.inks_unplaced (depth : Nat) (stmt : Stmt) :
    stmt.unplaced.inks depth = stmt.inks depth := by
  match stmt with
  | .assign .. => simp [Stmt.unplaced, Stmt.inks]
  | .ifThen _ _ thenBlock =>
      simp [Stmt.unplaced, Stmt.inks, Block.inks_unplaced depth thenBlock]
  | .ifElse _ _ thenBlock elseBlock =>
      simp [Stmt.unplaced, Stmt.inks, Block.inks_unplaced depth thenBlock,
        Block.inks_unplaced depth elseBlock]
  | .whileLoop _ _ body => simp [Stmt.unplaced, Stmt.inks, Block.inks_unplaced depth body]

theorem Block.inks_unplaced (depth : Nat) (block : Block) :
    block.unplaced.inks depth = block.inks depth := by
  match block with
  | .mk _ [] => rfl
  | .mk _ (first :: rest) =>
      simp [Block.unplaced, stmtsUnplaced, Block.inks, Stmt.inks_unplaced (depth + 1) first,
        stmtsInks_unplaced (depth + 1) rest]

theorem stmtsInks_unplaced (depth : Nat) (stmts : List Stmt) :
    stmtsInks depth (stmtsUnplaced stmts) = stmtsInks depth stmts := by
  match stmts with
  | [] => rfl
  | stmt :: rest =>
      simp [stmtsUnplaced, stmtsInks, Stmt.inks_unplaced depth stmt,
        stmtsInks_unplaced depth rest]

end

def Function.unplaced (function : Function) : Function :=
  ⟨default, function.name, function.params.map fun param => ⟨param.name, default⟩,
    function.body.unplaced⟩

def Program.unplaced (program : Program) : Program :=
  ⟨program.functions.map Function.unplaced, program.body.unplaced⟩

theorem Function.inks_unplaced (function : Function) :
    function.unplaced.inks = function.inks := by
  simp [Function.unplaced, Function.inks, Expr.inksAt, Function.comp_def]

theorem functionsInks_unplaced (functions : List Function) :
    functionsInks (functions.map Function.unplaced) = functionsInks functions := by
  fun_induction functionsInks functions with
  | case1 => rfl
  | case2 last => simp [functionsInks, Function.inks_unplaced]
  | case3 first rest many ih =>
      obtain ⟨second, others, rfl⟩ := List.exists_cons_of_ne_nil (many ·)
      simp_all [functionsInks, Function.inks_unplaced]

/-- Sites leave no trace in what is written. -/
theorem Program.format_unplaced (program : Program) :
    program.unplaced.format = program.format := by
  simp [Program.format, Program.inks, Program.unplaced, functionsInks_unplaced,
    Block.inks_unplaced]

end Sipl
