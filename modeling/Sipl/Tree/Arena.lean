import Sipl.Tree.Basic

namespace Sipl

/-! An arena stores the nodes of program trees one after the other.  Nodes refer to each other by
number, and lists of numbers are stored contiguously and referred to by range. -/

/-- A stretch of a stored list. -/
structure ListRange where
  start : Nat
  length : Nat
  deriving DecidableEq, Inhabited

inductive ExprNode where
  | literal (site : Site) (value : Literal)
  | var (site : Site) (name : String)
  | unary (site : Site) (op : UnaryOp) (operand : Nat)
  | arith (site : Site) (op : ArithOp) (left right : Nat)
  | logical (site : Site) (op : LogicalOp) (left right : Nat)
  | ifThen (site : Site) (cond thenBranch : Nat)
  | ifElse (site : Site) (cond thenBranch elseBranch : Nat)
  | call (site : Site) (callee : String) (args : ListRange)
  deriving DecidableEq, Inhabited

def ExprNode.site : ExprNode → Site
  | literal site _ => site
  | var site _ => site
  | unary site _ _ => site
  | arith site _ _ _ => site
  | logical site _ _ _ => site
  | ifThen site _ _ => site
  | ifElse site _ _ _ => site
  | call site _ _ => site

structure BlockNode where
  span : Span
  stmts : ListRange
  deriving DecidableEq, Inhabited

inductive StmtNode where
  | assign (site : Site) (target : String) (value : Nat)
  | ifThen (site : Site) (cond : Nat) (thenBlock : BlockNode)
  | ifElse (site : Site) (cond : Nat) (thenBlock elseBlock : BlockNode)
  | whileLoop (site : Site) (cond : Nat) (body : BlockNode)
  deriving DecidableEq, Inhabited

structure FunctionNode where
  site : Site
  name : String
  params : List Param
  body : Nat
  deriving DecidableEq, Inhabited

structure ProgramNode where
  functions : List FunctionNode
  body : BlockNode
  deriving DecidableEq, Inhabited

structure Arena where
  exprs : List ExprNode := []
  exprLists : List Nat := []
  stmts : List StmtNode := []
  stmtLists : List Nat := []
  deriving DecidableEq, Inhabited

namespace Arena

/-- Store a node; its number is the count of the nodes before it. -/
def addExpr (arena : Arena) (node : ExprNode) : Nat × Arena :=
  (arena.exprs.length, { arena with exprs := arena.exprs ++ [node] })

def expr? (arena : Arena) (number : Nat) : Option ExprNode := arena.exprs[number]?

def addExprList (arena : Arena) (numbers : List Nat) : ListRange × Arena :=
  (⟨arena.exprLists.length, numbers.length⟩,
    { arena with exprLists := arena.exprLists ++ numbers })

def exprList (arena : Arena) (range : ListRange) : List Nat :=
  (arena.exprLists.drop range.start).take range.length

def addStmt (arena : Arena) (node : StmtNode) : Nat × Arena :=
  (arena.stmts.length, { arena with stmts := arena.stmts ++ [node] })

def addStmtList (arena : Arena) (numbers : List Nat) : ListRange × Arena :=
  (⟨arena.stmtLists.length, numbers.length⟩,
    { arena with stmtLists := arena.stmtLists ++ numbers })

/-- The number that no expression gets. -/
def invalidNumber : Nat := 4294967295

/-- How the number of an expression is shown. -/
def describe (number : Nat) : String :=
  if number = invalidNumber then "ExprId::INVALID" else "ExprId(" ++ toString number ++ ")"

mutual

/-- Store a tree, the children of every node before the node itself. -/
def storeExpr (arena : Arena) : Expr → Nat × Arena
  | .literal site value => arena.addExpr (.literal site value)
  | .var site name => arena.addExpr (.var site name)
  | .unary site op operand =>
    let (operand, arena) := storeExpr arena operand
    arena.addExpr (.unary site op operand)
  | .arith site op left right =>
    let (left, arena) := storeExpr arena left
    let (right, arena) := storeExpr arena right
    arena.addExpr (.arith site op left right)
  | .logical site op left right =>
    let (left, arena) := storeExpr arena left
    let (right, arena) := storeExpr arena right
    arena.addExpr (.logical site op left right)
  | .ifThen site cond thenBranch =>
    let (cond, arena) := storeExpr arena cond
    let (thenBranch, arena) := storeExpr arena thenBranch
    arena.addExpr (.ifThen site cond thenBranch)
  | .ifElse site cond thenBranch elseBranch =>
    let (cond, arena) := storeExpr arena cond
    let (thenBranch, arena) := storeExpr arena thenBranch
    let (elseBranch, arena) := storeExpr arena elseBranch
    arena.addExpr (.ifElse site cond thenBranch elseBranch)
  | .call site callee args =>
    let (numbers, arena) := storeExprs arena args
    let (range, arena) := arena.addExprList numbers
    arena.addExpr (.call site callee range)

def storeExprs (arena : Arena) : List Expr → List Nat × Arena
  | [] => ([], arena)
  | expr :: rest =>
    let (number, arena) := storeExpr arena expr
    let (numbers, arena) := storeExprs arena rest
    (number :: numbers, arena)

end

mutual

def storeStmt (arena : Arena) : Stmt → Nat × Arena
  | .assign site target value =>
    let (value, arena) := arena.storeExpr value
    arena.addStmt (.assign site target value)
  | .ifThen site cond thenBlock =>
    let (cond, arena) := arena.storeExpr cond
    let (thenBlock, arena) := storeBlock arena thenBlock
    arena.addStmt (.ifThen site cond thenBlock)
  | .ifElse site cond thenBlock elseBlock =>
    let (cond, arena) := arena.storeExpr cond
    let (thenBlock, arena) := storeBlock arena thenBlock
    let (elseBlock, arena) := storeBlock arena elseBlock
    arena.addStmt (.ifElse site cond thenBlock elseBlock)
  | .whileLoop site cond body =>
    let (cond, arena) := arena.storeExpr cond
    let (body, arena) := storeBlock arena body
    arena.addStmt (.whileLoop site cond body)

def storeBlock (arena : Arena) : Block → BlockNode × Arena
  | .mk span stmts =>
    let (numbers, arena) := storeStmts arena stmts
    let (range, arena) := arena.addStmtList numbers
    (⟨span, range⟩, arena)

def storeStmts (arena : Arena) : List Stmt → List Nat × Arena
  | [] => ([], arena)
  | stmt :: rest =>
    let (number, arena) := storeStmt arena stmt
    let (numbers, arena) := storeStmts arena rest
    (number :: numbers, arena)

end

def storeFunctions (arena : Arena) : List Function → List FunctionNode × Arena
  | [] => ([], arena)
  | function :: rest =>
    let (body, arena) := arena.storeExpr function.body
    let (nodes, arena) := storeFunctions arena rest
    (⟨function.site, function.name, function.params, body⟩ :: nodes, arena)

def storeProgram (arena : Arena) (program : Program) : ProgramNode × Arena :=
  let (functions, arena) := arena.storeFunctions program.functions
  let (body, arena) := arena.storeBlock program.body
  (⟨functions, body⟩, arena)

end Arena

end Sipl
