import Sipl.Token.Basic
import Sipl.Tree.Operator

namespace Sipl

inductive Expr where
  | literal (site : Site) (value : Literal)
  | var (site : Site) (name : String)
  | unary (site : Site) (op : UnaryOp) (operand : Expr)
  | arith (site : Site) (op : ArithOp) (left right : Expr)
  | logical (site : Site) (op : LogicalOp) (left right : Expr)
  | ifThen (site : Site) (cond thenBranch : Expr)
  | ifElse (site : Site) (cond thenBranch elseBranch : Expr)
  | call (site : Site) (callee : String) (args : List Expr)
  deriving Inhabited

namespace Expr

def site : Expr → Site
  | literal site _ => site
  | var site _ => site
  | unary site _ _ => site
  | arith site _ _ _ => site
  | logical site _ _ _ => site
  | ifThen site _ _ => site
  | ifElse site _ _ _ => site
  | call site _ _ => site

def span (expr : Expr) : Span := expr.site.span

end Expr

mutual

inductive Stmt where
  | assign (site : Site) (target : String) (value : Expr)
  | ifThen (site : Site) (cond : Expr) (thenBlock : Block)
  | ifElse (site : Site) (cond : Expr) (thenBlock elseBlock : Block)
  | whileLoop (site : Site) (cond : Expr) (body : Block)
  deriving Inhabited

/-- A sequence of statements between `begin` and `end`. -/
inductive Block where
  | mk (span : Span) (stmts : List Stmt)
  deriving Inhabited

end

def Stmt.site : Stmt → Site
  | .assign site _ _ => site
  | .ifThen site _ _ => site
  | .ifElse site _ _ _ => site
  | .whileLoop site _ _ => site

namespace Block

def span : Block → Span
  | mk span _ => span

def stmts : Block → List Stmt
  | mk _ stmts => stmts

end Block

structure Param where
  name : String
  span : Span
  deriving DecidableEq, Inhabited

/-- A function declaration: its value is that of its body. -/
structure Function where
  site : Site
  name : String
  params : List Param
  body : Expr
  deriving Inhabited

structure Program where
  functions : List Function
  body : Block
  deriving Inhabited

end Sipl
