import Sipl.Proofs.Run.StoredRun
import Sipl.Reader.Trees

namespace Sipl

/-! The reader keeps nodes in an arena.  Each is stored behind its parts: the arguments of a call
are listed once its parentheses are closed, the statements of a block once the block is.  A reading
that fails leaves the nodes it has stored behind.  The span of an operand is taken from its node,
and reading breaks off if there is no such node. -/

namespace Arena

def spanOf (arena : Arena) (number : Nat) : Except Breach Span :=
  (Breach.missingExpr number).unlessFound
    (arena.exprs[number]?.map fun node => node.site.span)

/-- Where a node with two operands stands. -/
def joinedSite (arena : Arena) (operator : Token) (left right : Nat) : Except Breach Site := do
  let first ← arena.spanOf left
  let second ← arena.spanOf right
  return ⟨operator.site.line, first.merge second⟩

/-- Store the list of the statements of a block. -/
def addBlock (arena : Arena) (span : Span) (stmts : List Nat) : BlockNode × Arena :=
  let (range, arena) := arena.addStmtList stmts
  (⟨span, range⟩, arena)

end Arena

def ExprForm.store (form : ExprForm Nat) (arena : Arena) : Except Breach (Nat × Arena) :=
  match form with
  | literal site value => return arena.addExpr (.literal site value)
  | var site name => return arena.addExpr (.var site name)
  | unary operator op operand => do
    let span ← arena.spanOf operand
    return arena.addExpr (.unary ⟨operator.site.line, operator.site.span.merge span⟩ op operand)
  | arith operator op left right => do
    return arena.addExpr (.arith (← arena.joinedSite operator left right) op left right)
  | logical operator op left right => do
    return arena.addExpr (.logical (← arena.joinedSite operator left right) op left right)
  | ifThen site cond thenBranch => return arena.addExpr (.ifThen site cond thenBranch)
  | ifElse site cond thenBranch elseBranch =>
    return arena.addExpr (.ifElse site cond thenBranch elseBranch)
  | call site callee args => do
    let (range, arena) := arena.addExprList args
    return arena.addExpr (.call site callee range)

def StmtForm.node : StmtForm Nat BlockNode → StmtNode
  | assign site target value => .assign site target value
  | ifThen site cond thenBlock => .ifThen site cond thenBlock
  | ifElse site cond thenBlock elseBlock => .ifElse site cond thenBlock elseBlock
  | whileLoop site cond body => .whileLoop site cond body

/-- Keep nodes, and nothing of what the reader does. -/
def nodes : Keeper (StateT Arena (Except Breach)) Nat Nat BlockNode FunctionNode where
  keepExpr form := form.store
  keepStmt form := fun arena => return arena.addStmt form.node
  keepBlock span stmts := fun arena => return arena.addBlock span stmts
  keepFunction := .mk
  during _ _ body := body

@[simp] theorem Keeper.during_nodes {α : Type} (activity : Activity) (cursor : Cursor)
    (body : StateT Arena (Except Breach) α) : nodes.during activity cursor body = body := rfl

/-- What was read from a token stream into an arena. -/
structure StoredParse where
  root? : Option ProgramNode
  errors : List SyntaxError
  arena : Arena

namespace StoredParse

/-- Read the stream at a cursor, into an arena that is empty at first. -/
def ofCursor (cursor : Cursor) : Except Breach StoredParse := do
  let (read, arena) ← nodes.program cursor {}
  return ⟨read.value.map fun (functions, body) => ⟨functions, body⟩, read.errors, arena⟩

def ofTokens (tokens : List Token) (closed : Token.Closed tokens) : Except Breach StoredParse :=
  ofCursor (.start tokens closed)

end StoredParse

end Sipl
