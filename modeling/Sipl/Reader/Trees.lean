import Sipl.Reader.Programs

namespace Sipl

namespace Reader

/-- A binary node covers its operands and is reported at the line of its operator. -/
def joinedSite (operator : Token) (left right : Expr) : Site :=
  ⟨operator.site.line, left.span.merge right.span⟩

end Reader

open Reader

@[simp] def ExprForm.tree : ExprForm Expr → Expr
  | literal site value => .literal site value
  | var site name => .var site name
  | unary operator op operand =>
    .unary ⟨operator.site.line, operator.site.span.merge operand.span⟩ op operand
  | arith operator op left right => .arith (joinedSite operator left right) op left right
  | logical operator op left right => .logical (joinedSite operator left right) op left right
  | ifThen site cond thenBranch => .ifThen site cond thenBranch
  | ifElse site cond thenBranch elseBranch => .ifElse site cond thenBranch elseBranch
  | call site callee args => .call site callee args

@[simp] def StmtForm.tree : StmtForm Expr Block → Stmt
  | assign site target value => .assign site target value
  | ifThen site cond thenBlock => .ifThen site cond thenBlock
  | ifElse site cond thenBlock elseBlock => .ifElse site cond thenBlock elseBlock
  | whileLoop site cond body => .whileLoop site cond body

/-- Keep trees, and nothing of what the reader does. -/
def trees : Keeper Id Expr Stmt Block Function where
  keepExpr form := form.tree
  keepStmt form := form.tree
  keepBlock := .mk
  keepFunction := .mk
  during _ _ body := body

namespace Keeper

variable {start : Cursor} {α β : Type}

@[simp] theorem bind_trees (value : α) (next : α → β) : (value >>= next : Id β) = next value := rfl

@[simp] theorem pure_trees (value : α) : (pure value : Id α) = value := rfl

@[simp] theorem keepExpr_trees (form : ExprForm Expr) : trees.keepExpr form = form.tree := rfl

@[simp] theorem keepStmt_trees (form : StmtForm Expr Block) : trees.keepStmt form = form.tree := rfl

@[simp] theorem during_trees (activity : Activity) (cursor : Cursor) (body : α) :
    trees.during activity cursor body = body := rfl

theorem stop_skip (set : KindSet) (cursor : Cursor) :
    (trees.skip set cursor).stop = cursor.skipTo set := by
  fun_induction Cursor.skipTo set cursor with
  | case1 cursor ended => rw [skip, dif_pos ended]; rfl
  | case2 cursor inside listed => rw [skip, dif_neg inside, if_pos listed]; rfl
  | case3 cursor inside other ih =>
      rw [skip, dif_neg inside, if_neg other]
      exact ih

theorem stop_eat (cursor : Cursor) (kind : Kind) (other : kind ≠ .eof) :
    (trees.eat cursor kind other).stop = cursor.eat kind := by
  rw [eat, Cursor.eat]
  split <;> rfl

theorem errors_abandonBlock (cursor : Cursor) (missing : Kind) (message : String) :
    (trees.abandonBlock cursor missing message).errors =
      [cursor.errorHere (.unexpectedToken missing) message] := rfl

theorem stop_abandonBlock (cursor : Cursor) (missing : Kind) (message : String) :
    (trees.abandonBlock cursor missing message).stop =
      (cursor.skipTo .statementBoundary).eat .endWord := by
  rw [← stop_skip, ← stop_eat]
  rfl

end Keeper

namespace Cursor

/-- Take a token of the kind, or fail. -/
def expect (cursor : Cursor) (kind : Kind) (message : String) : Reading cursor Token :=
  trees.expect cursor kind message

/-- Take a name, or fail. -/
def expectName (cursor : Cursor) (message : String) : Reading cursor Token :=
  trees.expectName cursor message

end Cursor

/-- What was read from a token stream.  There is no program if the stream does not start with the
word `program`. -/
structure Parsed where
  program? : Option Program
  errors : List SyntaxError
  deriving Inhabited

namespace Parsed

def hasErrors (parsed : Parsed) : Bool := !parsed.errors.isEmpty

def ofRead {start : Cursor} (read : Recovered start (Option (List Function × Block))) : Parsed :=
  ⟨read.value.map fun (functions, body) => ⟨functions, body⟩, read.errors⟩

/-- Read the stream at a cursor. -/
def ofCursor (cursor : Cursor) : Parsed := ofRead (trees.program cursor)

section

variable {cursor : Cursor}

theorem program?_ofCursor (word : cursor.kind = .programWord) :
    let functions := trees.functions cursor.advance
    (ofCursor cursor).program? = some ⟨functions.value, (trees.block functions.stop).value⟩ := by
  simp [ofCursor, ofRead, Keeper.program, Keeper.programOf, Keeper.pass, Recovered.widen, word]

/-- The errors of a stream that starts with the right word. -/
theorem errors_ofCursor (word : cursor.kind = .programWord) :
    let functions := trees.functions cursor.advance
    let body := trees.block functions.stop
    (ofCursor cursor).errors = functions.errors ++ body.errors ++
      if (functions.errors ++ body.errors).isEmpty && !body.stop.atEnd then
        [body.stop.errorHere .trailingInput "expected end of input after program"]
      else
        [] := by
  simp only [ofCursor, ofRead, Keeper.program, Keeper.programOf, Keeper.pass, Recovered.widen, word]
  rfl

theorem ofCursor_of_other (other : cursor.kind ≠ .programWord) :
    ofCursor cursor = ⟨none, [cursor.errorHere (.unexpectedToken .programWord)
      "expected 'program' at start of source"]⟩ := by
  simp [ofCursor, ofRead, Keeper.program, Recovered.report, other]

end

/-- Read a stream that is closed by an end marker. -/
def ofTokens (tokens : List Token) (closed : Token.Closed tokens) : Parsed :=
  ofCursor (.start tokens closed)

end Parsed

end Sipl
