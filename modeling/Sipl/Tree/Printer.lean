import Sipl.Text.Layout
import Sipl.Tree.Precedence

namespace Sipl

/-! A program is written in one canonical form, with parentheses only where reading needs them and
around a conditional that is an operand.  Sites leave no trace in it. -/

/-- Put parentheses around what was written, if they are needed. -/
def Ink.grouped (needed : Bool) (inks : List Ink) : List Ink :=
  if needed then word "(" :: inks ++ [word ")"] else inks

open Ink

namespace Expr

/-- Whether an expression is grouped where it has to bind as tightly as the given level. -/
def loose (expr : Expr) (minimum : Precedence) : Bool := decide (expr.precedence < minimum)

/-- Whether an operand is grouped. -/
def looseOperand (expr : Expr) (minimum : Precedence) : Bool :=
  expr.isConditional || expr.loose minimum

def unaryInks : UnaryOp → List Ink
  | .neg => [word "-"]
  | .not => [word "not", space]

def binaryInks (symbol : String) (left right : List Ink) : List Ink :=
  left ++ space :: word symbol :: space :: right

mutual

def inks : Expr → List Ink
  | literal _ value => [word value.text]
  | var _ name => [word name]
  | unary _ op operand => unaryInks op ++ grouped (operand.looseOperand .unary) operand.inks
  | arith _ op left right =>
    binaryInks op.symbol
      (grouped (left.looseOperand op.operandPrecedence.1) left.inks)
      (grouped (right.looseOperand op.operandPrecedence.2) right.inks)
  | logical _ op left right =>
    binaryInks op.symbol
      (grouped (left.looseOperand op.operandPrecedence.1) left.inks)
      (grouped (right.looseOperand op.operandPrecedence.2) right.inks)
  | ifThen _ cond thenBranch =>
    word "if" :: space :: cond.inks ++ space :: word "then" :: space ::
      grouped (thenBranch.loose .comparison) thenBranch.inks
  | ifElse _ cond thenBranch elseBranch =>
    word "if" :: space :: cond.inks ++ space :: word "then" :: space ::
      grouped (thenBranch.endsOpen || thenBranch.loose .comparison) thenBranch.inks ++
      space :: word "else" :: space :: grouped (elseBranch.loose .comparison) elseBranch.inks
  | call _ callee args => word callee :: word "(" :: commaSeparated (argsInks args) ++ [word ")"]

/-- What is written for each argument of a call. -/
def argsInks : List Expr → List (List Ink)
  | [] => []
  | arg :: rest => grouped (arg.loose .comparison) arg.inks :: argsInks rest

end

/-- An expression where it has to bind as tightly as the given level. -/
def inksAt (expr : Expr) (minimum : Precedence) : List Ink :=
  grouped (expr.loose minimum) expr.inks

def formatAt (expr : Expr) (minimum : Precedence) : String := render (expr.inksAt minimum)

def format (expr : Expr) : String := expr.formatAt .or

end Expr

/-- How far a block is indented behind the line it starts on. -/
def indentWidth : Nat := 4

mutual

/-- A statement whose first line is indented by the given number of levels. -/
def Stmt.inks (depth : Nat) : Stmt → List Ink
  | .assign _ target value => word target :: space :: word ":=" :: space :: value.inks
  | .ifThen _ cond thenBlock =>
    word "if" :: space :: cond.inks ++ space :: word "then" :: space :: thenBlock.inks depth
  | .ifElse _ cond thenBlock elseBlock =>
    word "if" :: space :: cond.inks ++ space :: word "then" :: space :: thenBlock.inks depth ++
      space :: word "else" :: space :: elseBlock.inks depth
  | .whileLoop _ cond body =>
    word "while" :: space :: cond.inks ++ space :: word "do" :: space :: body.inks depth

/-- A block that starts on a line indented by the given number of levels. -/
def Block.inks (depth : Nat) : Block → List Ink
  | .mk _ [] => [word "begin", space, word "end"]
  | .mk _ (first :: rest) =>
    word "begin" :: line ((depth + 1) * indentWidth) :: first.inks (depth + 1) ++
      stmtsInks (depth + 1) rest ++ [line (depth * indentWidth), word "end"]

/-- The statements behind the first one of a block. -/
def stmtsInks (depth : Nat) : List Stmt → List Ink
  | [] => []
  | stmt :: rest =>
    word ";" :: line (depth * indentWidth) :: stmt.inks depth ++ stmtsInks depth rest

end

def Function.inks (function : Function) : List Ink :=
  word "func" :: space :: word function.name :: word "(" ::
    commaSeparated (function.params.map fun param => [word param.name]) ++
    word ")" :: space :: word "=" :: space :: function.body.inksAt .comparison

/-- The function declarations, each ended by a line break and all but the last by a semicolon. -/
def functionsInks : List Function → List Ink
  | [] => []
  | [last] => last.inks ++ [line 0]
  | first :: rest => first.inks ++ word ";" :: line 0 :: functionsInks rest

def Program.inks (program : Program) : List Ink :=
  word "program" :: line 0 :: functionsInks program.functions ++ program.body.inks 0 ++ [line 0]

/-- The canonical text of a program. -/
def Program.format (program : Program) : String := Layout.endLine (render program.inks)

end Sipl
