import Sipl.Tree.Basic

namespace Sipl

structure OutlineLine where
  depth : Nat
  text : String
  deriving DecidableEq, Inhabited

def OutlineLine.render (line : OutlineLine) : String :=
  String.ofList (List.replicate (2 * line.depth) ' ') ++ line.text ++ "\n"

namespace Expr

mutual

def outline (depth : Nat) : Expr → List OutlineLine
  | literal _ value => [⟨depth, value.text⟩]
  | var _ name => [⟨depth, "var " ++ name⟩]
  | unary _ op operand => ⟨depth, op.symbol⟩ :: operand.outline (depth + 1)
  | arith _ op left right =>
    ⟨depth, op.symbol⟩ :: left.outline (depth + 1) ++ right.outline (depth + 1)
  | logical _ op left right =>
    ⟨depth, op.symbol⟩ :: left.outline (depth + 1) ++ right.outline (depth + 1)
  | ifThen _ cond thenBranch =>
    ⟨depth, "if-expr"⟩ :: cond.outline (depth + 1) ++ thenBranch.outline (depth + 1)
  | ifElse _ cond thenBranch elseBranch =>
    ⟨depth, "if-expr"⟩ :: cond.outline (depth + 1) ++ thenBranch.outline (depth + 1) ++
      elseBranch.outline (depth + 1)
  | call _ callee args => ⟨depth, "call " ++ callee⟩ :: outlineAll (depth + 1) args

def outlineAll (depth : Nat) : List Expr → List OutlineLine
  | [] => []
  | expr :: rest => expr.outline depth ++ outlineAll depth rest

end

end Expr

/-- How a line of an outline tells where its node stands. -/
def lineNote (site : Site) : String := " [line " ++ toString site.line ++ "]"

mutual

def Stmt.outline (depth : Nat) : Stmt → List OutlineLine
  | .assign site target value =>
    ⟨depth, "assign " ++ target ++ lineNote site⟩ :: value.outline (depth + 1)
  | .ifThen site cond thenBlock =>
    ⟨depth, "if" ++ lineNote site⟩ :: cond.outline (depth + 1) ++ thenBlock.outline (depth + 1)
  | .ifElse site cond thenBlock elseBlock =>
    ⟨depth, "if" ++ lineNote site⟩ :: cond.outline (depth + 1) ++
      thenBlock.outline (depth + 1) ++ elseBlock.outline (depth + 1)
  | .whileLoop site cond body =>
    ⟨depth, "while" ++ lineNote site⟩ :: cond.outline (depth + 1) ++ body.outline (depth + 1)

def Block.outline (depth : Nat) : Block → List OutlineLine
  | .mk _ stmts => ⟨depth, "block"⟩ :: stmtsOutline (depth + 1) stmts

def stmtsOutline (depth : Nat) : List Stmt → List OutlineLine
  | [] => []
  | stmt :: rest => stmt.outline depth ++ stmtsOutline depth rest

end

def Function.outline (function : Function) : List OutlineLine :=
  let params := ", ".intercalate (function.params.map Param.name)
  ⟨1, "func " ++ function.name ++ "(" ++ params ++ ")" ++ lineNote function.site⟩ ::
    function.body.outline 2

def Program.outlineLines (program : Program) : List OutlineLine :=
  ⟨0, "program"⟩ :: program.functions.flatMap Function.outline ++ program.body.outline 1

def Program.outline (program : Program) : String :=
  String.join (program.outlineLines.map OutlineLine.render)

end Sipl
