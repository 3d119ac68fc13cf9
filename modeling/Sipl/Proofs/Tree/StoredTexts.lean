import Sipl.Proofs.Run.StoredRun
import Sipl.Tree.Outline
import Sipl.Tree.Printer

namespace Sipl

/-- What is found by following numbers. -/
abbrev Followed (α : Type) := OptionT (Except Breach) α

namespace ExprNode

def precedence : ExprNode → Precedence
  | logical _ op _ _ => op.precedence
  | arith _ op _ _ => op.precedence
  | unary _ _ _ => .unary
  | _ => .primary

def isConditional : ExprNode → Bool
  | ifThen _ _ _ => true
  | ifElse _ _ _ _ => true
  | _ => false

end ExprNode

namespace StoredProgram

variable (program : StoredProgram)

open Ink

/-- An expression where it has to bind as tightly as the given level. -/
def inksAt (inks : Nat → Followed (List Ink)) (number : Nat) (minimum : Precedence) :
    Followed (List Ink) := do
  let node ← program.expr number
  return grouped (decide (node.precedence < minimum)) (← inks number)

def operandInks (inks : Nat → Followed (List Ink)) (number : Nat) (minimum : Precedence) :
    Followed (List Ink) := do
  let node ← program.expr number
  return grouped (node.isConditional || decide (node.precedence < minimum)) (← inks number)

/-- Whether an `else` written behind the expression would belong to it. -/
def endsOpen : Nat → Nat → Followed Bool
  | 0, _ => failure
  | fuel + 1, number => do
    match ← program.expr number with
    | .ifThen _ _ _ => return true
    | .ifElse _ _ _ elseBranch => endsOpen fuel elseBranch
    | _ => return false

def exprInks : Nat → Nat → Followed (List Ink)
  | 0, _ => failure
  | fuel + 1, number => do
    match ← program.expr number with
    | .literal _ value => return [word value.text]
    | .var _ name => return [word name]
    | .unary _ op operand =>
      return Expr.unaryInks op ++ (← program.operandInks (exprInks fuel) operand .unary)
    | .arith _ op left right =>
      let leftInks ← program.operandInks (exprInks fuel) left op.operandPrecedence.1
      let rightInks ← program.operandInks (exprInks fuel) right op.operandPrecedence.2
      return Expr.binaryInks op.symbol leftInks rightInks
    | .logical _ op left right =>
      let leftInks ← program.operandInks (exprInks fuel) left op.operandPrecedence.1
      let rightInks ← program.operandInks (exprInks fuel) right op.operandPrecedence.2
      return Expr.binaryInks op.symbol leftInks rightInks
    | .ifThen _ cond thenBranch =>
      let condInks ← program.inksAt (exprInks fuel) cond .or
      let thenInks ← program.inksAt (exprInks fuel) thenBranch .comparison
      return word "if" :: space :: condInks ++ space :: word "then" :: space :: thenInks
    | .ifElse _ cond thenBranch elseBranch =>
      let condInks ← program.inksAt (exprInks fuel) cond .or
      let thenInks ←
        if ← program.endsOpen fuel thenBranch then
          grouped true <$> exprInks fuel thenBranch
        else
          program.inksAt (exprInks fuel) thenBranch .comparison
      let elseInks ← program.inksAt (exprInks fuel) elseBranch .comparison
      return word "if" :: space :: condInks ++ space :: word "then" :: space :: thenInks ++
        space :: word "else" :: space :: elseInks
    | .call _ callee range =>
      let args ← program.exprs range
      let inks ← args.mapM fun arg => program.inksAt (exprInks fuel) arg .comparison
      return word callee :: word "(" :: commaSeparated inks ++ [word ")"]

/-- A block that starts on a line indented by the given number of levels. -/
def blockInks (inks : Nat → Nat → Followed (List Ink)) (depth : Nat) (block : BlockNode) :
    Followed (List Ink) := do
  match ← program.stmts block.stmts with
  | [] => return [word "begin", space, word "end"]
  | first :: rest =>
    let firstInks ← inks (depth + 1) first
    let others ← rest.mapM (inks (depth + 1))
    return word "begin" :: line ((depth + 1) * indentWidth) :: firstInks ++
      others.flatMap (fun inks => word ";" :: line ((depth + 1) * indentWidth) :: inks) ++
      [line (depth * indentWidth), word "end"]

/-- A statement whose first line is indented by the given number of levels. -/
def stmtInks : Nat → Nat → Nat → Followed (List Ink)
  | 0, _, _ => failure
  | fuel + 1, depth, number => do
    match ← program.stmt number with
    | .assign _ target value =>
      let inks ← program.inksAt (program.exprInks fuel) value .or
      return word target :: space :: word ":=" :: space :: inks
    | .ifThen _ cond thenBlock =>
      let condInks ← program.inksAt (program.exprInks fuel) cond .or
      let thenInks ← program.blockInks (stmtInks fuel) depth thenBlock
      return word "if" :: space :: condInks ++ space :: word "then" :: space :: thenInks
    | .ifElse _ cond thenBlock elseBlock =>
      let condInks ← program.inksAt (program.exprInks fuel) cond .or
      let thenInks ← program.blockInks (stmtInks fuel) depth thenBlock
      let elseInks ← program.blockInks (stmtInks fuel) depth elseBlock
      return word "if" :: space :: condInks ++ space :: word "then" :: space :: thenInks ++
        space :: word "else" :: space :: elseInks
    | .whileLoop _ cond body =>
      let condInks ← program.inksAt (program.exprInks fuel) cond .or
      let bodyInks ← program.blockInks (stmtInks fuel) depth body
      return word "while" :: space :: condInks ++ space :: word "do" :: space :: bodyInks

def functionInks (fuel : Nat) (node : FunctionNode) : Followed (List Ink) := do
  let bodyInks ← program.inksAt (program.exprInks fuel) node.body .comparison
  return word "func" :: space :: word node.name :: word "(" ::
    commaSeparated (node.params.map fun param => [word param.name]) ++
    word ")" :: space :: word "=" :: space :: bodyInks

/-- The function declarations, each ended by a line break and all but the last by a semicolon. -/
def functionsInks (fuel : Nat) : List FunctionNode → Followed (List Ink)
  | [] => return []
  | [last] => return (← program.functionInks fuel last) ++ [line 0]
  | first :: rest => do
    let inks ← program.functionInks fuel first
    return inks ++ word ";" :: line 0 :: (← functionsInks fuel rest)

/-- The canonical text of the program. -/
def format (fuel : Nat) : Followed String := do
  let functions ← program.functionsInks fuel program.root.functions
  let body ← program.blockInks (program.stmtInks fuel) 0 program.root.body
  return Layout.endLine (render (word "program" :: line 0 :: functions ++ body ++ [line 0]))

def exprOutline : Nat → Nat → Nat → Followed (List OutlineLine)
  | 0, _, _ => failure
  | fuel + 1, depth, number => do
    match ← program.expr number with
    | .literal _ value => return [⟨depth, value.text⟩]
    | .var _ name => return [⟨depth, "var " ++ name⟩]
    | .unary _ op operand => return ⟨depth, op.symbol⟩ :: (← exprOutline fuel (depth + 1) operand)
    | .arith _ op left right =>
      let leftLines ← exprOutline fuel (depth + 1) left
      let rightLines ← exprOutline fuel (depth + 1) right
      return ⟨depth, op.symbol⟩ :: leftLines ++ rightLines
    | .logical _ op left right =>
      let leftLines ← exprOutline fuel (depth + 1) left
      let rightLines ← exprOutline fuel (depth + 1) right
      return ⟨depth, op.symbol⟩ :: leftLines ++ rightLines
    | .ifThen _ cond thenBranch =>
      let condLines ← exprOutline fuel (depth + 1) cond
      let thenLines ← exprOutline fuel (depth + 1) thenBranch
      return ⟨depth, "if-expr"⟩ :: condLines ++ thenLines
    | .ifElse _ cond thenBranch elseBranch =>
      let condLines ← exprOutline fuel (depth + 1) cond
      let thenLines ← exprOutline fuel (depth + 1) thenBranch
      let elseLines ← exprOutline fuel (depth + 1) elseBranch
      return ⟨depth, "if-expr"⟩ :: condLines ++ thenLines ++ elseLines
    | .call _ callee range =>
      let args ← program.exprs range
      let lines ← args.mapM (exprOutline fuel (depth + 1))
      return ⟨depth, "call " ++ callee⟩ :: lines.flatten

def blockOutline (outline : Nat → Nat → Followed (List OutlineLine)) (depth : Nat)
    (block : BlockNode) : Followed (List OutlineLine) := do
  let numbers ← program.stmts block.stmts
  let lines ← numbers.mapM (outline (depth + 1))
  return ⟨depth, "block"⟩ :: lines.flatten

def stmtOutline : Nat → Nat → Nat → Followed (List OutlineLine)
  | 0, _, _ => failure
  | fuel + 1, depth, number => do
    match ← program.stmt number with
    | .assign site target value =>
      let lines ← program.exprOutline fuel (depth + 1) value
      return ⟨depth, "assign " ++ target ++ lineNote site⟩ :: lines
    | .ifThen site cond thenBlock =>
      let condLines ← program.exprOutline fuel (depth + 1) cond
      let thenLines ← program.blockOutline (stmtOutline fuel) (depth + 1) thenBlock
      return ⟨depth, "if" ++ lineNote site⟩ :: condLines ++ thenLines
    | .ifElse site cond thenBlock elseBlock =>
      let condLines ← program.exprOutline fuel (depth + 1) cond
      let thenLines ← program.blockOutline (stmtOutline fuel) (depth + 1) thenBlock
      let elseLines ← program.blockOutline (stmtOutline fuel) (depth + 1) elseBlock
      return ⟨depth, "if" ++ lineNote site⟩ :: condLines ++ thenLines ++ elseLines
    | .whileLoop site cond body =>
      let condLines ← program.exprOutline fuel (depth + 1) cond
      let bodyLines ← program.blockOutline (stmtOutline fuel) (depth + 1) body
      return ⟨depth, "while" ++ lineNote site⟩ :: condLines ++ bodyLines

def functionOutline (fuel : Nat) (node : FunctionNode) : Followed (List OutlineLine) := do
  let params := ", ".intercalate (node.params.map Param.name)
  let lines ← program.exprOutline fuel 2 node.body
  return ⟨1, "func " ++ node.name ++ "(" ++ params ++ ")" ++ lineNote node.site⟩ :: lines

def outline (fuel : Nat) : Followed String := do
  let functions ← program.root.functions.mapM (program.functionOutline fuel)
  let body ← program.blockOutline (program.stmtOutline fuel) 1 program.root.body
  return String.join
    ((⟨0, "program"⟩ :: functions.flatten ++ body).map OutlineLine.render)

end StoredProgram

end Sipl
