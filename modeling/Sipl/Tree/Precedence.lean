import Sipl.Tree.Basic

namespace Sipl

inductive Precedence where
  | or
  | and
  | comparison
  | additive
  | multiplicative
  | unary
  | primary
  deriving DecidableEq, Inhabited

namespace Precedence

/-- Every level, from the loosest to the tightest. -/
def all : List Precedence := [or, and, comparison, additive, multiplicative, unary, primary]

def rank : Precedence → Nat
  | or => 0
  | and => 1
  | comparison => 2
  | additive => 3
  | multiplicative => 4
  | unary => 5
  | primary => 6

instance : LT Precedence := ⟨fun left right => left.rank < right.rank⟩

instance (left right : Precedence) : Decidable (left < right) :=
  inferInstanceAs (Decidable (left.rank < right.rank))

end Precedence

def ArithOp.precedence : ArithOp → Precedence
  | add | sub => .additive
  | mul | div => .multiplicative
  | eq | notEq | lt | ltEq | gt | gtEq => .comparison

/-- What the left and the right operand must bind as tightly as. -/
def ArithOp.operandPrecedence (op : ArithOp) : Precedence × Precedence :=
  match op.precedence with
  | .additive => (.additive, .multiplicative)
  | .multiplicative => (.unary, .multiplicative)
  | _ => (.additive, .additive)

def LogicalOp.precedence : LogicalOp → Precedence
  | or => .or
  | and => .and

def LogicalOp.operandPrecedence : LogicalOp → Precedence × Precedence
  | or => (.or, .and)
  | and => (.and, .unary)

namespace Expr

def precedence : Expr → Precedence
  | logical _ op _ _ => op.precedence
  | arith _ op _ _ => op.precedence
  | unary _ _ _ => .unary
  | _ => .primary

/-- The operand precedences of a binary expression. -/
def operandPrecedence? : Expr → Option (Precedence × Precedence)
  | logical _ op _ _ => some op.operandPrecedence
  | arith _ op _ _ => some op.operandPrecedence
  | _ => none

def isConditional : Expr → Bool
  | ifThen _ _ _ => true
  | ifElse _ _ _ _ => true
  | _ => false

/-- Whether an `else` written behind the expression would belong to it. -/
def endsOpen : Expr → Bool
  | ifThen _ _ _ => true
  | ifElse _ _ _ elseBranch => elseBranch.endsOpen
  | _ => false

end Expr

end Sipl
