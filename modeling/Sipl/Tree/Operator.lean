import Sipl.Token.Kind

namespace Sipl

inductive UnaryOp where
  | neg
  | not
  deriving DecidableEq, Inhabited

namespace UnaryOp

def symbol : UnaryOp → String
  | neg => "-"
  | not => "not"

/-- The operator that a token of the kind stands for in front of an operand. -/
def ofKind? : Kind → Option UnaryOp
  | .minus => some neg
  | .notWord => some not
  | _ => none

end UnaryOp

/-- Operators on integers: the four operations and the six comparisons. -/
inductive ArithOp where
  | add
  | sub
  | mul
  | div
  | eq
  | notEq
  | lt
  | ltEq
  | gt
  | gtEq
  deriving DecidableEq, Inhabited

namespace ArithOp

def symbol : ArithOp → String
  | add => "+"
  | sub => "-"
  | mul => "*"
  | div => "/"
  | eq => "="
  | notEq => "<>"
  | lt => "<"
  | ltEq => "<="
  | gt => ">"
  | gtEq => ">="

/-- Every operator. -/
def all : List ArithOp := [add, sub, mul, div, eq, notEq, lt, ltEq, gt, gtEq]

def isComparison : ArithOp → Bool
  | eq | notEq | lt | ltEq | gt | gtEq => true
  | _ => false

def isAdditive : ArithOp → Bool
  | add | sub => true
  | _ => false

def isMultiplicative : ArithOp → Bool
  | mul | div => true
  | _ => false

/-- The operator that a token of the kind stands for between two operands. -/
def ofKind? : Kind → Option ArithOp
  | .plus => some add
  | .minus => some sub
  | .star => some mul
  | .slash => some div
  | .eq => some eq
  | .notEq => some notEq
  | .lt => some lt
  | .ltEq => some ltEq
  | .gt => some gt
  | .gtEq => some gtEq
  | _ => none

end ArithOp

inductive LogicalOp where
  | and
  | or
  deriving DecidableEq, Inhabited

def LogicalOp.symbol : LogicalOp → String
  | .and => "and"
  | .or => "or"

end Sipl
