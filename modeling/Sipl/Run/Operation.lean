import Sipl.Run.RuntimeError

namespace Sipl

def UnaryOp.operandType : UnaryOp → ValueType
  | neg => .integer
  | not => .boolean

/-- How messages name an operator. -/
def quoted (symbol : String) : String := "'" ++ symbol ++ "'"

def UnaryOp.apply (op : UnaryOp) (operand : Value) : Except Cause Value :=
  match op, operand with
  | neg, .int value => .ok (.int (-value))
  | not, .bool value => .ok (.bool !value)
  | _, _ => .error (.typeMismatch (quoted op.symbol) op.operandType operand.type)

/-- The result on two integers.  Division drops the fraction. -/
def ArithOp.compute (op : ArithOp) (left right : Int) : Value :=
  match op with
  | add => .int (left + right)
  | sub => .int (left - right)
  | mul => .int (left * right)
  | div => .int (left.tdiv right)
  | eq => .bool (left == right)
  | notEq => .bool (left != right)
  | lt => .bool (left < right)
  | ltEq => .bool (left ≤ right)
  | gt => .bool (left > right)
  | gtEq => .bool (left ≥ right)

/-- A zero divisor is reported before the types of the operands are looked at, and a boolean on the
right is named only if the left operand is an integer. -/
def ArithOp.apply (op : ArithOp) (left right : Value) : Except Cause Value :=
  if op = .div ∧ right = .int 0 then
    .error .divisionByZero
  else
    match left, right with
    | .int a, .int b => .ok (op.compute a b)
    | .int _, other => .error (.typeMismatch (quoted op.symbol) .integer other.type)
    | other, _ => .error (.typeMismatch (quoted op.symbol) .integer other.type)

/-- Whether the right operand decides the result alone: a true one for `or`, a false one for
`and`. -/
def LogicalOp.decides (op : LogicalOp) (right : Bool) : Bool :=
  match op with
  | or => right
  | and => !right

end Sipl
