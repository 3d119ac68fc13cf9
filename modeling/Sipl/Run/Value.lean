import Sipl.Token.Basic
import Sipl.Tree.Operator

namespace Sipl

inductive Value where
  | int (value : Int)
  | bool (value : Bool)
  deriving DecidableEq, Inhabited

/-- The two types of values.  Nothing converts between them. -/
inductive ValueType where
  | integer
  | boolean
  deriving DecidableEq, Inhabited

def ValueType.name : ValueType → String
  | integer => "integer"
  | boolean => "boolean"

namespace Value

def ofLiteral : Literal → Value
  | .int value => int value
  | .bool value => bool value

def type : Value → ValueType
  | int _ => .integer
  | bool _ => .boolean

def text : Value → String
  | int value => toString value
  | bool value => toString value

end Value

end Sipl
