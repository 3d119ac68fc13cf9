import Sipl.Run.Bindings
import Sipl.Run.Operation
import Sipl.Tree.Basic

namespace Sipl.Reference

/-! What a program means is told by derivations over plain maps from names to values.  No scope is
opened and no call is kept: a block forgets the names that were not visible in front of it, a call
starts from a map of its own, and all that is known of the calls around it is their number. -/

/-- The visible names with their values. -/
abbrev Names := String → Option Value

namespace Names

def empty : Names := fun _ => none

def set (names : Names) (name : String) (value : Value) : Names :=
  fun other => if other = name then some value else names other

/-- Only the names that the other map has too. -/
def within (names before : Names) : Names :=
  fun name => if (before name).isSome then names name else none

/-- Parameters with their values; of two of one name the later one counts. -/
def ofParams (params : List Param) (values : List Value) : Names :=
  fun name => ((params.map Param.name).zip values).reverse.lookup name

end Names

inductive UnaryResult : UnaryOp → Value → Except Cause Value → Prop where
  | neg {value : Int} : UnaryResult .neg (.int value) (.ok (.int (-value)))
  | not {value : Bool} : UnaryResult .not (.bool value) (.ok (.bool !value))
  | negBoolean {value : Bool} :
      UnaryResult .neg (.bool value) (.error (.typeMismatch "'-'" .integer .boolean))
  | notInteger {value : Int} :
      UnaryResult .not (.int value) (.error (.typeMismatch "'not'" .boolean .integer))

/-- The value of an operator on two integers.  The remainder of a division is smaller than the
divisor and is on the side of zero where the dividend is. -/
inductive Computes : ArithOp → Int → Int → Value → Prop where
  | add {left right : Int} : Computes .add left right (.int (left + right))
  | sub {left right : Int} : Computes .sub left right (.int (left - right))
  | mul {left right : Int} : Computes .mul left right (.int (left * right))
  | div {left right quotient remainder : Int} (exact : left = right * quotient + remainder)
      (small : remainder.natAbs < right.natAbs) (sided : 0 ≤ left * remainder) :
      Computes .div left right (.int quotient)
  | eq {left right : Int} : Computes .eq left right (.bool (left = right))
  | notEq {left right : Int} : Computes .notEq left right (.bool (left ≠ right))
  | lt {left right : Int} : Computes .lt left right (.bool (left < right))
  | ltEq {left right : Int} : Computes .ltEq left right (.bool (left ≤ right))
  | gt {left right : Int} : Computes .gt left right (.bool (right < left))
  | gtEq {left right : Int} : Computes .gtEq left right (.bool (right ≤ left))

inductive ArithResult : ArithOp → Value → Value → Except Cause Value → Prop where
  | divisionByZero {left : Value} : ArithResult .div left (.int 0) (.error .divisionByZero)
  | integers {op : ArithOp} {left right : Int} {value : Value}
      (computes : Computes op left right value) :
      ArithResult op (.int left) (.int right) (.ok value)
  | rightBoolean {op : ArithOp} {left : Int} {right : Bool} :
      ArithResult op (.int left) (.bool right)
        (.error (.typeMismatch (quoted op.symbol) .integer .boolean))
  | leftBoolean {op : ArithOp} {left : Bool} {right : Value}
      (other : ¬ (op = .div ∧ right = .int 0)) :
      ArithResult op (.bool left) right
        (.error (.typeMismatch (quoted op.symbol) .integer .boolean))

/-- The last declaration of a name. -/
def LastDeclared (program : Program) (name : String) (function : Function) : Prop :=
  ∃ before after, program.functions = before ++ function :: after ∧ function.name = name ∧
    ∀ other ∈ after, other.name ≠ name

def Undeclared (program : Program) (name : String) : Prop :=
  ∀ function ∈ program.functions, function.name ≠ name

/-- What is told of expressions: the value of one, its truth value where the context wants one, or
the values of several from left to right. -/
inductive Judgement where
  | value (expr : Expr) (result : Except Cause Value)
  | truth (context : String) (expr : Expr) (result : Except Cause Bool)
  | values (exprs : List Expr) (result : Except Cause (List Value))

/-- Evaluation inside a number of active calls. -/
inductive Evaluates (program : Program) (limit? : Option Nat) :
    Nat → Names → Judgement → Prop where
  | literal {active : Nat} {names : Names} {site : Site} {literal : Literal} :
      Evaluates program limit? active names
        (.value (.literal site literal) (.ok (.ofLiteral literal)))
  | var {active : Nat} {names : Names} {site : Site} {name : String} {value : Value}
      (bound : names name = some value) :
      Evaluates program limit? active names (.value (.var site name) (.ok value))
  | undefinedVariable {active : Nat} {names : Names} {site : Site} {name : String}
      (free : names name = none) :
      Evaluates program limit? active names
        (.value (.var site name) (.error (.undefinedVariable name)))
  | unary {active : Nat} {names : Names} {site : Site} {op : UnaryOp} {operand : Expr}
      {value : Value} {result : Except Cause Value}
      (evaluated : Evaluates program limit? active names (.value operand (.ok value)))
      (applied : UnaryResult op value result) :
      Evaluates program limit? active names (.value (.unary site op operand) result)
  | unaryFails {active : Nat} {names : Names} {site : Site} {op : UnaryOp} {operand : Expr}
      {cause : Cause}
      (failed : Evaluates program limit? active names (.value operand (.error cause))) :
      Evaluates program limit? active names (.value (.unary site op operand) (.error cause))
  | arith {active : Nat} {names : Names} {site : Site} {op : ArithOp} {left right : Expr}
      {leftValue rightValue : Value} {result : Except Cause Value}
      (first : Evaluates program limit? active names (.value left (.ok leftValue)))
      (second : Evaluates program limit? active names (.value right (.ok rightValue)))
      (applied : ArithResult op leftValue rightValue result) :
      Evaluates program limit? active names (.value (.arith site op left right) result)
  | arithLeftFails {active : Nat} {names : Names} {site : Site} {op : ArithOp} {left right : Expr}
      {cause : Cause}
      (failed : Evaluates program limit? active names (.value left (.error cause))) :
      Evaluates program limit? active names (.value (.arith site op left right) (.error cause))
  | arithRightFails {active : Nat} {names : Names} {site : Site} {op : ArithOp}
      {left right : Expr} {leftValue : Value} {cause : Cause}
      (first : Evaluates program limit? active names (.value left (.ok leftValue)))
      (failed : Evaluates program limit? active names (.value right (.error cause))) :
      Evaluates program limit? active names (.value (.arith site op left right) (.error cause))
  | orHolds {active : Nat} {names : Names} {site : Site} {left right : Expr}
      (first : Evaluates program limit? active names (.truth "'or'" right (.ok true))) :
      Evaluates program limit? active names
        (.value (.logical site .or left right) (.ok (.bool true)))
  | orLeft {active : Nat} {names : Names} {site : Site} {left right : Expr}
      {result : Except Cause Bool}
      (first : Evaluates program limit? active names (.truth "'or'" right (.ok false)))
      (second : Evaluates program limit? active names (.truth "'or'" left result)) :
      Evaluates program limit? active names
        (.value (.logical site .or left right) (result.map .bool))
  | andFails {active : Nat} {names : Names} {site : Site} {left right : Expr}
      (first : Evaluates program limit? active names (.truth "'and'" right (.ok false))) :
      Evaluates program limit? active names
        (.value (.logical site .and left right) (.ok (.bool false)))
  | andLeft {active : Nat} {names : Names} {site : Site} {left right : Expr}
      {result : Except Cause Bool}
      (first : Evaluates program limit? active names (.truth "'and'" right (.ok true)))
      (second : Evaluates program limit? active names (.truth "'and'" left result)) :
      Evaluates program limit? active names
        (.value (.logical site .and left right) (result.map .bool))
  | logicalRightFails {active : Nat} {names : Names} {site : Site} {op : LogicalOp}
      {left right : Expr} {cause : Cause}
      (failed : Evaluates program limit? active names
        (.truth (quoted op.symbol) right (.error cause))) :
      Evaluates program limit? active names (.value (.logical site op left right) (.error cause))
  | ifThen {active : Nat} {names : Names} {site : Site} {cond thenBranch : Expr}
      {result : Except Cause Value}
      (condition : Evaluates program limit? active names
        (.truth "condition of 'if'" cond (.ok true)))
      (branch : Evaluates program limit? active names (.value thenBranch result)) :
      Evaluates program limit? active names (.value (.ifThen site cond thenBranch) result)
  | missingElse {active : Nat} {names : Names} {site : Site} {cond thenBranch : Expr}
      (condition : Evaluates program limit? active names
        (.truth "condition of 'if'" cond (.ok false))) :
      Evaluates program limit? active names
        (.value (.ifThen site cond thenBranch) (.error .missingElse))
  | ifThenFails {active : Nat} {names : Names} {site : Site} {cond thenBranch : Expr}
      {cause : Cause}
      (failed : Evaluates program limit? active names
        (.truth "condition of 'if'" cond (.error cause))) :
      Evaluates program limit? active names (.value (.ifThen site cond thenBranch) (.error cause))
  | ifElse {active : Nat} {names : Names} {site : Site} {cond thenBranch elseBranch : Expr}
      {holds : Bool} {result : Except Cause Value}
      (condition : Evaluates program limit? active names
        (.truth "condition of 'if'" cond (.ok holds)))
      (branch : Evaluates program limit? active names
        (.value (if holds then thenBranch else elseBranch) result)) :
      Evaluates program limit? active names
        (.value (.ifElse site cond thenBranch elseBranch) result)
  | ifElseFails {active : Nat} {names : Names} {site : Site} {cond thenBranch elseBranch : Expr}
      {cause : Cause}
      (failed : Evaluates program limit? active names
        (.truth "condition of 'if'" cond (.error cause))) :
      Evaluates program limit? active names
        (.value (.ifElse site cond thenBranch elseBranch) (.error cause))
  | undefinedFunction {active : Nat} {names : Names} {site : Site} {callee : String}
      {args : List Expr} (undeclared : Undeclared program callee) :
      Evaluates program limit? active names
        (.value (.call site callee args) (.error (.undefinedFunction callee)))
  | argumentFails {active : Nat} {names : Names} {site : Site} {callee : String}
      {args : List Expr} {function : Function} {cause : Cause}
      (declared : LastDeclared program callee function)
      (failed : Evaluates program limit? active names (.values args (.error cause))) :
      Evaluates program limit? active names (.value (.call site callee args) (.error cause))
  | arityMismatch {active : Nat} {names : Names} {site : Site} {callee : String}
      {args : List Expr} {function : Function} {values : List Value}
      (declared : LastDeclared program callee function)
      (arguments : Evaluates program limit? active names (.values args (.ok values)))
      (unfit : values.length ≠ function.params.length) :
      Evaluates program limit? active names (.value (.call site callee args)
        (.error (.arityMismatch callee function.params.length values.length)))
  | callDepthExceeded {active limit : Nat} {names : Names} {site : Site} {callee : String}
      {args : List Expr} {function : Function} {values : List Value}
      (declared : LastDeclared program callee function)
      (arguments : Evaluates program limit? active names (.values args (.ok values)))
      (fit : values.length = function.params.length)
      (limited : limit? = some limit) (full : limit ≤ active) :
      Evaluates program limit? active names
        (.value (.call site callee args) (.error (.callDepthExceeded limit)))
  | call {active : Nat} {names : Names} {site : Site} {callee : String} {args : List Expr}
      {function : Function} {values : List Value} {result : Except Cause Value}
      (declared : LastDeclared program callee function)
      (arguments : Evaluates program limit? active names (.values args (.ok values)))
      (fit : values.length = function.params.length)
      (free : ∀ limit, limit? = some limit → active < limit)
      (body : Evaluates program limit? (active + 1) (.ofParams function.params values)
        (.value function.body result)) :
      Evaluates program limit? active names (.value (.call site callee args) result)
  | truth {active : Nat} {names : Names} {context : String} {expr : Expr} {holds : Bool}
      (evaluated : Evaluates program limit? active names (.value expr (.ok (.bool holds)))) :
      Evaluates program limit? active names (.truth context expr (.ok holds))
  | truthMismatch {active : Nat} {names : Names} {context : String} {expr : Expr} {value : Int}
      (evaluated : Evaluates program limit? active names (.value expr (.ok (.int value)))) :
      Evaluates program limit? active names
        (.truth context expr (.error (.typeMismatch context .boolean .integer)))
  | truthFails {active : Nat} {names : Names} {context : String} {expr : Expr} {cause : Cause}
      (failed : Evaluates program limit? active names (.value expr (.error cause))) :
      Evaluates program limit? active names (.truth context expr (.error cause))
  | noValues {active : Nat} {names : Names} :
      Evaluates program limit? active names (.values [] (.ok []))
  | moreValues {active : Nat} {names : Names} {first : Expr} {others : List Expr} {value : Value}
      {result : Except Cause (List Value)}
      (one : Evaluates program limit? active names (.value first (.ok value)))
      (rest : Evaluates program limit? active names (.values others result)) :
      Evaluates program limit? active names (.values (first :: others) (result.map (value :: ·)))
  | valuesFail {active : Nat} {names : Names} {first : Expr} {others : List Expr} {cause : Cause}
      (failed : Evaluates program limit? active names (.value first (.error cause))) :
      Evaluates program limit? active names (.values (first :: others) (.error cause))

/-- What is told of code: the map that it leaves behind. -/
inductive Effect where
  | stmt (stmt : Stmt) (result : Except Cause Names)
  | stmts (stmts : List Stmt) (result : Except Cause Names)
  | block (block : Block) (result : Except Cause Names)

inductive Runs (program : Program) (limit? : Option Nat) : Names → Effect → Prop where
  | assign {names : Names} {site : Site} {target : String} {expr : Expr} {value : Value}
      (evaluated : Evaluates program limit? 0 names (.value expr (.ok value))) :
      Runs program limit? names (.stmt (.assign site target expr) (.ok (names.set target value)))
  | assignFails {names : Names} {site : Site} {target : String} {expr : Expr} {cause : Cause}
      (failed : Evaluates program limit? 0 names (.value expr (.error cause))) :
      Runs program limit? names (.stmt (.assign site target expr) (.error cause))
  | ifThen {names : Names} {site : Site} {cond : Expr} {thenBlock : Block}
      {result : Except Cause Names}
      (condition : Evaluates program limit? 0 names (.truth "condition of 'if'" cond (.ok true)))
      (branch : Runs program limit? names (.block thenBlock result)) :
      Runs program limit? names (.stmt (.ifThen site cond thenBlock) result)
  | ifThenSkipped {names : Names} {site : Site} {cond : Expr} {thenBlock : Block}
      (condition : Evaluates program limit? 0 names (.truth "condition of 'if'" cond (.ok false))) :
      Runs program limit? names (.stmt (.ifThen site cond thenBlock) (.ok names))
  | ifThenFails {names : Names} {site : Site} {cond : Expr} {thenBlock : Block} {cause : Cause}
      (failed : Evaluates program limit? 0 names
        (.truth "condition of 'if'" cond (.error cause))) :
      Runs program limit? names (.stmt (.ifThen site cond thenBlock) (.error cause))
  | ifElse {names : Names} {site : Site} {cond : Expr} {thenBlock elseBlock : Block} {holds : Bool}
      {result : Except Cause Names}
      (condition : Evaluates program limit? 0 names (.truth "condition of 'if'" cond (.ok holds)))
      (branch : Runs program limit? names
        (.block (if holds then thenBlock else elseBlock) result)) :
      Runs program limit? names (.stmt (.ifElse site cond thenBlock elseBlock) result)
  | ifElseFails {names : Names} {site : Site} {cond : Expr} {thenBlock elseBlock : Block}
      {cause : Cause}
      (failed : Evaluates program limit? 0 names
        (.truth "condition of 'if'" cond (.error cause))) :
      Runs program limit? names (.stmt (.ifElse site cond thenBlock elseBlock) (.error cause))
  | whileEnds {names : Names} {site : Site} {cond : Expr} {body : Block}
      (condition : Evaluates program limit? 0 names
        (.truth "condition of 'while'" cond (.ok false))) :
      Runs program limit? names (.stmt (.whileLoop site cond body) (.ok names))
  | whileLoop {names after : Names} {site : Site} {cond : Expr} {body : Block}
      {result : Except Cause Names}
      (condition : Evaluates program limit? 0 names (.truth "condition of 'while'" cond (.ok true)))
      (turn : Runs program limit? names (.block body (.ok after)))
      (again : Runs program limit? after (.stmt (.whileLoop site cond body) result)) :
      Runs program limit? names (.stmt (.whileLoop site cond body) result)
  | whileBodyFails {names : Names} {site : Site} {cond : Expr} {body : Block} {cause : Cause}
      (condition : Evaluates program limit? 0 names (.truth "condition of 'while'" cond (.ok true)))
      (failed : Runs program limit? names (.block body (.error cause))) :
      Runs program limit? names (.stmt (.whileLoop site cond body) (.error cause))
  | whileFails {names : Names} {site : Site} {cond : Expr} {body : Block} {cause : Cause}
      (failed : Evaluates program limit? 0 names
        (.truth "condition of 'while'" cond (.error cause))) :
      Runs program limit? names (.stmt (.whileLoop site cond body) (.error cause))
  | none {names : Names} : Runs program limit? names (.stmts [] (.ok names))
  | more {names after : Names} {first : Stmt} {others : List Stmt} {result : Except Cause Names}
      (one : Runs program limit? names (.stmt first (.ok after)))
      (rest : Runs program limit? after (.stmts others result)) :
      Runs program limit? names (.stmts (first :: others) result)
  | stop {names : Names} {first : Stmt} {others : List Stmt} {cause : Cause}
      (failed : Runs program limit? names (.stmt first (.error cause))) :
      Runs program limit? names (.stmts (first :: others) (.error cause))
  | block {names : Names} {block : Block} {result : Except Cause Names}
      (inner : Runs program limit? names (.stmts block.stmts result)) :
      Runs program limit? names (.block block (result.map (·.within names)))

/-- The entries of a map in the order of their names. -/
structure Lists (bindings : Bindings) (names : Names) : Prop where
  ordered : bindings.entries.Pairwise fun first second => first.1 < second.1
  complete : ∀ name value, (name, value) ∈ bindings.entries ↔ names name = some value

/-- What a program leaves behind, or why it fails. -/
inductive Means (program : Program) (limit? : Option Nat) : Except Cause Bindings → Prop where
  | ends {names : Names} {bindings : Bindings}
      (run : Runs program limit? .empty (.stmts program.body.stmts (.ok names)))
      (listed : Lists bindings names) : Means program limit? (.ok bindings)
  | fails {cause : Cause}
      (run : Runs program limit? .empty (.stmts program.body.stmts (.error cause))) :
      Means program limit? (.error cause)

end Sipl.Reference
