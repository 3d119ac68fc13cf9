import Sipl.Proofs.Run.Reference
import Sipl.Run.RuntimeError

namespace Sipl.Reference

/-! The reference semantics tells which node of a program raises an error and through which nodes
the error goes from there.  A run reaches a statement, its evaluation goes down from one expression
to a part of it, as far as the node whose own evaluation is refused. -/

/-- What a part is to the node that has it evaluated. -/
inductive Role where
  /-- An operand of a unary or an arithmetic operator. -/
  | operand
  /-- The right operand of a logical operator, which is evaluated first. -/
  | decider
  /-- The left operand of a logical operator. -/
  | other
  | condition
  | branch
  | argument
  /-- The body of a function that was called. -/
  | body (frame : Frame)

structure Step where
  site : Site
  role : Role

/-- An error on its way out. -/
structure Trail where
  cause : Cause
  /-- The node that raised it. -/
  raised : Site
  /-- The nodes that had one of their parts evaluated, the innermost first. -/
  steps : List Step := []

namespace Trail

/-- One more node has a part evaluated that fails. -/
def through (trail : Trail) (site : Site) (role : Role) : Trail :=
  { trail with steps := trail.steps ++ [⟨site, role⟩] }

/-- The calls that are active where the error is raised, the latest one first. -/
def frames (trail : Trail) : List Frame :=
  trail.steps.filterMap fun step =>
    match step.role with
    | .body frame => some frame
    | _ => none

end Trail

/-- A right operand that leaves the result of a logical operator to the left one. -/
inductive Undecided : LogicalOp → Bool → Prop where
  | or : Undecided .or false
  | and : Undecided .and true

section Expressions

variable (program : Program) (limit? : Option Nat)

/-- The evaluation of a node is refused although that of its parts is not. -/
inductive Raises (active : Nat) (names : Names) : Expr → Cause → Prop where
  | undefinedVariable {site : Site} {name : String} (free : names name = none) :
      Raises active names (.var site name) (.undefinedVariable name)
  | unary {site : Site} {op : UnaryOp} {operand : Expr} {value : Value} {cause : Cause}
      (evaluated : Evaluates program limit? active names (.value operand (.ok value)))
      (refused : UnaryResult op value (.error cause)) :
      Raises active names (.unary site op operand) cause
  | arith {site : Site} {op : ArithOp} {left right : Expr} {leftValue rightValue : Value}
      {cause : Cause} (first : Evaluates program limit? active names (.value left (.ok leftValue)))
      (second : Evaluates program limit? active names (.value right (.ok rightValue)))
      (refused : ArithResult op leftValue rightValue (.error cause)) :
      Raises active names (.arith site op left right) cause
  | decider {site : Site} {op : LogicalOp} {left right : Expr} {value : Int}
      (evaluated : Evaluates program limit? active names (.value right (.ok (.int value)))) :
      Raises active names (.logical site op left right)
        (.typeMismatch (quoted op.symbol) .boolean .integer)
  | other {site : Site} {op : LogicalOp} {left right : Expr} {decided : Bool} {value : Int}
      (first : Evaluates program limit? active names (.value right (.ok (.bool decided))))
      (undecided : Undecided op decided)
      (evaluated : Evaluates program limit? active names (.value left (.ok (.int value)))) :
      Raises active names (.logical site op left right)
        (.typeMismatch (quoted op.symbol) .boolean .integer)
  | ifThen {site : Site} {cond thenBranch : Expr} {value : Int}
      (evaluated : Evaluates program limit? active names (.value cond (.ok (.int value)))) :
      Raises active names (.ifThen site cond thenBranch)
        (.typeMismatch "condition of 'if'" .boolean .integer)
  | ifElse {site : Site} {cond thenBranch elseBranch : Expr} {value : Int}
      (evaluated : Evaluates program limit? active names (.value cond (.ok (.int value)))) :
      Raises active names (.ifElse site cond thenBranch elseBranch)
        (.typeMismatch "condition of 'if'" .boolean .integer)
  | missingElse {site : Site} {cond thenBranch : Expr}
      (condition : Evaluates program limit? active names (.value cond (.ok (.bool false)))) :
      Raises active names (.ifThen site cond thenBranch) .missingElse
  | undefinedFunction {site : Site} {callee : String} {args : List Expr}
      (undeclared : Undeclared program callee) :
      Raises active names (.call site callee args) (.undefinedFunction callee)
  | arityMismatch {site : Site} {callee : String} {args : List Expr} {function : Function}
      {values : List Value} (declared : LastDeclared program callee function)
      (arguments : Evaluates program limit? active names (.values args (.ok values)))
      (unfit : values.length ≠ function.params.length) :
      Raises active names (.call site callee args)
        (.arityMismatch callee function.params.length values.length)
  | callDepthExceeded {site : Site} {callee : String} {args : List Expr} {function : Function}
      {values : List Value} {limit : Nat} (declared : LastDeclared program callee function)
      (arguments : Evaluates program limit? active names (.values args (.ok values)))
      (fit : values.length = function.params.length) (limited : limit? = some limit)
      (full : limit ≤ active) :
      Raises active names (.call site callee args) (.callDepthExceeded limit)

/-- A node has a part evaluated among the same names. -/
inductive Enters (active : Nat) (names : Names) : Expr → Role → Expr → Prop where
  | unary {site : Site} {op : UnaryOp} {operand : Expr} :
      Enters active names (.unary site op operand) .operand operand
  | left {site : Site} {op : ArithOp} {left right : Expr} :
      Enters active names (.arith site op left right) .operand left
  | right {site : Site} {op : ArithOp} {left right : Expr} {value : Value}
      (first : Evaluates program limit? active names (.value left (.ok value))) :
      Enters active names (.arith site op left right) .operand right
  | decider {site : Site} {op : LogicalOp} {left right : Expr} :
      Enters active names (.logical site op left right) .decider right
  | other {site : Site} {op : LogicalOp} {left right : Expr} {decided : Bool}
      (first : Evaluates program limit? active names (.value right (.ok (.bool decided))))
      (undecided : Undecided op decided) :
      Enters active names (.logical site op left right) .other left
  | ifThen {site : Site} {cond thenBranch : Expr} :
      Enters active names (.ifThen site cond thenBranch) .condition cond
  | ifElse {site : Site} {cond thenBranch elseBranch : Expr} :
      Enters active names (.ifElse site cond thenBranch elseBranch) .condition cond
  | thenBranch {site : Site} {cond thenBranch : Expr}
      (condition : Evaluates program limit? active names (.value cond (.ok (.bool true)))) :
      Enters active names (.ifThen site cond thenBranch) .branch thenBranch
  | eitherBranch {site : Site} {cond thenBranch elseBranch : Expr} {holds : Bool}
      (condition : Evaluates program limit? active names (.value cond (.ok (.bool holds)))) :
      Enters active names (.ifElse site cond thenBranch elseBranch) .branch
        (if holds then thenBranch else elseBranch)
  | argument {site : Site} {callee : String} {before after : List Expr} {arg : Expr}
      {function : Function} {values : List Value}
      (declared : LastDeclared program callee function)
      (earlier : Evaluates program limit? active names (.values before (.ok values))) :
      Enters active names (.call site callee (before ++ arg :: after)) .argument arg

/-- An expression fails inside a number of active calls. -/
inductive Fails : Nat → Names → Expr → Trail → Prop where
  | raised {active : Nat} {names : Names} {expr : Expr} {cause : Cause}
      (raises : Raises program limit? active names expr cause) :
      Fails active names expr { cause, raised := expr.site }
  | inside {active : Nat} {names : Names} {expr part : Expr} {role : Role} {trail : Trail}
      (enters : Enters program limit? active names expr role part)
      (failed : Fails active names part trail) :
      Fails active names expr (trail.through expr.site role)
  | called {active : Nat} {names : Names} {site : Site} {callee : String} {args : List Expr}
      {function : Function} {values : List Value} {trail : Trail}
      (declared : LastDeclared program callee function)
      (arguments : Evaluates program limit? active names (.values args (.ok values)))
      (fit : values.length = function.params.length)
      (free : ∀ limit, limit? = some limit → active < limit)
      (failed : Fails (active + 1) (.ofParams function.params values) function.body trail) :
      Fails active names (.call site callee args)
        (trail.through site (.body ⟨callee, site.line⟩))

end Expressions

/-- The condition of a statement, with how messages name it. -/
def test? : Stmt → Option (Expr × String)
  | .assign _ _ _ => none
  | .ifThen _ cond _ | .ifElse _ cond _ _ => some (cond, "condition of 'if'")
  | .whileLoop _ cond _ => some (cond, "condition of 'while'")

section Statements

variable (program : Program) (limit? : Option Nat)

/-- A statement fails by itself, not by a statement of one of its blocks. -/
inductive StmtFails (names : Names) : Stmt → Trail → Prop where
  | value {site : Site} {target : String} {expr : Expr} {trail : Trail}
      (failed : Fails program limit? 0 names expr trail) :
      StmtFails names (.assign site target expr) trail
  | condition {stmt : Stmt} {cond : Expr} {context : String} {trail : Trail}
      (tested : test? stmt = some (cond, context))
      (failed : Fails program limit? 0 names cond trail) : StmtFails names stmt trail
  | mismatch {stmt : Stmt} {cond : Expr} {context : String} {value : Int}
      (tested : test? stmt = some (cond, context))
      (evaluated : Evaluates program limit? 0 names (.value cond (.ok (.int value)))) :
      StmtFails names stmt
        { cause := .typeMismatch context .boolean .integer, raised := stmt.site }

/-- A run of statements comes to a statement, with the names that are visible there. -/
inductive Reaches : Names → List Stmt → Names → Stmt → Prop where
  | here {names : Names} {stmt : Stmt} {others : List Stmt} :
      Reaches names (stmt :: others) names stmt
  | later {names after final : Names} {first stmt : Stmt} {others : List Stmt}
      (one : Runs program limit? names (.stmt first (.ok after)))
      (rest : Reaches after others final stmt) : Reaches names (first :: others) final stmt
  | ifThen {names final : Names} {site : Site} {cond : Expr} {thenBlock : Block} {stmt : Stmt}
      {others : List Stmt}
      (condition : Evaluates program limit? 0 names (.value cond (.ok (.bool true))))
      (inner : Reaches names thenBlock.stmts final stmt) :
      Reaches names (.ifThen site cond thenBlock :: others) final stmt
  | ifElse {names final : Names} {site : Site} {cond : Expr} {thenBlock elseBlock : Block}
      {stmt : Stmt} {others : List Stmt} {holds : Bool}
      (condition : Evaluates program limit? 0 names (.value cond (.ok (.bool holds))))
      (inner : Reaches names (if holds then thenBlock else elseBlock).stmts final stmt) :
      Reaches names (.ifElse site cond thenBlock elseBlock :: others) final stmt
  | whileLoop {names final : Names} {site : Site} {cond : Expr} {body : Block} {stmt : Stmt}
      {others : List Stmt}
      (condition : Evaluates program limit? 0 names (.value cond (.ok (.bool true))))
      (inner : Reaches names body.stmts final stmt) :
      Reaches names (.whileLoop site cond body :: others) final stmt
  | again {names after final : Names} {site : Site} {cond : Expr} {body : Block} {stmt : Stmt}
      {others : List Stmt}
      (condition : Evaluates program limit? 0 names (.value cond (.ok (.bool true))))
      (turn : Runs program limit? names (.block body (.ok after)))
      (rest : Reaches after (.whileLoop site cond body :: others) final stmt) :
      Reaches names (.whileLoop site cond body :: others) final stmt

/-- A program comes to a statement that fails by itself. -/
def FailsAlong (trail : Trail) : Prop :=
  ∃ names stmt, Reaches program limit? .empty program.body.stmts names stmt ∧
    StmtFails program limit? names stmt trail

end Statements

end Sipl.Reference
