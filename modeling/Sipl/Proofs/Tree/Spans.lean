import Sipl.Tree.Basic

namespace Sipl

inductive SpanTree where
  | node (span : Span) (children : List SpanTree)

namespace SpanTree

def span : SpanTree → Span
  | node span _ => span

/-- Every span in the tree is as told. -/
inductive All (holds : Span → Prop) : SpanTree → Prop where
  | node {span : Span} {children : List SpanTree} (here : holds span)
      (inside : ∀ child ∈ children, All holds child) : All holds (node span children)

/-- Every span in the tree starts where one of the tokens starts and stops where one of them stops;
it covers the spans of its children, and these stand apart, one behind the other. -/
inductive Nests (tokens : List Token) : SpanTree → Prop where
  | node {span : Span} {children : List SpanTree}
      (starts : ∃ token ∈ tokens, token.site.span.start = span.start)
      (stops : ∃ token ∈ tokens, token.site.span.stop = span.stop)
      (covers : ∀ child ∈ children, span.start ≤ child.span.start ∧ child.span.stop ≤ span.stop)
      (apart : children.Pairwise fun left right => left.span.stop ≤ right.span.start)
      (inside : ∀ child ∈ children, Nests tokens child) : Nests tokens (node span children)

theorem All.here {holds : Span → Prop} {tree : SpanTree} (all : tree.All holds) :
    holds tree.span := by
  cases all with
  | node here => exact here

end SpanTree

namespace Expr

mutual

def spans : Expr → SpanTree
  | literal site _ => .node site.span []
  | var site _ => .node site.span []
  | unary site _ operand => .node site.span [operand.spans]
  | arith site _ left right => .node site.span [left.spans, right.spans]
  | logical site _ left right => .node site.span [left.spans, right.spans]
  | ifThen site cond thenBranch => .node site.span [cond.spans, thenBranch.spans]
  | ifElse site cond thenBranch elseBranch =>
    .node site.span [cond.spans, thenBranch.spans, elseBranch.spans]
  | call site _ args => .node site.span (argsSpans args)

def argsSpans : List Expr → List SpanTree
  | [] => []
  | arg :: others => arg.spans :: argsSpans others

end

@[simp] theorem span_spans (expr : Expr) : expr.spans.span = expr.span := by
  cases expr <;> rfl

end Expr

mutual

def Stmt.spans : Stmt → SpanTree
  | .assign site _ value => .node site.span [value.spans]
  | .ifThen site cond thenBlock => .node site.span [cond.spans, thenBlock.spans]
  | .ifElse site cond thenBlock elseBlock =>
    .node site.span [cond.spans, thenBlock.spans, elseBlock.spans]
  | .whileLoop site cond body => .node site.span [cond.spans, body.spans]

def Block.spans : Block → SpanTree
  | .mk span stmts => .node span (stmtsSpans stmts)

def stmtsSpans : List Stmt → List SpanTree
  | [] => []
  | stmt :: others => stmt.spans :: stmtsSpans others

end

def Param.spans (param : Param) : SpanTree := .node param.span []

def Function.spans (function : Function) : SpanTree :=
  .node function.site.span (function.params.map Param.spans ++ [function.body.spans])

/-- The spans of the functions of a program and of its main block. -/
def Program.spans (program : Program) : List SpanTree :=
  program.functions.map Function.spans ++ [program.body.spans]

end Sipl
