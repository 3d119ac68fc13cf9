import Mathlib.Data.List.Forall2
import Sipl.Tree.Arena

namespace Sipl

/-- The numbers in a range; nothing if the range reaches beyond what is stored. -/
def ListRange.numbers? (range : ListRange) (stored : List Nat) : Option (List Nat) :=
  if range.start + range.length ≤ stored.length then
    some ((stored.drop range.start).take range.length)
  else
    none

namespace Arena

/-- Everything in an arena stands in the later one, with the same number. -/
structure StaysIn (before after : Arena) : Prop where
  exprs : before.exprs <+: after.exprs
  exprLists : before.exprLists <+: after.exprLists
  stmts : before.stmts <+: after.stmts
  stmtLists : before.stmtLists <+: after.stmtLists

theorem getElem?_of_prefix {α : Type} {before after : List α} {index : Nat} {value : α}
    (stays : before <+: after) (found : before[index]? = some value) :
    after[index]? = some value := by
  obtain ⟨rest, rfl⟩ := stays
  rw [List.getElem?_append_left (List.getElem?_eq_some_iff.mp found).1]
  exact found

theorem numbers?_of_prefix {before after : List Nat} {range : ListRange} {numbers : List Nat}
    (stays : before <+: after) (listed : range.numbers? before = some numbers) :
    range.numbers? after = some numbers := by
  obtain ⟨rest, rfl⟩ := stays
  rw [ListRange.numbers?] at listed
  split at listed
  · next inside =>
      have room : range.length ≤ (before.drop range.start).length := by
        rw [List.length_drop]
        omega
      rw [ListRange.numbers?, if_pos (by rw [List.length_append]; omega), ← listed,
        List.drop_append_of_le_length (by omega), List.take_append_of_le_length room]
  · cases listed

namespace StaysIn

variable {before middle after : Arena}

theorem refl (arena : Arena) : arena.StaysIn arena :=
  ⟨List.prefix_rfl, List.prefix_rfl, List.prefix_rfl, List.prefix_rfl⟩

theorem trans (first : before.StaysIn middle) (second : middle.StaysIn after) :
    before.StaysIn after :=
  ⟨first.exprs.trans second.exprs, first.exprLists.trans second.exprLists,
    first.stmts.trans second.stmts, first.stmtLists.trans second.stmtLists⟩

theorem addExpr (arena : Arena) (node : ExprNode) : arena.StaysIn (arena.addExpr node).2 :=
  ⟨List.prefix_append .., List.prefix_rfl, List.prefix_rfl, List.prefix_rfl⟩

theorem addExprList (arena : Arena) (numbers : List Nat) :
    arena.StaysIn (arena.addExprList numbers).2 :=
  ⟨List.prefix_rfl, List.prefix_append .., List.prefix_rfl, List.prefix_rfl⟩

theorem addStmt (arena : Arena) (node : StmtNode) : arena.StaysIn (arena.addStmt node).2 :=
  ⟨List.prefix_rfl, List.prefix_rfl, List.prefix_append .., List.prefix_rfl⟩

theorem addStmtList (arena : Arena) (numbers : List Nat) :
    arena.StaysIn (arena.addStmtList numbers).2 :=
  ⟨List.prefix_rfl, List.prefix_rfl, List.prefix_rfl, List.prefix_append ..⟩

section

variable (stays : before.StaysIn after)

include stays

theorem expr {number : Nat} {node : ExprNode} (found : before.exprs[number]? = some node) :
    after.exprs[number]? = some node :=
  getElem?_of_prefix stays.exprs found

theorem stmt {number : Nat} {node : StmtNode} (found : before.stmts[number]? = some node) :
    after.stmts[number]? = some node :=
  getElem?_of_prefix stays.stmts found

theorem exprList {range : ListRange} {numbers : List Nat}
    (listed : range.numbers? before.exprLists = some numbers) :
    range.numbers? after.exprLists = some numbers :=
  numbers?_of_prefix stays.exprLists listed

theorem stmtList {range : ListRange} {numbers : List Nat}
    (listed : range.numbers? before.stmtLists = some numbers) :
    range.numbers? after.stmtLists = some numbers :=
  numbers?_of_prefix stays.stmtLists listed

end

end StaysIn

mutual

inductive HoldsExpr (arena : Arena) : Nat → Expr → Prop where
  | literal {number : Nat} {site : Site} {value : Literal}
      (found : arena.exprs[number]? = some (.literal site value)) :
      HoldsExpr arena number (.literal site value)
  | var {number : Nat} {site : Site} {name : String}
      (found : arena.exprs[number]? = some (.var site name)) :
      HoldsExpr arena number (.var site name)
  | unary {number child : Nat} {site : Site} {op : UnaryOp} {operand : Expr}
      (found : arena.exprs[number]? = some (.unary site op child))
      (part : HoldsExpr arena child operand) :
      HoldsExpr arena number (.unary site op operand)
  | arith {number first second : Nat} {site : Site} {op : ArithOp} {left right : Expr}
      (found : arena.exprs[number]? = some (.arith site op first second))
      (leftPart : HoldsExpr arena first left) (rightPart : HoldsExpr arena second right) :
      HoldsExpr arena number (.arith site op left right)
  | logical {number first second : Nat} {site : Site} {op : LogicalOp} {left right : Expr}
      (found : arena.exprs[number]? = some (.logical site op first second))
      (leftPart : HoldsExpr arena first left) (rightPart : HoldsExpr arena second right) :
      HoldsExpr arena number (.logical site op left right)
  | ifThen {number first second : Nat} {site : Site} {cond thenBranch : Expr}
      (found : arena.exprs[number]? = some (.ifThen site first second))
      (condPart : HoldsExpr arena first cond) (thenPart : HoldsExpr arena second thenBranch) :
      HoldsExpr arena number (.ifThen site cond thenBranch)
  | ifElse {number first second third : Nat} {site : Site} {cond thenBranch elseBranch : Expr}
      (found : arena.exprs[number]? = some (.ifElse site first second third))
      (condPart : HoldsExpr arena first cond) (thenPart : HoldsExpr arena second thenBranch)
      (elsePart : HoldsExpr arena third elseBranch) :
      HoldsExpr arena number (.ifElse site cond thenBranch elseBranch)
  | call {number : Nat} {site : Site} {callee : String} {range : ListRange} {numbers : List Nat}
      {args : List Expr} (found : arena.exprs[number]? = some (.call site callee range))
      (listed : range.numbers? arena.exprLists = some numbers)
      (parts : HoldsExprs arena numbers args) :
      HoldsExpr arena number (.call site callee args)

inductive HoldsExprs (arena : Arena) : List Nat → List Expr → Prop where
  | nil : HoldsExprs arena [] []
  | cons {number : Nat} {numbers : List Nat} {expr : Expr} {rest : List Expr}
      (first : HoldsExpr arena number expr) (others : HoldsExprs arena numbers rest) :
      HoldsExprs arena (number :: numbers) (expr :: rest)

end

mutual

inductive HoldsStmt (arena : Arena) : Nat → Stmt → Prop where
  | assign {number child : Nat} {site : Site} {target : String} {value : Expr}
      (found : arena.stmts[number]? = some (.assign site target child))
      (part : arena.HoldsExpr child value) :
      HoldsStmt arena number (.assign site target value)
  | ifThen {number child : Nat} {site : Site} {cond : Expr} {node : BlockNode} {thenBlock : Block}
      (found : arena.stmts[number]? = some (.ifThen site child node))
      (condPart : arena.HoldsExpr child cond) (thenPart : HoldsBlock arena node thenBlock) :
      HoldsStmt arena number (.ifThen site cond thenBlock)
  | ifElse {number child : Nat} {site : Site} {cond : Expr} {node other : BlockNode}
      {thenBlock elseBlock : Block}
      (found : arena.stmts[number]? = some (.ifElse site child node other))
      (condPart : arena.HoldsExpr child cond) (thenPart : HoldsBlock arena node thenBlock)
      (elsePart : HoldsBlock arena other elseBlock) :
      HoldsStmt arena number (.ifElse site cond thenBlock elseBlock)
  | whileLoop {number child : Nat} {site : Site} {cond : Expr} {node : BlockNode} {body : Block}
      (found : arena.stmts[number]? = some (.whileLoop site child node))
      (condPart : arena.HoldsExpr child cond) (bodyPart : HoldsBlock arena node body) :
      HoldsStmt arena number (.whileLoop site cond body)

inductive HoldsBlock (arena : Arena) : BlockNode → Block → Prop where
  | mk {span : Span} {range : ListRange} {numbers : List Nat} {stmts : List Stmt}
      (listed : range.numbers? arena.stmtLists = some numbers)
      (parts : HoldsStmts arena numbers stmts) : HoldsBlock arena ⟨span, range⟩ (.mk span stmts)

inductive HoldsStmts (arena : Arena) : List Nat → List Stmt → Prop where
  | nil : HoldsStmts arena [] []
  | cons {number : Nat} {numbers : List Nat} {stmt : Stmt} {rest : List Stmt}
      (first : HoldsStmt arena number stmt) (others : HoldsStmts arena numbers rest) :
      HoldsStmts arena (number :: numbers) (stmt :: rest)

end

structure HoldsFunction (arena : Arena) (node : FunctionNode) (function : Function) : Prop where
  site : node.site = function.site
  name : node.name = function.name
  params : node.params = function.params
  body : arena.HoldsExpr node.body function.body

structure HoldsProgram (arena : Arena) (node : ProgramNode) (program : Program) : Prop where
  functions : List.Forall₂ arena.HoldsFunction node.functions program.functions
  body : arena.HoldsBlock node.body program.body

section

variable {before after : Arena}

mutual

theorem HoldsExpr.mono {number : Nat} {expr : Expr} (holds : before.HoldsExpr number expr)
    (stays : before.StaysIn after) : after.HoldsExpr number expr := by
  match holds with
  | .literal found => exact .literal (stays.expr found)
  | .var found => exact .var (stays.expr found)
  | .unary found part => exact .unary (stays.expr found) (part.mono stays)
  | .arith found leftPart rightPart =>
      exact .arith (stays.expr found) (leftPart.mono stays) (rightPart.mono stays)
  | .logical found leftPart rightPart =>
      exact .logical (stays.expr found) (leftPart.mono stays) (rightPart.mono stays)
  | .ifThen found condPart thenPart =>
      exact .ifThen (stays.expr found) (condPart.mono stays) (thenPart.mono stays)
  | .ifElse found condPart thenPart elsePart =>
      exact .ifElse (stays.expr found) (condPart.mono stays) (thenPart.mono stays)
        (elsePart.mono stays)
  | .call found listed parts =>
      exact .call (stays.expr found)
        (stays.exprList listed) (parts.mono stays)

theorem HoldsExprs.mono {numbers : List Nat} {exprs : List Expr}
    (holds : before.HoldsExprs numbers exprs) (stays : before.StaysIn after) :
    after.HoldsExprs numbers exprs := by
  match holds with
  | .nil => exact .nil
  | .cons first others => exact .cons (first.mono stays) (others.mono stays)

end

mutual

theorem HoldsStmt.mono {number : Nat} {stmt : Stmt} (holds : before.HoldsStmt number stmt)
    (stays : before.StaysIn after) : after.HoldsStmt number stmt := by
  match holds with
  | .assign found part => exact .assign (stays.stmt found) (part.mono stays)
  | .ifThen found condPart thenPart =>
      exact .ifThen (stays.stmt found) (condPart.mono stays) (thenPart.mono stays)
  | .ifElse found condPart thenPart elsePart =>
      exact .ifElse (stays.stmt found) (condPart.mono stays) (thenPart.mono stays)
        (elsePart.mono stays)
  | .whileLoop found condPart bodyPart =>
      exact .whileLoop (stays.stmt found) (condPart.mono stays) (bodyPart.mono stays)

theorem HoldsBlock.mono {node : BlockNode} {block : Block} (holds : before.HoldsBlock node block)
    (stays : before.StaysIn after) : after.HoldsBlock node block := by
  match holds with
  | .mk listed parts => exact .mk (stays.stmtList listed) (parts.mono stays)

theorem HoldsStmts.mono {numbers : List Nat} {stmts : List Stmt}
    (holds : before.HoldsStmts numbers stmts) (stays : before.StaysIn after) :
    after.HoldsStmts numbers stmts := by
  match holds with
  | .nil => exact .nil
  | .cons first others => exact .cons (first.mono stays) (others.mono stays)

end

theorem HoldsFunction.mono {node : FunctionNode} {function : Function}
    (holds : before.HoldsFunction node function) (stays : before.StaysIn after) :
    after.HoldsFunction node function :=
  ⟨holds.site, holds.name, holds.params, holds.body.mono stays⟩

end

theorem numbers?_append (stored numbers : List Nat) :
    ListRange.numbers? ⟨stored.length, numbers.length⟩ (stored ++ numbers) = some numbers := by
  simp [ListRange.numbers?]

section

variable {before arena : Arena} (stays : before.StaysIn arena)

include stays

/-- A node that is stored behind its parts is the root of a tree. -/
theorem holds_addExpr {node : ExprNode} {expr : Expr}
    (rooted : ∀ {after number}, arena.StaysIn after → after.exprs[number]? = some node →
      after.HoldsExpr number expr) :
    before.StaysIn (arena.addExpr node).2 ∧
      (arena.addExpr node).2.HoldsExpr (arena.addExpr node).1 expr :=
  ⟨stays.trans (.addExpr ..), rooted (.addExpr ..) (by simp [addExpr])⟩

theorem holds_addStmt {node : StmtNode} {stmt : Stmt}
    (rooted : ∀ {after number}, arena.StaysIn after → after.stmts[number]? = some node →
      after.HoldsStmt number stmt) :
    before.StaysIn (arena.addStmt node).2 ∧
      (arena.addStmt node).2.HoldsStmt (arena.addStmt node).1 stmt :=
  ⟨stays.trans (.addStmt ..), rooted (.addStmt ..) (by simp [addStmt])⟩

end

mutual

theorem holds_storeExpr (arena : Arena) (expr : Expr) :
    arena.StaysIn (arena.storeExpr expr).2 ∧
      (arena.storeExpr expr).2.HoldsExpr (arena.storeExpr expr).1 expr := by
  match expr with
  | .literal site value => exact holds_addExpr (.refl arena) fun _ found => .literal found
  | .var site name => exact holds_addExpr (.refl arena) fun _ found => .var found
  | .unary site op operand =>
      obtain ⟨stays, held⟩ := holds_storeExpr arena operand
      exact holds_addExpr stays fun later found => .unary found (held.mono later)
  | .arith site op left right =>
      obtain ⟨stays, first⟩ := holds_storeExpr arena left
      obtain ⟨staysToo, second⟩ := holds_storeExpr (arena.storeExpr left).2 right
      exact holds_addExpr (stays.trans staysToo) fun later found =>
        .arith found (first.mono (staysToo.trans later)) (second.mono later)
  | .logical site op left right =>
      obtain ⟨stays, first⟩ := holds_storeExpr arena left
      obtain ⟨staysToo, second⟩ := holds_storeExpr (arena.storeExpr left).2 right
      exact holds_addExpr (stays.trans staysToo) fun later found =>
        .logical found (first.mono (staysToo.trans later)) (second.mono later)
  | .ifThen site cond thenBranch =>
      obtain ⟨stays, first⟩ := holds_storeExpr arena cond
      obtain ⟨staysToo, second⟩ := holds_storeExpr (arena.storeExpr cond).2 thenBranch
      exact holds_addExpr (stays.trans staysToo) fun later found =>
        .ifThen found (first.mono (staysToo.trans later)) (second.mono later)
  | .ifElse site cond thenBranch elseBranch =>
      obtain ⟨stays, first⟩ := holds_storeExpr arena cond
      obtain ⟨staysToo, second⟩ := holds_storeExpr (arena.storeExpr cond).2 thenBranch
      obtain ⟨staysStill, third⟩ :=
        holds_storeExpr ((arena.storeExpr cond).2.storeExpr thenBranch).2 elseBranch
      exact holds_addExpr (stays.trans (staysToo.trans staysStill)) fun later found =>
        .ifElse found (first.mono (staysToo.trans (staysStill.trans later)))
          (second.mono (staysStill.trans later)) (third.mono later)
  | .call site callee args =>
      obtain ⟨stays, held⟩ := holds_storeExprs arena args
      have listed := StaysIn.addExprList (arena.storeExprs args).2 (arena.storeExprs args).1
      exact holds_addExpr (stays.trans listed) fun later found =>
        .call found (later.exprList (numbers?_append ..))
          (held.mono (listed.trans later))

theorem holds_storeExprs (arena : Arena) (exprs : List Expr) :
    arena.StaysIn (arena.storeExprs exprs).2 ∧
      (arena.storeExprs exprs).2.HoldsExprs (arena.storeExprs exprs).1 exprs := by
  match exprs with
  | [] => exact ⟨.refl arena, .nil⟩
  | expr :: rest =>
      obtain ⟨stays, held⟩ := holds_storeExpr arena expr
      obtain ⟨staysToo, others⟩ := holds_storeExprs (arena.storeExpr expr).2 rest
      exact ⟨stays.trans staysToo, .cons (held.mono staysToo) others⟩

end

mutual

theorem holds_storeStmt (arena : Arena) (stmt : Stmt) :
    arena.StaysIn (arena.storeStmt stmt).2 ∧
      (arena.storeStmt stmt).2.HoldsStmt (arena.storeStmt stmt).1 stmt := by
  match stmt with
  | .assign site target value =>
      obtain ⟨stays, held⟩ := holds_storeExpr arena value
      exact holds_addStmt stays fun later found => .assign found (held.mono later)
  | .ifThen site cond thenBlock =>
      obtain ⟨stays, first⟩ := holds_storeExpr arena cond
      obtain ⟨staysToo, second⟩ := holds_storeBlock (arena.storeExpr cond).2 thenBlock
      exact holds_addStmt (stays.trans staysToo) fun later found =>
        .ifThen found (first.mono (staysToo.trans later)) (second.mono later)
  | .ifElse site cond thenBlock elseBlock =>
      obtain ⟨stays, first⟩ := holds_storeExpr arena cond
      obtain ⟨staysToo, second⟩ := holds_storeBlock (arena.storeExpr cond).2 thenBlock
      obtain ⟨staysStill, third⟩ :=
        holds_storeBlock ((arena.storeExpr cond).2.storeBlock thenBlock).2 elseBlock
      exact holds_addStmt (stays.trans (staysToo.trans staysStill)) fun later found =>
        .ifElse found (first.mono (staysToo.trans (staysStill.trans later)))
          (second.mono (staysStill.trans later)) (third.mono later)
  | .whileLoop site cond body =>
      obtain ⟨stays, first⟩ := holds_storeExpr arena cond
      obtain ⟨staysToo, second⟩ := holds_storeBlock (arena.storeExpr cond).2 body
      exact holds_addStmt (stays.trans staysToo) fun later found =>
        .whileLoop found (first.mono (staysToo.trans later)) (second.mono later)

theorem holds_storeBlock (arena : Arena) (block : Block) :
    arena.StaysIn (arena.storeBlock block).2 ∧
      (arena.storeBlock block).2.HoldsBlock (arena.storeBlock block).1 block := by
  match block with
  | .mk span stmts =>
      obtain ⟨stays, held⟩ := holds_storeStmts arena stmts
      have listed := StaysIn.addStmtList (arena.storeStmts stmts).2 (arena.storeStmts stmts).1
      exact ⟨stays.trans listed, .mk (numbers?_append ..) (held.mono listed)⟩

theorem holds_storeStmts (arena : Arena) (stmts : List Stmt) :
    arena.StaysIn (arena.storeStmts stmts).2 ∧
      (arena.storeStmts stmts).2.HoldsStmts (arena.storeStmts stmts).1 stmts := by
  match stmts with
  | [] => exact ⟨.refl arena, .nil⟩
  | stmt :: rest =>
      obtain ⟨stays, held⟩ := holds_storeStmt arena stmt
      obtain ⟨staysToo, others⟩ := holds_storeStmts (arena.storeStmt stmt).2 rest
      exact ⟨stays.trans staysToo, .cons (held.mono staysToo) others⟩

end

theorem holds_storeFunctions (arena : Arena) (functions : List Function) :
    arena.StaysIn (arena.storeFunctions functions).2 ∧
      List.Forall₂ (arena.storeFunctions functions).2.HoldsFunction
        (arena.storeFunctions functions).1 functions := by
  induction functions generalizing arena with
  | nil => exact ⟨.refl arena, .nil⟩
  | cons function rest ih =>
      obtain ⟨stays, held⟩ := holds_storeExpr arena function.body
      obtain ⟨staysToo, others⟩ := ih (arena.storeExpr function.body).2
      exact ⟨stays.trans staysToo, .cons ⟨rfl, rfl, rfl, held.mono staysToo⟩ others⟩

/-- Wherever a program is stored, the arena holds it. -/
theorem holds_storeProgram (arena : Arena) (program : Program) :
    (arena.storeProgram program).2.HoldsProgram (arena.storeProgram program).1 program := by
  obtain ⟨_, functions⟩ := holds_storeFunctions arena program.functions
  obtain ⟨stays, body⟩ := holds_storeBlock (arena.storeFunctions program.functions).2 program.body
  exact ⟨functions.imp fun _ _ held => held.mono stays, body⟩

end Arena

end Sipl
