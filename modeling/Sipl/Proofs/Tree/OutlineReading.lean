import Sipl.Proofs.Tree.NodeTexts

namespace Sipl

open OutlineLine

mutual

def Expr.outlineTree : Expr → OutlineTree
  | .literal _ value => .node value.text []
  | .var _ name => .node ("var " ++ name) []
  | .unary _ op operand => .node op.symbol [operand.outlineTree]
  | .arith _ op left right => .node op.symbol [left.outlineTree, right.outlineTree]
  | .logical _ op left right => .node op.symbol [left.outlineTree, right.outlineTree]
  | .ifThen _ cond thenBranch => .node "if-expr" [cond.outlineTree, thenBranch.outlineTree]
  | .ifElse _ cond thenBranch elseBranch =>
    .node "if-expr" [cond.outlineTree, thenBranch.outlineTree, elseBranch.outlineTree]
  | .call _ callee args => .node ("call " ++ callee) (Expr.argsTrees args)

def Expr.argsTrees : List Expr → List OutlineTree
  | [] => []
  | arg :: rest => arg.outlineTree :: Expr.argsTrees rest

end

mutual

def Stmt.outlineTree : Stmt → OutlineTree
  | .assign site target value =>
    .node ("assign " ++ target ++ lineNote site) [value.outlineTree]
  | .ifThen site cond thenBlock =>
    .node ("if" ++ lineNote site) [cond.outlineTree, thenBlock.outlineTree]
  | .ifElse site cond thenBlock elseBlock =>
    .node ("if" ++ lineNote site)
      [cond.outlineTree, thenBlock.outlineTree, elseBlock.outlineTree]
  | .whileLoop site cond body =>
    .node ("while" ++ lineNote site) [cond.outlineTree, body.outlineTree]

def Block.outlineTree : Block → OutlineTree
  | .mk _ stmts => .node "block" (stmtsTrees stmts)

def stmtsTrees : List Stmt → List OutlineTree
  | [] => []
  | stmt :: rest => stmt.outlineTree :: stmtsTrees rest

end

def Function.outlineTree (function : Function) : OutlineTree :=
  .node ("func " ++ function.name ++ "(" ++ ", ".intercalate (function.params.map Param.name) ++
    ")" ++ lineNote function.site) [function.body.outlineTree]

def Program.outlineTree (program : Program) : OutlineTree :=
  .node "program" (program.functions.map Function.outlineTree ++ [program.body.outlineTree])

open OutlineTree (linesAll)

namespace Expr

mutual

theorem lines_outlineTree (depth : Nat) (expr : Expr) :
    expr.outlineTree.lines depth = expr.outline depth := by
  match expr with
  | literal .. | var .. => rfl
  | unary _ _ operand => simp [outlineTree, outline, OutlineTree.lines, linesAll,
      lines_outlineTree (depth + 1) operand]
  | arith _ _ left right => simp [outlineTree, outline, OutlineTree.lines, linesAll,
      lines_outlineTree (depth + 1) left, lines_outlineTree (depth + 1) right]
  | logical _ _ left right => simp [outlineTree, outline, OutlineTree.lines, linesAll,
      lines_outlineTree (depth + 1) left, lines_outlineTree (depth + 1) right]
  | ifThen _ cond thenBranch => simp [outlineTree, outline, OutlineTree.lines, linesAll,
      lines_outlineTree (depth + 1) cond, lines_outlineTree (depth + 1) thenBranch]
  | ifElse _ cond thenBranch elseBranch => simp [outlineTree, outline, OutlineTree.lines, linesAll,
      lines_outlineTree (depth + 1) cond, lines_outlineTree (depth + 1) thenBranch,
      lines_outlineTree (depth + 1) elseBranch]
  | call _ _ args => simp [outlineTree, outline, OutlineTree.lines,
      linesAll_argsTrees (depth + 1) args]

theorem linesAll_argsTrees (depth : Nat) (args : List Expr) :
    linesAll depth (argsTrees args) = outlineAll depth args := by
  match args with
  | [] => rfl
  | arg :: rest => rw [argsTrees, linesAll, outlineAll, lines_outlineTree depth arg,
      linesAll_argsTrees depth rest]

end

end Expr

mutual

theorem Stmt.lines_outlineTree (depth : Nat) (stmt : Stmt) :
    stmt.outlineTree.lines depth = stmt.outline depth := by
  match stmt with
  | .assign _ _ value => simp [Stmt.outlineTree, Stmt.outline, OutlineTree.lines, linesAll,
      value.lines_outlineTree]
  | .ifThen _ cond thenBlock => simp [Stmt.outlineTree, Stmt.outline, OutlineTree.lines, linesAll,
      cond.lines_outlineTree, Block.lines_outlineTree (depth + 1) thenBlock]
  | .ifElse _ cond thenBlock elseBlock => simp [Stmt.outlineTree, Stmt.outline, OutlineTree.lines,
      linesAll, cond.lines_outlineTree, Block.lines_outlineTree (depth + 1) thenBlock,
      Block.lines_outlineTree (depth + 1) elseBlock]
  | .whileLoop _ cond body => simp [Stmt.outlineTree, Stmt.outline, OutlineTree.lines, linesAll,
      cond.lines_outlineTree, Block.lines_outlineTree (depth + 1) body]

theorem Block.lines_outlineTree (depth : Nat) (block : Block) :
    block.outlineTree.lines depth = block.outline depth := by
  match block with
  | .mk _ stmts => rw [Block.outlineTree, Block.outline, OutlineTree.lines,
      linesAll_stmtsTrees (depth + 1) stmts]

theorem linesAll_stmtsTrees (depth : Nat) (stmts : List Stmt) :
    linesAll depth (stmtsTrees stmts) = stmtsOutline depth stmts := by
  match stmts with
  | [] => rfl
  | stmt :: rest => rw [stmtsTrees, linesAll, stmtsOutline, Stmt.lines_outlineTree depth stmt,
      linesAll_stmtsTrees depth rest]

end

theorem Program.lines_outlineTree (program : Program) :
    program.outlineTree.lines 0 = program.outlineLines := by
  have functions : ∀ functions : List Function,
      linesAll 1 (functions.map Function.outlineTree ++ [program.body.outlineTree]) =
        functions.flatMap Function.outline ++ program.body.outline 1 := by
    intro functions
    induction functions with
    | nil => simp [linesAll, program.body.lines_outlineTree]
    | cons function rest ih =>
        simp [linesAll, ih, Function.outlineTree, Function.outline, OutlineTree.lines,
          function.body.lines_outlineTree]
  rw [outlineTree, outlineLines, OutlineTree.lines, functions]
  rfl

namespace Expr

section

variable {motive : Expr → Prop}

mutual

/-- What holds of an expression if it holds of its parts holds of every expression. -/
theorem induction_on_parts (step : ∀ expr, (∀ part ∈ expr.parts, motive part) → motive expr)
    (expr : Expr) : motive expr := by
  apply step
  match expr with
  | literal .. | var .. => exact List.forall_mem_nil _
  | unary _ _ operand => exact List.forall_mem_singleton.mpr (induction_on_parts step operand)
  | arith _ _ left right | logical _ _ left right | ifThen _ left right =>
      exact List.forall_mem_cons.mpr ⟨induction_on_parts step left,
        List.forall_mem_singleton.mpr (induction_on_parts step right)⟩
  | ifElse _ cond thenBranch elseBranch =>
      exact List.forall_mem_cons.mpr ⟨induction_on_parts step cond,
        List.forall_mem_cons.mpr ⟨induction_on_parts step thenBranch,
          List.forall_mem_singleton.mpr (induction_on_parts step elseBranch)⟩⟩
  | call _ _ args => exact induction_on_args step args

theorem induction_on_args (step : ∀ expr, (∀ part ∈ expr.parts, motive part) → motive expr)
    (args : List Expr) : ∀ arg ∈ args, motive arg := by
  match args with
  | [] => exact List.forall_mem_nil _
  | arg :: rest =>
      exact List.forall_mem_cons.mpr ⟨induction_on_parts step arg, induction_on_args step rest⟩

end

end

theorem argsTrees_eq_map (args : List Expr) : argsTrees args = args.map outlineTree := by
  induction args with
  | nil => rfl
  | cons arg rest ih => rw [argsTrees, ih, List.map_cons]

theorem outlineTree_eq (expr : Expr) :
    expr.outlineTree = .node expr.text (expr.parts.map outlineTree) := by
  cases expr with
  | call site callee args => rw [outlineTree, argsTrees_eq_map, text, Expr.parts]
  | _ => simp [outlineTree, text, Expr.parts]

/-- Expressions that are shown alike are alike up to places. -/
theorem unplaced_eq_of_outlineTree {expr other : Expr}
    (same : expr.outlineTree = other.outlineTree) : expr.unplaced = other.unplaced := by
  induction expr using induction_on_parts generalizing other with
  | step expr ih =>
      rw [outlineTree_eq, outlineTree_eq] at same
      obtain ⟨texts, trees⟩ := OutlineTree.node.inj same
      apply unplaced_eq_of_parts texts
      exact map_eq_of_map_eq trees fun part member partToo _ alike => ih part member alike

theorem parts_unplaced (expr : Expr) : expr.unplaced.parts = expr.parts.map unplaced := by
  cases expr with
  | call site callee args => rw [unplaced, Expr.parts, Expr.parts, argsUnplaced_eq_map]
  | _ => rfl

theorem outlineTree_unplaced (expr : Expr) : expr.unplaced.outlineTree = expr.outlineTree := by
  induction expr using induction_on_parts with
  | step expr ih =>
      have texts : expr.unplaced.text = expr.text := by cases expr <;> rfl
      rw [outlineTree_eq, outlineTree_eq, texts, parts_unplaced, List.map_map]
      congr 1
      exact List.map_congr_left ih

theorem Named.clean_lines {expr : Expr} (named : expr.Named) (depth : Nat) :
    ∀ line ∈ expr.outlineTree.lines depth, Clean line.text := by
  induction expr using induction_on_parts generalizing depth with
  | step expr ih =>
      rw [outlineTree_eq, OutlineTree.lines, List.forall_mem_cons]
      refine ⟨named.clean, fun line member => ?_⟩
      obtain ⟨tree, listed, shown⟩ := OutlineTree.mem_linesAll.mp member
      obtain ⟨part, inside, rfl⟩ := List.mem_map.mp listed
      exact ih part inside (named.part inside) (depth + 1) line shown

end Expr

/-- A site of which only the line is kept. -/
def Site.lined (site : Site) : Site := ⟨site.line, default⟩

mutual

/-- The statement without spans and without the lines of its expressions. -/
def Stmt.lined : Stmt → Stmt
  | .assign site target value => .assign site.lined target value.unplaced
  | .ifThen site cond thenBlock => .ifThen site.lined cond.unplaced thenBlock.lined
  | .ifElse site cond thenBlock elseBlock =>
    .ifElse site.lined cond.unplaced thenBlock.lined elseBlock.lined
  | .whileLoop site cond body => .whileLoop site.lined cond.unplaced body.lined

def Block.lined : Block → Block
  | .mk _ stmts => .mk default (stmtsLined stmts)

def stmtsLined : List Stmt → List Stmt
  | [] => []
  | stmt :: rest => stmt.lined :: stmtsLined rest

end

/-- The target and the value or condition of a statement have words for names. -/
def Stmt.Worded (stmt : Stmt) : Prop :=
  (∀ target ∈ stmt.target?, IsWord target) ∧ stmt.expr.Named

/-- The names in all the statements inside of a block are words. -/
def Block.Named (block : Block) : Prop :=
  ∀ inner ∈ block.blocks, ∀ stmt ∈ inner.stmts, stmt.Worded

def Stmt.Named (stmt : Stmt) : Prop :=
  stmt.Worded ∧ ∀ inner ∈ stmt.blocks, ∀ stmt ∈ inner.stmts, stmt.Worded

theorem Block.Named.stmt {span : Span} {stmts : List Stmt} (named : (Block.mk span stmts).Named)
    {stmt : Stmt} (member : stmt ∈ stmts) : stmt.Named := by
  rw [Block.Named, Block.blocks, List.forall_mem_cons] at named
  obtain ⟨own, inside⟩ := named
  exact ⟨own stmt member, fun inner listed =>
    forall_mem_stmtsBlocks.mp inside stmt member inner listed⟩

theorem ifText_ne_while {site other : Site} :
    "if" ++ lineNote site ≠ "while" ++ lineNote other := by
  intro same
  have chars := congrArg (fun text => text.toList.head?) same
  simp at chars

theorem assignText_ne_if {site other : Site} {target : String} :
    "assign " ++ target ++ lineNote site ≠ "if" ++ lineNote other := by
  intro same
  have chars := congrArg (fun text => text.toList.head?) same
  simp at chars

theorem assignText_ne_while {site other : Site} {target : String} :
    "assign " ++ target ++ lineNote site ≠ "while" ++ lineNote other := by
  intro same
  have chars := congrArg (fun text => text.toList.head?) same
  simp at chars

theorem keyword_injective {keyword : String} {site other : Site}
    (same : keyword ++ lineNote site = keyword ++ lineNote other) : site.lined = other.lined := by
  rw [Site.lined, Site.lined, lineNote_injective ((String.append_right_inj keyword).mp same)]

mutual

theorem Stmt.lined_eq_of_outlineTree (stmt other : Stmt) (named : stmt.Named)
    (namedToo : other.Named) (same : stmt.outlineTree = other.outlineTree) :
    stmt.lined = other.lined := by
  match stmt, other with
  | .assign site target value, .assign siteToo targetToo valueToo =>
      obtain ⟨texts, trees⟩ := OutlineTree.node.inj same
      obtain ⟨rfl, lines⟩ :=
        assignText_injective (named.1.1 target rfl) (namedToo.1.1 targetToo rfl) texts
      have values := Expr.unplaced_eq_of_outlineTree (List.cons.inj trees).1
      rw [Stmt.lined, Stmt.lined, Site.lined, Site.lined, lines, values]
  | .ifThen site cond thenBlock, .ifThen siteToo condToo thenToo =>
      obtain ⟨texts, trees⟩ := OutlineTree.node.inj same
      simp only [List.cons.injEq, and_true] at trees
      have conds := Expr.unplaced_eq_of_outlineTree trees.1
      have blocks := Block.lined_eq_of_outlineTree thenBlock thenToo named.2 namedToo.2 trees.2
      rw [Stmt.lined, Stmt.lined, keyword_injective texts, conds, blocks]
  | .ifElse site cond thenBlock elseBlock, .ifElse siteToo condToo thenToo elseToo =>
      obtain ⟨texts, trees⟩ := OutlineTree.node.inj same
      simp only [List.cons.injEq, and_true] at trees
      obtain ⟨inThen, inElse⟩ := List.forall_mem_append.mp named.2
      obtain ⟨inThenToo, inElseToo⟩ := List.forall_mem_append.mp namedToo.2
      have conds := Expr.unplaced_eq_of_outlineTree trees.1
      have first := Block.lined_eq_of_outlineTree thenBlock thenToo inThen inThenToo trees.2.1
      have second := Block.lined_eq_of_outlineTree elseBlock elseToo inElse inElseToo trees.2.2
      rw [Stmt.lined, Stmt.lined, keyword_injective texts, conds, first, second]
  | .whileLoop site cond body, .whileLoop siteToo condToo bodyToo =>
      obtain ⟨texts, trees⟩ := OutlineTree.node.inj same
      simp only [List.cons.injEq, and_true] at trees
      have conds := Expr.unplaced_eq_of_outlineTree trees.1
      have bodies := Block.lined_eq_of_outlineTree body bodyToo named.2 namedToo.2 trees.2
      rw [Stmt.lined, Stmt.lined, keyword_injective texts, conds, bodies]
  | .assign .., .ifThen .. | .assign .., .ifElse .. =>
      exact absurd (OutlineTree.node.inj same).1 assignText_ne_if
  | .ifThen .., .assign .. | .ifElse .., .assign .. =>
      exact absurd (OutlineTree.node.inj same).1.symm assignText_ne_if
  | .assign .., .whileLoop .. => exact absurd (OutlineTree.node.inj same).1 assignText_ne_while
  | .whileLoop .., .assign .. => exact absurd (OutlineTree.node.inj same).1.symm assignText_ne_while
  | .ifThen .., .whileLoop .. | .ifElse .., .whileLoop .. =>
      exact absurd (OutlineTree.node.inj same).1 ifText_ne_while
  | .whileLoop .., .ifThen .. | .whileLoop .., .ifElse .. =>
      exact absurd (OutlineTree.node.inj same).1.symm ifText_ne_while
  -- One block and two blocks are different numbers of children.
  | .ifThen .., .ifElse .. | .ifElse .., .ifThen .. =>
      have trees := (OutlineTree.node.inj same).2
      simp at trees

theorem Block.lined_eq_of_outlineTree (block other : Block) (named : block.Named)
    (namedToo : other.Named) (same : block.outlineTree = other.outlineTree) :
    block.lined = other.lined := by
  match block, other with
  | .mk span stmts, .mk spanToo others =>
      obtain ⟨_, trees⟩ := OutlineTree.node.inj same
      rw [Block.lined, Block.lined, stmtsLined_eq_of_outlineTree stmts others
        (fun stmt member => named.stmt member) (fun stmt member => namedToo.stmt member) trees]

theorem stmtsLined_eq_of_outlineTree (stmts others : List Stmt)
    (named : ∀ stmt ∈ stmts, stmt.Named) (namedToo : ∀ stmt ∈ others, stmt.Named)
    (same : stmtsTrees stmts = stmtsTrees others) : stmtsLined stmts = stmtsLined others := by
  match stmts, others with
  | [], [] => rfl
  | [], other :: rest => cases same
  | stmt :: rest, [] => cases same
  | stmt :: rest, other :: restToo =>
      obtain ⟨first, later⟩ := List.cons.inj same
      obtain ⟨own, inside⟩ := List.forall_mem_cons.mp named
      obtain ⟨ownToo, insideToo⟩ := List.forall_mem_cons.mp namedToo
      rw [stmtsLined, stmtsLined, Stmt.lined_eq_of_outlineTree stmt other own ownToo first,
        stmtsLined_eq_of_outlineTree rest restToo inside insideToo later]

end

mutual

theorem Stmt.outlineTree_lined (stmt : Stmt) : stmt.lined.outlineTree = stmt.outlineTree := by
  match stmt with
  | .assign _ _ value => simp [Stmt.lined, Stmt.outlineTree, value.outlineTree_unplaced, Site.lined,
      lineNote]
  | .ifThen _ cond thenBlock => simp [Stmt.lined, Stmt.outlineTree, cond.outlineTree_unplaced,
      Block.outlineTree_lined thenBlock, Site.lined, lineNote]
  | .ifElse _ cond thenBlock elseBlock => simp [Stmt.lined, Stmt.outlineTree,
      cond.outlineTree_unplaced, Block.outlineTree_lined thenBlock,
      Block.outlineTree_lined elseBlock, Site.lined, lineNote]
  | .whileLoop _ cond body => simp [Stmt.lined, Stmt.outlineTree, cond.outlineTree_unplaced,
      Block.outlineTree_lined body, Site.lined, lineNote]

theorem Block.outlineTree_lined (block : Block) :
    block.lined.outlineTree = block.outlineTree := by
  match block with
  | .mk _ stmts => rw [Block.lined, Block.outlineTree, Block.outlineTree, stmtsTrees_lined stmts]

theorem stmtsTrees_lined (stmts : List Stmt) :
    stmtsTrees (stmtsLined stmts) = stmtsTrees stmts := by
  match stmts with
  | [] => rfl
  | stmt :: rest => rw [stmtsLined, stmtsTrees, stmtsTrees, Stmt.outlineTree_lined stmt,
      stmtsTrees_lined rest]

end

theorem Stmt.clean_text {keyword : String} {site : Site} (clean : Clean keyword)
    (filled : keyword ≠ "") : Clean (keyword ++ lineNote site) :=
  clean.append filled (graphic_lineNote site).unbroken

mutual

theorem Stmt.clean_lines (stmt : Stmt) (named : stmt.Named) (depth : Nat) :
    ∀ line ∈ stmt.outlineTree.lines depth, Clean line.text := by
  match stmt with
  | .assign site target value =>
      simp only [Stmt.outlineTree, OutlineTree.lines, linesAll, List.append_nil,
        List.forall_mem_cons]
      have word := named.1.1 target rfl
      have keyword : Clean ("assign " ++ target) :=
        Clean.append (by decide) (by decide) word.graphic.unbroken
      exact ⟨Stmt.clean_text keyword (by simp), named.1.2.clean_lines (depth + 1)⟩
  | .ifThen site cond thenBlock =>
      simp only [Stmt.outlineTree, OutlineTree.lines, linesAll, List.append_nil,
        List.forall_mem_cons, List.forall_mem_append]
      exact ⟨Stmt.clean_text (by decide) (by decide), named.1.2.clean_lines (depth + 1),
        Block.clean_lines thenBlock named.2 (depth + 1)⟩
  | .ifElse site cond thenBlock elseBlock =>
      simp only [Stmt.outlineTree, OutlineTree.lines, linesAll, List.append_nil,
        List.forall_mem_cons, List.forall_mem_append]
      obtain ⟨inThen, inElse⟩ := List.forall_mem_append.mp named.2
      exact ⟨Stmt.clean_text (by decide) (by decide), named.1.2.clean_lines (depth + 1),
        Block.clean_lines thenBlock inThen (depth + 1),
        Block.clean_lines elseBlock inElse (depth + 1)⟩
  | .whileLoop site cond body =>
      simp only [Stmt.outlineTree, OutlineTree.lines, linesAll, List.append_nil,
        List.forall_mem_cons, List.forall_mem_append]
      exact ⟨Stmt.clean_text (by decide) (by decide), named.1.2.clean_lines (depth + 1),
        Block.clean_lines body named.2 (depth + 1)⟩

theorem Block.clean_lines (block : Block) (named : block.Named) (depth : Nat) :
    ∀ line ∈ block.outlineTree.lines depth, Clean line.text := by
  match block with
  | .mk span stmts =>
      rw [Block.outlineTree, OutlineTree.lines, List.forall_mem_cons]
      exact ⟨show Clean "block" by decide,
        stmts_clean_lines stmts (fun stmt member => named.stmt member) (depth + 1)⟩

theorem stmts_clean_lines (stmts : List Stmt) (named : ∀ stmt ∈ stmts, stmt.Named) (depth : Nat) :
    ∀ line ∈ linesAll depth (stmtsTrees stmts), Clean line.text := by
  match stmts with
  | [] => exact List.forall_mem_nil _
  | stmt :: rest =>
      obtain ⟨own, inside⟩ := List.forall_mem_cons.mp named
      rw [stmtsTrees, linesAll, List.forall_mem_append]
      exact ⟨Stmt.clean_lines stmt own depth, stmts_clean_lines rest inside depth⟩

end

/-- The function without spans and without the lines of its body. -/
def Function.lined (function : Function) : Function :=
  ⟨function.site.lined, function.name, function.params.map fun param => ⟨param.name, default⟩,
    function.body.unplaced⟩

/-- The program without spans and without the lines of its expressions. -/
def Program.lined (program : Program) : Program :=
  ⟨program.functions.map Function.lined, program.body.lined⟩

structure Function.Named (function : Function) : Prop where
  name : IsWord function.name
  params : ∀ name ∈ function.params.map Param.name, IsWord name
  body : function.body.Named

theorem Function.lined_eq_of_outlineTree {function other : Function} (named : function.Named)
    (namedToo : other.Named) (same : function.outlineTree = other.outlineTree) :
    function.lined = other.lined := by
  obtain ⟨texts, trees⟩ := OutlineTree.node.inj same
  obtain ⟨names, params, lines⟩ :=
    functionText_injective named.name namedToo.name named.params namedToo.params texts
  have bodies := Expr.unplaced_eq_of_outlineTree (List.cons.inj trees).1
  have bare : ∀ params : List Param, params.map (fun param => (⟨param.name, default⟩ : Param)) =
      (params.map Param.name).map fun name => ⟨name, default⟩ := by simp
  rw [lined, lined, Site.lined, Site.lined, names, lines, bodies, bare, bare, params]

theorem Function.Named.clean_lines {function : Function} (named : function.Named) (depth : Nat) :
    ∀ line ∈ function.outlineTree.lines depth, Clean line.text := by
  simp only [Function.outlineTree, OutlineTree.lines, linesAll, List.append_nil,
    List.forall_mem_cons]
  refine ⟨?_, named.body.clean_lines (depth + 1)⟩
  have params : Lacks '\n' (", ".intercalate (function.params.map Param.name)) :=
    lacks_intercalate rfl (by decide) named.params
  have opening : Clean ("func " ++ function.name) :=
    Clean.append (by decide) (by decide) named.name.graphic.unbroken
  have bracket : Clean ("func " ++ function.name ++ "(") :=
    opening.append (by simp) (by decide)
  have listed := bracket.append (by simp) params
  have closed : Clean ("func " ++ function.name ++ "(" ++
      ", ".intercalate (function.params.map Param.name) ++ ")") :=
    listed.append (by simp) (by decide)
  exact closed.append (by simp) (graphic_lineNote function.site).unbroken

namespace Program

variable {program first second : Program}

theorem function_named (words : ∀ name ∈ program.names, IsWord name) {function : Function}
    (listed : function ∈ program.functions) : function.Named := by
  simp only [names, List.forall_mem_append] at words
  obtain ⟨⟨⟨names, params⟩, targets⟩, used⟩ := words
  refine ⟨names _ (List.mem_map_of_mem listed), ?_, .part, ?_⟩
  · intro name member
    exact params name (List.mem_flatMap.mpr ⟨function, listed, member⟩)
  · intro node member name found
    refine used name (List.mem_filterMap.mpr ⟨node, List.mem_append_left _ ?_, found⟩)
    exact List.mem_flatMap.mpr ⟨function, listed, member⟩

theorem body_named (words : ∀ name ∈ program.names, IsWord name) : program.body.Named := by
  simp only [names, List.forall_mem_append] at words
  obtain ⟨⟨_, targets⟩, used⟩ := words
  intro block inside stmt member
  have listed : stmt ∈ program.stmts := List.mem_flatMap.mpr ⟨block, inside, member⟩
  refine ⟨fun target known => targets target (List.mem_filterMap.mpr ⟨stmt, listed, known⟩),
    .whole, fun node within name found => ?_⟩
  refine used name (List.mem_filterMap.mpr ⟨node, List.mem_append_right _ ?_, found⟩)
  exact List.mem_flatMap.mpr ⟨stmt, listed, within⟩

theorem clean_lines (words : ∀ name ∈ program.names, IsWord name) :
    ∀ line ∈ program.outlineLines, Clean line.text := by
  rw [← lines_outlineTree, outlineTree, OutlineTree.lines, List.forall_mem_cons]
  refine ⟨show Clean "program" by decide, fun line member => ?_⟩
  obtain ⟨tree, listed, shown⟩ := OutlineTree.mem_linesAll.mp member
  rcases List.mem_append.mp listed with declared | main
  · obtain ⟨function, known, rfl⟩ := List.mem_map.mp declared
    exact (function_named words known).clean_lines 1 line shown
  · obtain rfl := List.mem_singleton.mp main
    exact program.body.clean_lines (body_named words) 1 line shown

theorem lined_eq_of_outline (words : ∀ name ∈ first.names, IsWord name)
    (wordsToo : ∀ name ∈ second.names, IsWord name) (same : first.outline = second.outline) :
    first.lined = second.lined := by
  have lines := render_injective _ _ (clean_lines words) (clean_lines wordsToo) same
  rw [← lines_outlineTree, ← lines_outlineTree] at lines
  have alone : linesAll 0 [first.outlineTree] = linesAll 0 [second.outlineTree] := by
    simp only [linesAll, lines]
  have trees := (List.cons.inj (OutlineTree.linesAll_injective 0 _ _ alone)).1
  obtain ⟨_, children⟩ := OutlineTree.node.inj trees
  obtain ⟨declared, main⟩ := List.append_inj' children rfl
  have bodies := first.body.lined_eq_of_outlineTree second.body (body_named words)
    (body_named wordsToo) (List.cons.inj main).1
  have functions := map_eq_of_map_eq declared fun function listed other listedToo alike =>
    Function.lined_eq_of_outlineTree (function_named words listed)
      (function_named wordsToo listedToo) alike
  rw [lined, lined, bodies, functions]

theorem outline_lined (program : Program) : program.lined.outline = program.outline := by
  have functions : ∀ function : Function, function.lined.outlineTree = function.outlineTree := by
    intro function
    rw [Function.lined, Function.outlineTree, Function.outlineTree,
      function.body.outlineTree_unplaced, List.map_map]
    rfl
  have mapped : (program.functions.map Function.lined).map Function.outlineTree =
      program.functions.map Function.outlineTree := by
    rw [List.map_map]
    exact List.map_congr_left fun function _ => functions function
  have trees : program.lined.outlineTree = program.outlineTree := by
    rw [lined, outlineTree, mapped, program.body.outlineTree_lined]
    rfl
  rw [outline, outline, ← lines_outlineTree, ← lines_outlineTree, trees]

end Program

theorem IsName.isWord {name : String} (named : IsName name) : IsWord name := by
  have plain := isName_iff.mp named
  exact ⟨plain.1, fun letter member => Scan.isLetter_iff_range.mpr (plain.2.1 letter member)⟩

mutual

theorem Stmt.writable_blocks (stmt : Stmt) (writable : stmt.Writable) :
    ∀ block ∈ stmt.blocks, ∀ inner ∈ block.stmts, inner.Writable := by
  match stmt with
  | .assign .. => exact List.forall_mem_nil _
  | .ifThen _ _ thenBlock => exact Block.writable_blocks thenBlock writable.2
  | .ifElse _ _ thenBlock elseBlock =>
      exact List.forall_mem_append.mpr ⟨Block.writable_blocks thenBlock writable.2.1,
        Block.writable_blocks elseBlock writable.2.2⟩
  | .whileLoop _ _ body => exact Block.writable_blocks body writable.2

theorem Block.writable_blocks (block : Block) (writable : block.Writable) :
    ∀ within ∈ block.blocks, ∀ inner ∈ within.stmts, inner.Writable := by
  match block with
  | .mk _ stmts =>
      have each := stmtsWritable_iff.mp writable
      exact List.forall_mem_cons.mpr ⟨each, stmts_writable_blocks stmts each⟩

theorem stmts_writable_blocks (stmts : List Stmt) (writable : ∀ stmt ∈ stmts, stmt.Writable) :
    ∀ within ∈ stmtsBlocks stmts, ∀ inner ∈ within.stmts, inner.Writable := by
  match stmts with
  | [] => exact List.forall_mem_nil _
  | stmt :: rest =>
      obtain ⟨own, others⟩ := List.forall_mem_cons.mp writable
      exact List.forall_mem_append.mpr ⟨Stmt.writable_blocks stmt own,
        stmts_writable_blocks rest others⟩

end

theorem Stmt.Writable.accepted {stmt : Stmt} (writable : stmt.Writable) : stmt.Accepted := by
  cases stmt with
  | assign site target value =>
      refine ⟨fun name known => ?_, writable.2⟩
      obtain rfl := Option.some.inj known
      exact writable.1
  | ifThen | ifElse | whileLoop => exact ⟨by simp [Stmt.target?], writable.1⟩

namespace Program

variable {program : Program}

/-- The names of a program that can be written are words. -/
theorem Writable.words (writable : program.Writable) : ∀ name ∈ program.names, IsWord name := by
  have stmts : ∀ stmt ∈ program.stmts, stmt.Accepted := by
    intro stmt listed
    obtain ⟨block, inside, member⟩ := List.mem_flatMap.mp listed
    exact (program.body.writable_blocks writable.body block inside stmt member).accepted
  have nodes := nodes_accepted_iff_writable.mpr
    ⟨fun function listed =>
        ⟨(writable.functions function listed).body, (writable.functions function listed).fits⟩,
      fun stmt listed => (stmts stmt listed).2⟩
  have declared : ∀ function ∈ program.functions, IsName function.name ∧
      ∀ param ∈ function.params, IsName param.name := fun function listed =>
    ⟨(writable.functions function listed).named, (writable.functions function listed).params⟩
  have named := names_accepted_iff.mpr
    ⟨declared, fun stmt listed => (stmts stmt listed).1, (nodes_accepted_iff_clauses.mp nodes).1⟩
  exact fun name listed => (named name listed).isWord

/-- The outline identifies a program, up to spans and the lines of its expressions, as long as its
names are words, which they are in programs that are read from a source text. -/
theorem outline_identifies :
    (∀ first second : Program, (∀ name ∈ first.names, IsWord name) →
      (∀ name ∈ second.names, IsWord name) →
      (first.outline = second.outline ↔ first.lined = second.lined)) ∧
    ∀ source program, (Analysis.ofSource source).parsed.program? = some program →
      ∀ name ∈ program.names, IsWord name := by
  constructor
  · intro first second words wordsToo
    constructor
    · exact lined_eq_of_outline words wordsToo
    · intro same
      rw [← outline_lined first, ← outline_lined second, same]
  · intro source program found
    exact (writable_ofSource found).words

/-- `x := y - z`, of which the outline has the sign `-` above two lines. -/
def differenceProgram : Program :=
  ⟨[], .mk default [.assign ⟨1, default⟩ "x"
    (.arith default .sub (.var default "y") (.var default "z"))]⟩

/-- `x := -y`, of which the outline has the sign `-` above one line. -/
def negationProgram : Program :=
  ⟨[], .mk default [.assign ⟨1, default⟩ "x" (.unary default .neg (.var default "y"))]⟩

theorem outline_identifies_difference_and_negation :
    (∀ name ∈ differenceProgram.names, IsWord name) ∧
      (∀ name ∈ negationProgram.names, IsWord name) ∧
      differenceProgram.lined ≠ negationProgram.lined ∧
      differenceProgram.outline ≠ negationProgram.outline ∧
      ∃ program,
        (Analysis.ofSource "program begin x := y - z end").parsed.program? = some program ∧
          ∀ name ∈ program.names, IsWord name := by
  have words : ∀ name ∈ differenceProgram.names, IsWord name := by decide
  have wordsToo : ∀ name ∈ negationProgram.names, IsWord name := by decide
  have differ : differenceProgram.lined ≠ negationProgram.lined := by
    intro same
    cases same
  have read : (Analysis.ofSource "program begin x := y - z end").parsed.program?.isSome = true := by
    with_unfolding_all rfl
  obtain ⟨program, found⟩ := Option.isSome_iff_exists.mp read
  exact ⟨words, wordsToo, differ,
    (not_congr (outline_identifies.1 differenceProgram negationProgram words wordsToo)).mpr differ,
    program, found, outline_identifies.2 _ program found⟩

end Program

end Sipl
