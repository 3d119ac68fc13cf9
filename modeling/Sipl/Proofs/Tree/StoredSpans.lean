import Sipl.Proofs.Tree.Spans
import Sipl.Proofs.Tree.Tidy

namespace Sipl

/-- The spans of a node and of the blocks in it. -/
def StmtNode.spans : StmtNode → List Span
  | assign site _ _ => [site.span]
  | ifThen site _ thenBlock => [site.span, thenBlock.span]
  | ifElse site _ thenBlock elseBlock => [site.span, thenBlock.span, elseBlock.span]
  | whileLoop site _ body => [site.span, body.span]

def FunctionNode.spans (node : FunctionNode) : List Span :=
  node.site.span :: node.params.map Param.span

def ProgramNode.spans (node : ProgramNode) : List Span :=
  node.functions.flatMap FunctionNode.spans ++ [node.body.span]

namespace Arena

/-- The spans of all nodes that are stored, also of those that nothing refers to. -/
def spans (arena : Arena) : List Span :=
  (arena.exprs.map fun node => node.site.span) ++ arena.stmts.flatMap StmtNode.spans

/-- Every span that is stored is as told. -/
def Spanned (arena : Arena) (told : Span → Prop) : Prop := ∀ span ∈ arena.spans, told span

theorem HoldsExpr.found {arena : Arena} {number : Nat} {expr : Expr}
    (held : arena.HoldsExpr number expr) :
    ∃ node, arena.exprs[number]? = some node ∧ node.site = expr.site := by
  cases held <;> exact ⟨_, ‹_›, rfl⟩

namespace Spanned

variable {arena : Arena} {told : Span → Prop} {number : Nat}

theorem empty : Spanned {} told := by
  intro span member
  cases member

theorem of_expr (spanned : arena.Spanned told) {node : ExprNode}
    (found : arena.exprs[number]? = some node) : told node.site.span :=
  spanned _ (List.mem_append_left _ (List.mem_map_of_mem (List.mem_of_getElem? found)))

theorem of_stmt (spanned : arena.Spanned told) {node : StmtNode}
    (found : arena.stmts[number]? = some node) : ∀ span ∈ node.spans, told span :=
  fun span member => spanned span
    (List.mem_append_right _ (List.mem_flatMap.mpr ⟨node, List.mem_of_getElem? found, member⟩))

theorem of_held (spanned : arena.Spanned told) {expr : Expr}
    (held : arena.HoldsExpr number expr) : told expr.span := by
  obtain ⟨node, found, same⟩ := held.found
  rw [Expr.span, ← same]
  exact spanned.of_expr found

theorem addExpr (spanned : arena.Spanned told) {node : ExprNode} (held : told node.site.span) :
    (arena.addExpr node).2.Spanned told := by
  intro span member
  simp only [spans, Arena.addExpr, List.map_append, List.mem_append, List.map_cons, List.map_nil,
    List.mem_singleton] at member
  rcases member with (earlier | rfl) | other
  · exact spanned span (List.mem_append_left _ earlier)
  · exact held
  · exact spanned span (List.mem_append_right _ other)

theorem addStmt (spanned : arena.Spanned told) {node : StmtNode}
    (held : ∀ span ∈ node.spans, told span) : (arena.addStmt node).2.Spanned told := by
  intro span member
  simp only [spans, Arena.addStmt, List.flatMap_append, List.mem_append, List.flatMap_singleton]
    at member
  rcases member with other | earlier | inside
  · exact spanned span (List.mem_append_left _ other)
  · exact spanned span (List.mem_append_right _ earlier)
  · exact held span inside

-- The spans of a tree are those of the nodes that stand for it.
mutual

theorem all_expr (spanned : arena.Spanned told) {number : Nat} {expr : Expr}
    (held : arena.HoldsExpr number expr) : expr.spans.All told := by
  match held with
  | .literal found | .var found => exact .node (spanned.of_expr found) (List.forall_mem_nil _)
  | .unary found part =>
      exact .node (spanned.of_expr found) (List.forall_mem_singleton.mpr (spanned.all_expr part))
  | .arith found first second | .logical found first second | .ifThen found first second =>
      exact .node (spanned.of_expr found) (List.forall_mem_cons.mpr
        ⟨spanned.all_expr first, List.forall_mem_singleton.mpr (spanned.all_expr second)⟩)
  | .ifElse found condPart thenPart elsePart =>
      exact .node (spanned.of_expr found) (List.forall_mem_cons.mpr ⟨spanned.all_expr condPart,
        List.forall_mem_cons.mpr ⟨spanned.all_expr thenPart,
          List.forall_mem_singleton.mpr (spanned.all_expr elsePart)⟩⟩)
  | .call found _ parts => exact .node (spanned.of_expr found) (spanned.all_args parts)

theorem all_args (spanned : arena.Spanned told) {numbers : List Nat} {args : List Expr}
    (held : arena.HoldsExprs numbers args) : ∀ tree ∈ Expr.argsSpans args, tree.All told := by
  match held with
  | .nil => exact List.forall_mem_nil _
  | .cons first others =>
      exact List.forall_mem_cons.mpr ⟨spanned.all_expr first, spanned.all_args others⟩

end

mutual

theorem all_stmt (spanned : arena.Spanned told) {number : Nat} {stmt : Stmt}
    (held : arena.HoldsStmt number stmt) : stmt.spans.All told := by
  match held with
  | .assign found part =>
      have own := spanned.of_stmt found
      exact .node (own _ List.mem_cons_self)
        (List.forall_mem_singleton.mpr (spanned.all_expr part))
  | .ifThen found condPart blockPart | .whileLoop found condPart blockPart =>
      have own := spanned.of_stmt found
      have inner := spanned.all_block (own _ (by simp [StmtNode.spans])) blockPart
      exact .node (own _ List.mem_cons_self) (List.forall_mem_cons.mpr
        ⟨spanned.all_expr condPart, List.forall_mem_singleton.mpr inner⟩)
  | .ifElse found condPart thenPart elsePart =>
      have own := spanned.of_stmt found
      have first := spanned.all_block (own _ (by simp [StmtNode.spans])) thenPart
      have second := spanned.all_block (own _ (by simp [StmtNode.spans])) elsePart
      exact .node (own _ List.mem_cons_self) (List.forall_mem_cons.mpr ⟨spanned.all_expr condPart,
        List.forall_mem_cons.mpr ⟨first, List.forall_mem_singleton.mpr second⟩⟩)

theorem all_block (spanned : arena.Spanned told) {node : BlockNode} {block : Block}
    (here : told node.span) (held : arena.HoldsBlock node block) : block.spans.All told := by
  match held with
  | .mk _ parts => exact .node here (spanned.all_stmts parts)

theorem all_stmts (spanned : arena.Spanned told) {numbers : List Nat} {stmts : List Stmt}
    (held : arena.HoldsStmts numbers stmts) : ∀ tree ∈ stmtsSpans stmts, tree.All told := by
  match held with
  | .nil => exact List.forall_mem_nil _
  | .cons first others =>
      exact List.forall_mem_cons.mpr ⟨spanned.all_stmt first, spanned.all_stmts others⟩

end

theorem all_function (spanned : arena.Spanned told) {node : FunctionNode} {function : Function}
    (own : ∀ span ∈ node.spans, told span) (held : arena.HoldsFunction node function) :
    function.spans.All told := by
  obtain ⟨site, -, params, body⟩ := held
  refine .node (site ▸ own _ List.mem_cons_self) (List.forall_mem_append.mpr
    ⟨?_, List.forall_mem_singleton.mpr (spanned.all_expr body)⟩)
  refine List.forall_mem_map.mpr fun param member => .node ?_ (List.forall_mem_nil _)
  exact own _ (List.mem_cons_of_mem _ (List.mem_map_of_mem (params ▸ member)))

theorem all_functions (spanned : arena.Spanned told) {nodes : List FunctionNode}
    {functions : List Function} (own : ∀ node ∈ nodes, ∀ span ∈ node.spans, told span)
    (held : List.Forall₂ arena.HoldsFunction nodes functions) :
    ∀ function ∈ functions, function.spans.All told := by
  induction held with
  | nil => exact List.forall_mem_nil _
  | cons first _ ih =>
      obtain ⟨here, others⟩ := List.forall_mem_cons.mp own
      exact List.forall_mem_cons.mpr ⟨spanned.all_function here first, ih others⟩

theorem all_program (spanned : arena.Spanned told) {node : ProgramNode} {program : Program}
    (own : ∀ span ∈ node.spans, told span) (held : arena.HoldsProgram node program) :
    ∀ tree ∈ program.spans, tree.All told := by
  have declared : ∀ one ∈ node.functions, ∀ span ∈ one.spans, told span :=
    fun one among span inside =>
      own span (List.mem_append_left _ (List.mem_flatMap.mpr ⟨one, among, inside⟩))
  refine List.forall_mem_append.mpr ⟨?_, List.forall_mem_singleton.mpr ?_⟩
  · exact List.forall_mem_map.mpr (spanned.all_functions declared held.functions)
  · exact spanned.all_block (own _ (List.mem_append_right _ List.mem_cons_self)) held.body

end Spanned

end Arena

end Sipl
