import Mathlib.Data.List.Count
import Sipl.Proofs.Tree.Stored

namespace Sipl

/-! Every part has one place where it is referred to: in a node, in a list, or with the one who
stores nodes and has not put it into a node yet.  Nodes are stored behind their parts, and lists
behind one another. -/

namespace ListRange

/-- Two stretches of a list do not overlap. -/
def Apart (first second : ListRange) : Prop :=
  first.start + first.length ≤ second.start ∨ second.start + second.length ≤ first.start

end ListRange

/-- What is referred to at one place. -/
inductive Share where
  | expr (number : Nat)
  | stmt (number : Nat)
  | args (range : ListRange)
  | body (range : ListRange)
  deriving DecidableEq

namespace Share

def Apart : Share → Share → Prop
  | expr first, expr second => first ≠ second
  | stmt first, stmt second => first ≠ second
  | args first, args second => first.Apart second
  | body first, body second => first.Apart second
  | _, _ => True

theorem Apart.symm {first second : Share} (apart : first.Apart second) : second.Apart first := by
  cases first <;> cases second <;> first | trivial | exact Ne.symm apart | exact Or.symm apart

def Within (arena : Arena) : Share → Prop
  | expr number => number < arena.exprs.length
  | stmt number => number < arena.stmts.length
  | args range => range.start + range.length ≤ arena.exprLists.length
  | body range => range.start + range.length ≤ arena.stmtLists.length

end Share

def ExprNode.shares : ExprNode → List Share
  | literal _ _ => []
  | var _ _ => []
  | unary _ _ operand => [.expr operand]
  | arith _ _ left right => [.expr left, .expr right]
  | logical _ _ left right => [.expr left, .expr right]
  | ifThen _ cond thenBranch => [.expr cond, .expr thenBranch]
  | ifElse _ cond thenBranch elseBranch => [.expr cond, .expr thenBranch, .expr elseBranch]
  | call _ _ args => [.args args]

def StmtNode.shares : StmtNode → List Share
  | assign _ _ value => [.expr value]
  | ifThen _ cond thenBlock => [.expr cond, .body thenBlock.stmts]
  | ifElse _ cond thenBlock elseBlock => [.expr cond, .body thenBlock.stmts, .body elseBlock.stmts]
  | whileLoop _ cond body => [.expr cond, .body body.stmts]

def ProgramNode.shares (node : ProgramNode) : List Share :=
  .body node.body.stmts :: node.functions.map fun function => .expr function.body

namespace Arena

def stmtList (arena : Arena) (range : ListRange) : List Nat :=
  (arena.stmtLists.drop range.start).take range.length

/-- The expressions that a node refers to, itself or in its list. -/
def partsOf (arena : Arena) : ExprNode → List Nat
  | .literal _ _ => []
  | .var _ _ => []
  | .unary _ _ operand => [operand]
  | .arith _ _ left right => [left, right]
  | .logical _ _ left right => [left, right]
  | .ifThen _ cond thenBranch => [cond, thenBranch]
  | .ifElse _ cond thenBranch elseBranch => [cond, thenBranch, elseBranch]
  | .call _ _ args => arena.exprList args

/-- The statements in the blocks of a node. -/
def stmtsOf (arena : Arena) : StmtNode → List Nat
  | .assign _ _ _ => []
  | .ifThen _ _ thenBlock => arena.stmtList thenBlock.stmts
  | .ifElse _ _ thenBlock elseBlock =>
    arena.stmtList thenBlock.stmts ++ arena.stmtList elseBlock.stmts
  | .whileLoop _ _ body => arena.stmtList body.stmts

/-- All that nodes and lists refer to. -/
def shares (arena : Arena) : List Share :=
  arena.exprs.flatMap ExprNode.shares ++ arena.exprLists.map .expr ++
    (arena.stmts.flatMap StmtNode.shares ++ arena.stmtLists.map .stmt)

structure Tidy (arena : Arena) (pending : List Share) : Prop where
  apart : (arena.shares ++ pending).Pairwise Share.Apart
  within : ∀ share ∈ arena.shares ++ pending, share.Within arena
  exprs : ∀ number node, arena.exprs[number]? = some node →
    ∀ part ∈ arena.partsOf node, part < number
  stmts : ∀ number node, arena.stmts[number]? = some node →
    ∀ stmt ∈ arena.stmtsOf node, stmt < number

section

variable {before after : Arena} (stays : before.StaysIn after)

include stays

theorem StaysIn.within {share : Share} (within : share.Within before) : share.Within after := by
  cases share with
  | expr number => exact Nat.lt_of_lt_of_le within stays.exprs.length_le
  | stmt number => exact Nat.lt_of_lt_of_le within stays.stmts.length_le
  | args range => exact Nat.le_trans within stays.exprLists.length_le
  | body range => exact Nat.le_trans within stays.stmtLists.length_le

omit stays in
theorem listed_of_prefix {before after : List Nat} {range : ListRange} (stays : before <+: after)
    (within : range.start + range.length ≤ before.length) :
    (after.drop range.start).take range.length = (before.drop range.start).take range.length := by
  have listed := numbers?_of_prefix stays (if_pos within)
  rw [ListRange.numbers?, if_pos (Nat.le_trans within stays.length_le)] at listed
  exact Option.some.inj listed

theorem StaysIn.partsOf_eq {node : ExprNode} (within : ∀ share ∈ node.shares, share.Within before) :
    after.partsOf node = before.partsOf node := by
  cases node with
  | call site callee args =>
      exact listed_of_prefix stays.exprLists (within (.args args) List.mem_cons_self)
  | _ => rfl

theorem StaysIn.stmtList_eq {range : ListRange} (within : (Share.body range).Within before) :
    after.stmtList range = before.stmtList range :=
  listed_of_prefix stays.stmtLists within

theorem StaysIn.stmtsOf_eq {node : StmtNode} (within : ∀ share ∈ node.shares, share.Within before) :
    after.stmtsOf node = before.stmtsOf node := by
  cases node with
  | assign site target value => rfl
  | ifThen site cond thenBlock =>
      exact stays.stmtList_eq (within (.body thenBlock.stmts) (by simp [StmtNode.shares]))
  | ifElse site cond thenBlock elseBlock =>
      rw [stmtsOf, stmtsOf,
        stays.stmtList_eq (within (.body thenBlock.stmts) (by simp [StmtNode.shares])),
        stays.stmtList_eq (within (.body elseBlock.stmts) (by simp [StmtNode.shares]))]
  | whileLoop site cond body =>
      exact stays.stmtList_eq (within (.body body.stmts) (by simp [StmtNode.shares]))

end

namespace Tidy

variable {arena : Arena} {pending others : List Share} {numbers : List Nat}

theorem empty : Tidy {} [] :=
  ⟨.nil, nofun, nofun, nofun⟩

theorem perm (tidy : arena.Tidy pending) (same : pending.Perm others) : arena.Tidy others := by
  have all := same.append_left arena.shares
  exact ⟨(all.pairwise_iff Share.Apart.symm).mp tidy.apart,
    fun share member => tidy.within share (all.mem_iff.mpr member), tidy.exprs, tidy.stmts⟩

/-- What is pending may be given up. -/
theorem drop (tidy : arena.Tidy pending) (fewer : others.Sublist pending) : arena.Tidy others := by
  have all := fewer.append_left arena.shares
  exact ⟨tidy.apart.sublist all, fun share member => tidy.within share (all.subset member),
    tidy.exprs, tidy.stmts⟩

theorem within_of_mem_expr (tidy : arena.Tidy pending) {number : Nat} {node : ExprNode}
    (found : arena.exprs[number]? = some node) : ∀ share ∈ node.shares, share.Within arena := by
  intro share member
  refine tidy.within share (List.mem_append_left _ ?_)
  exact List.mem_append_left _ (List.mem_append_left _
    (List.mem_flatMap.mpr ⟨node, List.mem_of_getElem? found, member⟩))

theorem within_of_mem_stmt (tidy : arena.Tidy pending) {number : Nat} {node : StmtNode}
    (found : arena.stmts[number]? = some node) : ∀ share ∈ node.shares, share.Within arena := by
  intro share member
  refine tidy.within share (List.mem_append_left _ ?_)
  exact List.mem_append_right _ (List.mem_append_left _
    (List.mem_flatMap.mpr ⟨node, List.mem_of_getElem? found, member⟩))

theorem lt_of_listed_expr (tidy : arena.Tidy pending) :
    ∀ number ∈ arena.exprLists, number < arena.exprs.length := by
  intro number listed
  refine tidy.within (.expr number) (List.mem_append_left _ ?_)
  exact List.mem_append_left _ (List.mem_append_right _ (List.mem_map_of_mem listed))

theorem lt_of_listed_stmt (tidy : arena.Tidy pending) :
    ∀ number ∈ arena.stmtLists, number < arena.stmts.length := by
  intro number listed
  refine tidy.within (.stmt number) (List.mem_append_left _ ?_)
  exact List.mem_append_right _ (List.mem_append_right _ (List.mem_map_of_mem listed))

theorem lt_of_mem_exprList (tidy : arena.Tidy pending) {range : ListRange} {number : Nat}
    (listed : number ∈ arena.exprList range) : number < arena.exprs.length :=
  tidy.lt_of_listed_expr number (List.mem_of_mem_drop (List.mem_of_mem_take listed))

theorem lt_of_mem_stmtList (tidy : arena.Tidy pending) {range : ListRange} {number : Nat}
    (listed : number ∈ arena.stmtList range) : number < arena.stmts.length :=
  tidy.lt_of_listed_stmt number (List.mem_of_mem_drop (List.mem_of_mem_take listed))

theorem lt_of_mem_partsOf (tidy : arena.Tidy pending) {node : ExprNode}
    (within : ∀ share ∈ node.shares, share.Within arena) {part : Nat}
    (member : part ∈ arena.partsOf node) : part < arena.exprs.length := by
  cases node with
  | call site callee args => exact tidy.lt_of_mem_exprList member
  | literal | var => cases member
  | unary | arith | logical | ifThen | ifElse =>
      simp only [partsOf, List.mem_cons, List.not_mem_nil, or_false] at member
      exact within (.expr part) (by simp [ExprNode.shares, member])

theorem lt_of_mem_stmtsOf (tidy : arena.Tidy pending) {node : StmtNode} {stmt : Nat}
    (member : stmt ∈ arena.stmtsOf node) : stmt < arena.stmts.length := by
  cases node with
  | assign => cases member
  | ifThen | whileLoop => exact tidy.lt_of_mem_stmtList member
  | ifElse =>
      rcases List.mem_append.mp member with member | member
      · exact tidy.lt_of_mem_stmtList member
      · exact tidy.lt_of_mem_stmtList member

/-- What is stored takes what was pending, and is pending itself. -/
theorem store (tidy : arena.Tidy others) {after : Arena} (stays : arena.StaysIn after)
    {share : Share} (taken : (after.shares ++ share :: pending).Perm
      (share :: (arena.shares ++ others)))
    (fresh : ∀ other, other.Within arena → share.Apart other) (within : share.Within after)
    (exprs : ∀ number node, after.exprs[number]? = some node →
      ∀ part ∈ after.partsOf node, part < number)
    (stmts : ∀ number node, after.stmts[number]? = some node →
      ∀ stmt ∈ after.stmtsOf node, stmt < number) : after.Tidy (share :: pending) := by
  refine ⟨?_, fun other member => ?_, exprs, stmts⟩
  · rw [taken.pairwise_iff Share.Apart.symm]
    exact .cons (fun other member => fresh other (tidy.within other member)) tidy.apart
  · rcases List.mem_cons.mp (taken.mem_iff.mp member) with rfl | member
    · exact within
    · exact stays.within (tidy.within other member)

section

variable {after : Arena} (tidy : arena.Tidy pending) (stays : arena.StaysIn after)

include tidy stays

theorem ordered_exprs (same : after.exprs = arena.exprs) (number : Nat) (node : ExprNode)
    (found : after.exprs[number]? = some node) : ∀ part ∈ after.partsOf node, part < number := by
  rw [same] at found
  rw [stays.partsOf_eq (tidy.within_of_mem_expr found)]
  exact tidy.exprs number node found

theorem ordered_stmts (same : after.stmts = arena.stmts) (number : Nat) (node : StmtNode)
    (found : after.stmts[number]? = some node) : ∀ stmt ∈ after.stmtsOf node, stmt < number := by
  rw [same] at found
  rw [stays.stmtsOf_eq (tidy.within_of_mem_stmt found)]
  exact tidy.stmts number node found

end

theorem addExpr {node : ExprNode} (tidy : arena.Tidy (node.shares ++ pending)) :
    (arena.addExpr node).2.Tidy (.expr (arena.addExpr node).1 :: pending) := by
  have stays := StaysIn.addExpr arena node
  refine tidy.store stays ?_ ?_ ?_ ?_ (tidy.ordered_stmts stays rfl)
  · rw [List.perm_iff_count]
    intro share
    simp [shares, Arena.addExpr, List.count_cons]
    omega
  · intro other within
    cases other with
    | expr number => exact Nat.ne_of_gt within
    | _ => trivial
  · simp [Share.Within, Arena.addExpr]
  · intro number found known part member
    rcases Nat.lt_trichotomy number arena.exprs.length with front | rfl | behind
    · rw [Arena.addExpr, List.getElem?_append_left front] at known
      rw [stays.partsOf_eq (tidy.within_of_mem_expr known)] at member
      exact tidy.exprs number found known part member
    · -- The parts of the new node were stored before it.
      obtain rfl : node = found := by simpa [Arena.addExpr] using known
      have own : ∀ share ∈ node.shares, share.Within arena := fun share member =>
        tidy.within share (by simp [member])
      rw [stays.partsOf_eq own] at member
      exact tidy.lt_of_mem_partsOf own member
    · rw [Arena.addExpr, List.getElem?_eq_none (by simp; omega)] at known
      cases known

theorem addExprList (tidy : arena.Tidy (numbers.map .expr ++ pending)) :
    (arena.addExprList numbers).2.Tidy (.args (arena.addExprList numbers).1 :: pending) := by
  have stays := StaysIn.addExprList arena numbers
  refine tidy.store stays ?_ ?_ ?_ (tidy.ordered_exprs stays rfl) (tidy.ordered_stmts stays rfl)
  · rw [List.perm_iff_count]
    intro share
    simp [shares, Arena.addExprList, List.count_cons]
    omega
  · intro other within
    cases other with
    | args range => exact .inr within
    | _ => trivial
  · simp [Share.Within, Arena.addExprList]

theorem addStmt {node : StmtNode} (tidy : arena.Tidy (node.shares ++ pending)) :
    (arena.addStmt node).2.Tidy (.stmt (arena.addStmt node).1 :: pending) := by
  have stays := StaysIn.addStmt arena node
  refine tidy.store stays ?_ ?_ ?_ (tidy.ordered_exprs stays rfl) ?_
  · rw [List.perm_iff_count]
    intro share
    simp [shares, Arena.addStmt, List.count_cons]
    omega
  · intro other within
    cases other with
    | stmt number => exact Nat.ne_of_gt within
    | _ => trivial
  · simp [Share.Within, Arena.addStmt]
  · intro number found known stmt member
    rcases Nat.lt_trichotomy number arena.stmts.length with front | rfl | behind
    · rw [Arena.addStmt, List.getElem?_append_left front] at known
      rw [stays.stmtsOf_eq (tidy.within_of_mem_stmt known)] at member
      exact tidy.stmts number found known stmt member
    · obtain rfl : node = found := by simpa [Arena.addStmt] using known
      have own : ∀ share ∈ node.shares, share.Within arena := fun share member =>
        tidy.within share (by simp [member])
      rw [stays.stmtsOf_eq own] at member
      exact tidy.lt_of_mem_stmtsOf member
    · rw [Arena.addStmt, List.getElem?_eq_none (by simp; omega)] at known
      cases known

theorem addStmtList (tidy : arena.Tidy (numbers.map .stmt ++ pending)) :
    (arena.addStmtList numbers).2.Tidy (.body (arena.addStmtList numbers).1 :: pending) := by
  have stays := StaysIn.addStmtList arena numbers
  refine tidy.store stays ?_ ?_ ?_ (tidy.ordered_exprs stays rfl) (tidy.ordered_stmts stays rfl)
  · rw [List.perm_iff_count]
    intro share
    simp [shares, Arena.addStmtList, List.count_cons]
    omega
  · intro other within
    cases other with
    | body range => exact .inr within
    | _ => trivial
  · simp [Share.Within, Arena.addStmtList]

end Tidy

end Arena

end Sipl
