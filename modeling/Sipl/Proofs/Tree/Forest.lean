import Mathlib.Data.List.Nodup
import Sipl.Proofs.Tree.Tidy

namespace Sipl

/-! The nodes of an arena, together with a program in it, are a forest if nodes refer only to what
is stored before them and if nothing is referred to twice.  This is said of all nodes, also of those
that the program does not lead to. -/

namespace ExprNode

def argRanges : ExprNode → List ListRange
  | call _ _ args => [args]
  | _ => []

end ExprNode

namespace StmtNode

/-- The expression in a statement. -/
def exprs : StmtNode → List Nat
  | assign _ _ value => [value]
  | ifThen _ cond _ => [cond]
  | ifElse _ cond _ _ => [cond]
  | whileLoop _ cond _ => [cond]

def bodyRanges : StmtNode → List ListRange
  | assign _ _ _ => []
  | ifThen _ _ thenBlock => [thenBlock.stmts]
  | ifElse _ _ thenBlock elseBlock => [thenBlock.stmts, elseBlock.stmts]
  | whileLoop _ _ body => [body.stmts]

end StmtNode

namespace Arena

/-- The expressions that are referred to, once for each place where they are. -/
def exprUses (arena : Arena) (root : ProgramNode) : List Nat :=
  root.functions.map FunctionNode.body ++ arena.exprs.flatMap arena.partsOf ++
    arena.stmts.flatMap StmtNode.exprs

/-- The statements that are referred to, once for each place where they are. -/
def stmtUses (arena : Arena) (root : ProgramNode) : List Nat :=
  arena.stmtList root.body.stmts ++ arena.stmts.flatMap arena.stmtsOf

def argRanges (arena : Arena) : List ListRange := arena.exprs.flatMap ExprNode.argRanges

def bodyRanges (arena : Arena) (root : ProgramNode) : List ListRange :=
  root.body.stmts :: arena.stmts.flatMap StmtNode.bodyRanges

structure Forest (arena : Arena) (root : ProgramNode) : Prop where
  partsBefore : ∀ number node, arena.exprs[number]? = some node →
    ∀ part ∈ arena.partsOf node, part < number
  stmtsBefore : ∀ number node, arena.stmts[number]? = some node →
    ∀ stmt ∈ arena.stmtsOf node, stmt < number
  exprsStored : ∀ number ∈ arena.exprUses root, number < arena.exprs.length
  stmtsStored : ∀ number ∈ arena.stmtUses root, number < arena.stmts.length
  listedExprsStored : ∀ number ∈ arena.exprLists, number < arena.exprs.length
  listedStmtsStored : ∀ number ∈ arena.stmtLists, number < arena.stmts.length
  argRangesStored : ∀ range ∈ arena.argRanges,
    range.start + range.length ≤ arena.exprLists.length
  bodyRangesStored : ∀ range ∈ arena.bodyRanges root,
    range.start + range.length ≤ arena.stmtLists.length
  exprsOnce : (arena.exprUses root).Nodup
  stmtsOnce : (arena.stmtUses root).Nodup
  argRangesApart : arena.argRanges.Pairwise ListRange.Apart
  bodyRangesApart : (arena.bodyRanges root).Pairwise ListRange.Apart

end Arena

namespace Share

def exprs (arena : Arena) : Share → List Nat
  | expr number => [number]
  | args range => arena.exprList range
  | _ => []

def stmts (arena : Arena) : Share → List Nat
  | stmt number => [number]
  | body range => arena.stmtList range
  | _ => []

def argRanges : Share → List ListRange
  | args range => [range]
  | _ => []

def bodyRanges : Share → List ListRange
  | body range => [range]
  | _ => []

end Share

namespace Arena

/-- All that nodes refer to. -/
def uses (arena : Arena) (root : ProgramNode) : List Share :=
  root.shares ++ arena.exprs.flatMap ExprNode.shares ++ arena.stmts.flatMap StmtNode.shares

section

variable (arena : Arena) (root : ProgramNode)

theorem flatMap_nothing {α β : Type} (values : List α) :
    values.flatMap (fun _ => ([] : List β)) = [] := by
  simp

theorem flatMap_uses {α : Type} (read : Share → List α) :
    (arena.uses root).flatMap read =
      read (.body root.body.stmts) ++ root.functions.flatMap (fun node => read (.expr node.body)) ++
        arena.exprs.flatMap (fun node => node.shares.flatMap read) ++
        arena.stmts.flatMap (fun node => node.shares.flatMap read) := by
  simp only [uses, ProgramNode.shares, List.flatMap_append, List.flatMap_cons, List.flatMap_map,
    List.flatMap_assoc, List.append_assoc]

theorem exprs_uses : (arena.uses root).flatMap (Share.exprs arena) = arena.exprUses root := by
  have nodes : ∀ node : ExprNode, node.shares.flatMap (Share.exprs arena) = arena.partsOf node := by
    intro node
    cases node <;> simp [ExprNode.shares, Share.exprs, partsOf]
  have stmts : ∀ node : StmtNode, node.shares.flatMap (Share.exprs arena) = node.exprs := by
    intro node
    cases node <;> rfl
  rw [flatMap_uses, exprUses, List.map_eq_flatMap]
  simp only [nodes, stmts]
  rfl

theorem stmts_uses : (arena.uses root).flatMap (Share.stmts arena) = arena.stmtUses root := by
  have nodes : ∀ node : ExprNode, node.shares.flatMap (Share.stmts arena) = [] := by
    intro node
    cases node <;> rfl
  have stmts : ∀ node : StmtNode, node.shares.flatMap (Share.stmts arena) = arena.stmtsOf node := by
    intro node
    cases node <;> simp [StmtNode.shares, Share.stmts, stmtsOf]
  rw [flatMap_uses, stmtUses]
  simp [nodes, stmts, flatMap_nothing, Share.stmts]

theorem argRanges_uses : (arena.uses root).flatMap Share.argRanges = arena.argRanges := by
  have nodes : ∀ node : ExprNode, node.shares.flatMap Share.argRanges = node.argRanges := by
    intro node
    cases node <;> rfl
  have stmts : ∀ node : StmtNode, node.shares.flatMap Share.argRanges = [] := by
    intro node
    cases node <;> rfl
  rw [flatMap_uses, argRanges]
  simp [nodes, stmts, flatMap_nothing, Share.argRanges]

theorem bodyRanges_uses : (arena.uses root).flatMap Share.bodyRanges = arena.bodyRanges root := by
  have nodes : ∀ node : ExprNode, node.shares.flatMap Share.bodyRanges = [] := by
    intro node
    cases node <;> rfl
  have stmts : ∀ node : StmtNode, node.shares.flatMap Share.bodyRanges = node.bodyRanges := by
    intro node
    cases node <;> rfl
  rw [flatMap_uses, bodyRanges]
  simp [nodes, stmts, flatMap_nothing, Share.bodyRanges]

end

theorem disjoint_of_apart {stored : List Nat} {first second : ListRange} (once : stored.Nodup)
    (apart : first.Apart second) :
    List.Disjoint ((stored.drop first.start).take first.length)
      ((stored.drop second.start).take second.length) := by
  have inFront : ∀ {front back : ListRange}, front.start + front.length ≤ back.start →
      List.Disjoint ((stored.drop front.start).take front.length)
        ((stored.drop back.start).take back.length) := by
    intro front back before number inFront inBack
    rw [List.take_drop] at inFront
    exact List.disjoint_take_drop once before (List.mem_of_mem_drop inFront)
      (List.mem_of_mem_take inBack)
  rcases apart with before | behind
  · exact inFront before
  · exact fun number before behindIt => inFront behind behindIt before

namespace Tidy

variable {arena : Arena} {root : ProgramNode} (tidy : arena.Tidy root.shares)

include tidy

theorem pairwise_uses :
    (arena.uses root ++
      (arena.exprLists.map Share.expr ++ arena.stmtLists.map Share.stmt)).Pairwise Share.Apart := by
  have same : (arena.shares ++ root.shares).Perm (arena.uses root ++
      (arena.exprLists.map Share.expr ++ arena.stmtLists.map Share.stmt)) := by
    rw [List.perm_iff_count]
    intro share
    simp [uses, shares]
    omega
  exact (same.pairwise_iff Share.Apart.symm).mp tidy.apart

theorem within_uses : ∀ share ∈ arena.uses root, share.Within arena := by
  intro share member
  refine tidy.within share ?_
  simp only [uses, shares, List.mem_append] at member ⊢
  tauto

theorem once_exprLists : arena.exprLists.Nodup := by
  have listed := (List.pairwise_append.mp tidy.pairwise_uses).2.1
  have apart : (arena.exprLists.map Share.expr).Pairwise Share.Apart :=
    (List.pairwise_append.mp listed).1
  rwa [List.pairwise_map] at apart

theorem once_stmtLists : arena.stmtLists.Nodup := by
  have listed := (List.pairwise_append.mp tidy.pairwise_uses).2.1
  have apart : (arena.stmtLists.map Share.stmt).Pairwise Share.Apart :=
    (List.pairwise_append.mp listed).2.1
  rwa [List.pairwise_map] at apart

/-- What is used is not in a list as well. -/
theorem apart_of_listed_expr {share : Share} (used : share ∈ arena.uses root) {number : Nat}
    (listed : number ∈ arena.exprLists) : share.Apart (.expr number) :=
  (List.pairwise_append.mp tidy.pairwise_uses).2.2 share used _
    (List.mem_append_left _ (List.mem_map_of_mem listed))

theorem apart_of_listed_stmt {share : Share} (used : share ∈ arena.uses root) {number : Nat}
    (listed : number ∈ arena.stmtLists) : share.Apart (.stmt number) :=
  (List.pairwise_append.mp tidy.pairwise_uses).2.2 share used _
    (List.mem_append_right _ (List.mem_map_of_mem listed))

theorem pairwise_flatMap {α : Type} {read : Share → List α} {related : α → α → Prop}
    (alone : ∀ share ∈ arena.uses root, (read share).Pairwise related)
    (together : ∀ first ∈ arena.uses root, ∀ second ∈ arena.uses root, first.Apart second →
      ∀ value ∈ read first, ∀ other ∈ read second, related value other) :
    ((arena.uses root).flatMap read).Pairwise related := by
  have apart := (List.pairwise_append.mp tidy.pairwise_uses).1
  exact List.pairwise_flatMap.mpr ⟨alone, apart.imp_of_mem fun first second =>
    together _ first _ second⟩

theorem exprs_apart {first second : Share} (usedFirst : first ∈ arena.uses root)
    (usedSecond : second ∈ arena.uses root) (apart : first.Apart second) :
    List.Disjoint (first.exprs arena) (second.exprs arena) := by
  intro number inFirst inSecond
  have listed : ∀ {range}, number ∈ arena.exprList range → number ∈ arena.exprLists :=
    fun inside => List.mem_of_mem_drop (List.mem_of_mem_take inside)
  cases first with
  | expr single =>
      obtain rfl := List.mem_singleton.mp inFirst
      cases second with
      | expr other => exact apart (List.mem_singleton.mp inSecond)
      | args range => exact tidy.apart_of_listed_expr usedFirst (listed inSecond) rfl
      | _ => cases inSecond
  | args range =>
      cases second with
      | expr single =>
          obtain rfl := List.mem_singleton.mp inSecond
          exact tidy.apart_of_listed_expr usedSecond (listed inFirst) rfl
      | args other => exact disjoint_of_apart tidy.once_exprLists apart inFirst inSecond
      | _ => cases inSecond
  | _ => cases inFirst

theorem stmts_apart {first second : Share} (usedFirst : first ∈ arena.uses root)
    (usedSecond : second ∈ arena.uses root) (apart : first.Apart second) :
    List.Disjoint (first.stmts arena) (second.stmts arena) := by
  intro number inFirst inSecond
  have listed : ∀ {range}, number ∈ arena.stmtList range → number ∈ arena.stmtLists :=
    fun inside => List.mem_of_mem_drop (List.mem_of_mem_take inside)
  cases first with
  | stmt single =>
      obtain rfl := List.mem_singleton.mp inFirst
      cases second with
      | stmt other => exact apart (List.mem_singleton.mp inSecond)
      | body range => exact tidy.apart_of_listed_stmt usedFirst (listed inSecond) rfl
      | _ => cases inSecond
  | body range =>
      cases second with
      | stmt single =>
          obtain rfl := List.mem_singleton.mp inSecond
          exact tidy.apart_of_listed_stmt usedSecond (listed inFirst) rfl
      | body other => exact disjoint_of_apart tidy.once_stmtLists apart inFirst inSecond
      | _ => cases inSecond
  | _ => cases inFirst

theorem exprsOnce : (arena.exprUses root).Nodup := by
  rw [← exprs_uses]
  apply tidy.pairwise_flatMap
  · intro share used
    cases share with
    | expr number => exact List.pairwise_singleton _ _
    | args range =>
        exact tidy.once_exprLists.sublist ((List.take_sublist ..).trans (List.drop_sublist ..))
    | _ => exact .nil
  · intro first usedFirst second usedSecond apart number inFirst other inSecond same
    exact tidy.exprs_apart usedFirst usedSecond apart inFirst (same ▸ inSecond)

theorem stmtsOnce : (arena.stmtUses root).Nodup := by
  rw [← stmts_uses]
  apply tidy.pairwise_flatMap
  · intro share used
    cases share with
    | stmt number => exact List.pairwise_singleton _ _
    | body range =>
        exact tidy.once_stmtLists.sublist ((List.take_sublist ..).trans (List.drop_sublist ..))
    | _ => exact .nil
  · intro first usedFirst second usedSecond apart number inFirst other inSecond same
    exact tidy.stmts_apart usedFirst usedSecond apart inFirst (same ▸ inSecond)

theorem argRangesApart : arena.argRanges.Pairwise ListRange.Apart := by
  rw [← argRanges_uses arena root]
  apply tidy.pairwise_flatMap
  · intro share used
    cases share with
    | args range => exact List.pairwise_singleton _ _
    | _ => exact .nil
  · intro first usedFirst second usedSecond apart range inFirst other inSecond
    cases first <;> cases second <;> simp_all [Share.argRanges, Share.Apart]

theorem bodyRangesApart : (arena.bodyRanges root).Pairwise ListRange.Apart := by
  rw [← bodyRanges_uses]
  apply tidy.pairwise_flatMap
  · intro share used
    cases share with
    | body range => exact List.pairwise_singleton _ _
    | _ => exact .nil
  · intro first usedFirst second usedSecond apart range inFirst other inSecond
    cases first <;> cases second <;> simp_all [Share.bodyRanges, Share.Apart]

theorem exprsStored : ∀ number ∈ arena.exprUses root, number < arena.exprs.length := by
  rw [← exprs_uses]
  intro number member
  obtain ⟨share, used, inside⟩ := List.mem_flatMap.mp member
  cases share with
  | expr single =>
      obtain rfl := List.mem_singleton.mp inside
      exact tidy.within_uses _ used
  | args range => exact tidy.lt_of_mem_exprList inside
  | _ => cases inside

theorem stmtsStored : ∀ number ∈ arena.stmtUses root, number < arena.stmts.length := by
  rw [← stmts_uses]
  intro number member
  obtain ⟨share, used, inside⟩ := List.mem_flatMap.mp member
  cases share with
  | stmt single =>
      obtain rfl := List.mem_singleton.mp inside
      exact tidy.within_uses _ used
  | body range => exact tidy.lt_of_mem_stmtList inside
  | _ => cases inside

theorem argRangesStored : ∀ range ∈ arena.argRanges,
    range.start + range.length ≤ arena.exprLists.length := by
  rw [← argRanges_uses arena root]
  intro range member
  obtain ⟨share, used, inside⟩ := List.mem_flatMap.mp member
  cases share with
  | args single =>
      obtain rfl := List.mem_singleton.mp inside
      exact tidy.within_uses _ used
  | _ => cases inside

theorem bodyRangesStored : ∀ range ∈ arena.bodyRanges root,
    range.start + range.length ≤ arena.stmtLists.length := by
  rw [← bodyRanges_uses]
  intro range member
  obtain ⟨share, used, inside⟩ := List.mem_flatMap.mp member
  cases share with
  | body single =>
      obtain rfl := List.mem_singleton.mp inside
      exact tidy.within_uses _ used
  | _ => cases inside

theorem forest : arena.Forest root where
  partsBefore := tidy.exprs
  stmtsBefore := tidy.stmts
  exprsStored := tidy.exprsStored
  stmtsStored := tidy.stmtsStored
  listedExprsStored := tidy.lt_of_listed_expr
  listedStmtsStored := tidy.lt_of_listed_stmt
  argRangesStored := tidy.argRangesStored
  bodyRangesStored := tidy.bodyRangesStored
  exprsOnce := tidy.exprsOnce
  stmtsOnce := tidy.stmtsOnce
  argRangesApart := tidy.argRangesApart
  bodyRangesApart := tidy.bodyRangesApart

end Tidy

end Arena

end Sipl
