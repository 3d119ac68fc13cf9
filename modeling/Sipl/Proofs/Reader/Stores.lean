import Sipl.Proofs.Reader.SpansRead
import Sipl.Proofs.Reader.Storing
import Sipl.Proofs.Tree.StoredSpans

namespace Sipl

/-! Reading into an arena is compared with reading trees.  It does not break off, and it
stops where the other one stops, with the same error or with the numbers of what was read.  Whether
it fails or not, nothing in the arena is shared, and the spans of all its nodes are put together
from those of tokens. -/

/-- Nothing in an arena is shared, and its spans are as told. -/
structure Arena.Sound (arena : Arena) (told : Span → Prop) (pending : List Share) : Prop where
  tidy : arena.Tidy pending
  spanned : arena.Spanned told

namespace Arena.Sound

variable {arena : Arena} {told : Span → Prop} {pending others : List Share} {numbers : List Nat}

theorem empty : Sound {} told [] := ⟨.empty, .empty⟩

theorem perm (sound : arena.Sound told pending) (same : pending.Perm others) :
    arena.Sound told others :=
  ⟨sound.tidy.perm same, sound.spanned⟩

/-- What is pending may be given up. -/
theorem drop (sound : arena.Sound told pending) (fewer : others.Sublist pending) :
    arena.Sound told others :=
  ⟨sound.tidy.drop fewer, sound.spanned⟩

theorem addExpr {node : ExprNode} (sound : arena.Sound told (node.shares ++ pending))
    (held : told node.site.span) :
    (arena.addExpr node).2.Sound told (.expr (arena.addExpr node).1 :: pending) :=
  ⟨sound.tidy.addExpr, sound.spanned.addExpr held⟩

theorem addExprList (sound : arena.Sound told (numbers.map .expr ++ pending)) :
    (arena.addExprList numbers).2.Sound told (.args (arena.addExprList numbers).1 :: pending) :=
  ⟨sound.tidy.addExprList, sound.spanned⟩

theorem addStmt {node : StmtNode} (sound : arena.Sound told (node.shares ++ pending))
    (held : ∀ span ∈ node.spans, told span) :
    (arena.addStmt node).2.Sound told (.stmt (arena.addStmt node).1 :: pending) :=
  ⟨sound.tidy.addStmt, sound.spanned.addStmt held⟩

theorem addStmtList (sound : arena.Sound told (numbers.map .stmt ++ pending)) :
    (arena.addStmtList numbers).2.Sound told (.body (arena.addStmtList numbers).1 :: pending) :=
  ⟨sound.tidy.addStmtList, sound.spanned⟩

end Arena.Sound

/-- What stands in an arena for what is read, and what of the arena it has for itself. -/
structure Counterpart (α β : Type) where
  holds : Arena → α → β → Prop
  shares : α → List Share
  mono : ∀ {before after value tree}, holds before value tree → before.StaysIn after →
    holds after value tree

namespace Counterpart

/-- What is read stands for itself, and is as required. -/
def same {α : Type} (post : α → Prop) : Counterpart α α :=
  ⟨fun _ value tree => value = tree ∧ post value, fun _ => [], fun held _ => held⟩

def expr : Counterpart Nat Expr := ⟨Arena.HoldsExpr, fun number => [.expr number], .mono⟩

def stmt : Counterpart Nat Stmt := ⟨Arena.HoldsStmt, fun number => [.stmt number], .mono⟩

def block (told : Span → Prop) : Counterpart BlockNode Block :=
  ⟨fun arena node block => told node.span ∧ arena.HoldsBlock node block,
    fun node => [.body node.stmts], fun held stays => ⟨held.1, held.2.mono stays⟩⟩

def function (told : Span → Prop) : Counterpart FunctionNode Function :=
  ⟨fun arena node function =>
      (∀ span ∈ node.spans, told span) ∧ arena.HoldsFunction node function,
    fun node => [.expr node.body], fun held stays => ⟨held.1, held.2.mono stays⟩⟩

variable {α β : Type}

def list (counterpart : Counterpart α β) : Counterpart (List α) (List β) :=
  ⟨fun arena => List.Forall₂ (counterpart.holds arena),
    fun values => values.flatMap counterpart.shares,
    fun held stays => held.imp fun _ _ first => counterpart.mono first stays⟩

theorem shares_exprs (numbers : List Nat) : expr.list.shares numbers = numbers.map .expr :=
  List.map_eq_flatMap.symm

theorem shares_stmts (numbers : List Nat) : stmt.list.shares numbers = numbers.map .stmt :=
  List.map_eq_flatMap.symm

theorem shares_functions (told : Span → Prop) (nodes : List FunctionNode) :
    (function told).list.shares nodes = nodes.map fun node => .expr node.body :=
  List.map_eq_flatMap.symm

/-- Together with the errors met on the way. -/
def noted (counterpart : Counterpart α β) :
    Counterpart (α × List SyntaxError) (β × List SyntaxError) :=
  ⟨fun arena value tree => counterpart.holds arena value.1 tree.1 ∧ value.2 = tree.2,
    fun value => counterpart.shares value.1,
    fun held stays => ⟨counterpart.mono held.1 stays, held.2⟩⟩

end Counterpart

/-- What has been stored for a tree, and what is pending then. -/
structure Laid {α β : Type} (told : Span → Prop) (counterpart : Counterpart α β) (before : Arena)
    (pending : List Share) (value : α) (after : Arena) (tree : β) : Prop where
  stays : before.StaysIn after
  held : counterpart.holds after value tree
  sound : after.Sound told (counterpart.shares value ++ pending)

namespace Laid

variable {α β : Type} {told : Span → Prop} {counterpart : Counterpart α β}
  {before middle after : Arena} {pending : List Share} {value : α} {tree : β}

theorem here (held : counterpart.holds before value tree)
    (sound : before.Sound told (counterpart.shares value ++ pending)) :
    Laid told counterpart before pending value before tree :=
  ⟨.refl before, held, sound⟩

theorem earlier (kept : Laid told counterpart middle pending value after tree)
    (stays : before.StaysIn middle) : Laid told counterpart before pending value after tree :=
  ⟨stays.trans kept.stays, kept.held, kept.sound⟩

theorem append {numbers others : List α} {trees rest : List β}
    (first : Laid told counterpart.list before pending numbers middle trees)
    (second : Laid told counterpart.list middle (counterpart.list.shares numbers ++ pending) others
      after rest) :
    counterpart.list.holds after (numbers ++ others) (trees ++ rest) ∧
      after.Sound told (counterpart.list.shares (numbers ++ others) ++ pending) := by
  refine ⟨List.rel_append (counterpart.list.mono first.held second.stays) second.held, ?_⟩
  have joined : counterpart.list.shares (numbers ++ others) =
      counterpart.list.shares numbers ++ counterpart.list.shares others :=
    List.flatMap_append ..
  rw [joined, List.append_assoc]
  exact second.sound.perm (List.perm_append_comm_assoc ..)

end Laid

/-- A value is kept in an arena, where some parts were pending, as its tree is. -/
def Keeps {α β : Type} (told : Span → Prop) (counterpart : Counterpart α β) (before : Arena)
    (pending : List Share) (keeping : StateT Arena (Except Breach) α) (tree : β) : Prop :=
  ∃ value after, keeping before = .ok (value, after) ∧
    Laid told counterpart before pending value after tree

namespace Keeps

variable {α β γ : Type} {told : Span → Prop} {counterpart : Counterpart α β} {before : Arena}
  {pending : List Share} {tree : β}

theorem here {value : α} (held : counterpart.holds before value tree)
    (sound : before.Sound told (counterpart.shares value ++ pending)) :
    Keeps told counterpart before pending (pure value) tree :=
  ⟨value, before, rfl, .here held sound⟩

theorem noted {keeping : StateT Arena (Except Breach) α} (errors : List SyntaxError)
    (keeps : Keeps told counterpart before pending keeping tree) :
    Keeps told counterpart.noted before pending (keeping >>= fun value => pure (value, errors))
      (tree, errors) := by
  obtain ⟨value, after, same, stays, held, sound⟩ := keeps
  refine ⟨(value, errors), after, ?_, stays, ⟨held, rfl⟩, sound⟩
  simp only [Bind.bind, StateT.bind, same]
  rfl

end Keeps

namespace Arena

variable {arena : Arena} {number left right : Nat} {expr first second : Expr} {numbers : List Nat}

theorem holdsExprs_of_forall₂ {exprs : List Expr}
    (held : List.Forall₂ arena.HoldsExpr numbers exprs) : arena.HoldsExprs numbers exprs := by
  induction held with
  | nil => exact .nil
  | cons first others ih => exact .cons first ih

theorem holdsStmts_of_forall₂ {stmts : List Stmt}
    (held : List.Forall₂ arena.HoldsStmt numbers stmts) : arena.HoldsStmts numbers stmts := by
  induction held with
  | nil => exact .nil
  | cons first others ih => exact .cons first ih

theorem HoldsExpr.spanOf (held : arena.HoldsExpr number expr) :
    arena.spanOf number = .ok expr.span := by
  obtain ⟨node, found, same⟩ := held.found
  rw [Arena.spanOf, found, Expr.span, ← same]
  rfl

theorem joinedSite_eq (operator : Token) (leftHeld : arena.HoldsExpr left first)
    (rightHeld : arena.HoldsExpr right second) :
    arena.joinedSite operator left right = .ok (Reader.joinedSite operator first second) := by
  rw [joinedSite, leftHeld.spanOf, rightHeld.spanOf]
  rfl

end Arena

/-- The parts of a form are stored, with these shares, and where it stands is as told. -/
inductive ExprForm.Fits (told : Span → Prop) (arena : Arena) :
    List Share → ExprForm Nat → ExprForm Expr → Prop where
  | literal {site : Site} (here : told site.span) (value : Literal) :
      Fits told arena [] (.literal site value) (.literal site value)
  | var {site : Site} (here : told site.span) (name : String) :
      Fits told arena [] (.var site name) (.var site name)
  | unary {operator : Token} {operand : Nat} {expr : Expr} (here : told operator.site.span)
      (op : UnaryOp) (held : arena.HoldsExpr operand expr) :
      Fits told arena [.expr operand] (.unary operator op operand) (.unary operator op expr)
  | arith {left right : Nat} {first second : Expr} (operator : Token) (op : ArithOp)
      (leftHeld : arena.HoldsExpr left first) (rightHeld : arena.HoldsExpr right second) :
      Fits told arena [.expr left, .expr right] (.arith operator op left right)
        (.arith operator op first second)
  | logical {left right : Nat} {first second : Expr} (operator : Token) (op : LogicalOp)
      (leftHeld : arena.HoldsExpr left first) (rightHeld : arena.HoldsExpr right second) :
      Fits told arena [.expr left, .expr right] (.logical operator op left right)
        (.logical operator op first second)
  | ifThen {site : Site} {cond thenBranch : Nat} {condTree thenTree : Expr}
      (here : told site.span) (condHeld : arena.HoldsExpr cond condTree)
      (thenHeld : arena.HoldsExpr thenBranch thenTree) :
      Fits told arena [.expr cond, .expr thenBranch] (.ifThen site cond thenBranch)
        (.ifThen site condTree thenTree)
  | ifElse {site : Site} {cond thenBranch elseBranch : Nat} {condTree thenTree elseTree : Expr}
      (here : told site.span) (condHeld : arena.HoldsExpr cond condTree)
      (thenHeld : arena.HoldsExpr thenBranch thenTree)
      (elseHeld : arena.HoldsExpr elseBranch elseTree) :
      Fits told arena [.expr cond, .expr thenBranch, .expr elseBranch]
        (.ifElse site cond thenBranch elseBranch) (.ifElse site condTree thenTree elseTree)
  | call {site : Site} {args : List Nat} {exprs : List Expr} (here : told site.span)
      (callee : String) (held : List.Forall₂ arena.HoldsExpr args exprs) :
      Fits told arena (args.map .expr) (.call site callee args) (.call site callee exprs)

inductive StmtForm.Fits (told : Span → Prop) (arena : Arena) :
    List Share → StmtForm Nat BlockNode → StmtForm Expr Block → Prop where
  | assign {site : Site} {value : Nat} {expr : Expr} (here : told site.span) (target : String)
      (held : arena.HoldsExpr value expr) :
      Fits told arena [.expr value] (.assign site target value) (.assign site target expr)
  | ifThen {site : Site} {cond : Nat} {condTree : Expr} {node : BlockNode} {block : Block}
      (here : told site.span) (condHeld : arena.HoldsExpr cond condTree)
      (held : (Counterpart.block told).holds arena node block) :
      Fits told arena [.expr cond, .body node.stmts] (.ifThen site cond node)
        (.ifThen site condTree block)
  | ifElse {site : Site} {cond : Nat} {condTree : Expr} {node other : BlockNode}
      {block otherBlock : Block} (here : told site.span) (condHeld : arena.HoldsExpr cond condTree)
      (held : (Counterpart.block told).holds arena node block)
      (otherHeld : (Counterpart.block told).holds arena other otherBlock) :
      Fits told arena [.expr cond, .body node.stmts, .body other.stmts]
        (.ifElse site cond node other) (.ifElse site condTree block otherBlock)
  | whileLoop {site : Site} {cond : Nat} {condTree : Expr} {node : BlockNode} {block : Block}
      (here : told site.span) (condHeld : arena.HoldsExpr cond condTree)
      (held : (Counterpart.block told).holds arena node block) :
      Fits told arena [.expr cond, .body node.stmts] (.whileLoop site cond node)
        (.whileLoop site condTree block)

namespace Laid

variable {told : Span → Prop} {before : Arena} {pending : List Share}

theorem addExpr {node : ExprNode} {expr : Expr}
    (sound : before.Sound told (node.shares ++ pending)) (held : told node.site.span)
    (rooted : ∀ {after number}, before.StaysIn after → after.exprs[number]? = some node →
      after.HoldsExpr number expr) :
    Laid told .expr before pending (before.addExpr node).1 (before.addExpr node).2 expr :=
  let ⟨stays, whole⟩ := Arena.holds_addExpr (.refl before) rooted
  ⟨stays, whole, sound.addExpr held⟩

theorem addStmt {node : StmtNode} {stmt : Stmt}
    (sound : before.Sound told (node.shares ++ pending)) (held : ∀ span ∈ node.spans, told span)
    (rooted : ∀ {after number}, before.StaysIn after → after.stmts[number]? = some node →
      after.HoldsStmt number stmt) :
    Laid told .stmt before pending (before.addStmt node).1 (before.addStmt node).2 stmt :=
  let ⟨stays, whole⟩ := Arena.holds_addStmt (.refl before) rooted
  ⟨stays, whole, sound.addStmt held⟩

end Laid

namespace Keeps

variable {told : Span → Prop} {before : Arena} {shares pending : List Share}

theorem expr (closed : Span.Closed told) {form : ExprForm Nat} {shape : ExprForm Expr}
    (fits : form.Fits told before shares shape) (sound : before.Sound told (shares ++ pending)) :
    Keeps told .expr before pending (nodes.keepExpr form) shape.tree := by
  cases fits with
  | literal here value => exact ⟨_, _, rfl, .addExpr sound here fun _ found => .literal found⟩
  | var here name => exact ⟨_, _, rfl, .addExpr sound here fun _ found => .var found⟩
  | unary here op held =>
      refine ⟨_, _, congrArg (· >>= _) held.spanOf, .addExpr sound ?_ ?_⟩
      · exact closed.merge here (sound.spanned.of_held held)
      · exact fun stays found => .unary found (held.mono stays)
  | arith operator op leftHeld rightHeld =>
      refine ⟨_, _, congrArg (· >>= _) (Arena.joinedSite_eq operator leftHeld rightHeld),
        .addExpr sound ?_ ?_⟩
      · exact closed.merge (sound.spanned.of_held leftHeld) (sound.spanned.of_held rightHeld)
      · exact fun stays found => .arith found (leftHeld.mono stays) (rightHeld.mono stays)
  | logical operator op leftHeld rightHeld =>
      refine ⟨_, _, congrArg (· >>= _) (Arena.joinedSite_eq operator leftHeld rightHeld),
        .addExpr sound ?_ ?_⟩
      · exact closed.merge (sound.spanned.of_held leftHeld) (sound.spanned.of_held rightHeld)
      · exact fun stays found => .logical found (leftHeld.mono stays) (rightHeld.mono stays)
  | ifThen here condHeld thenHeld =>
      exact ⟨_, _, rfl, .addExpr sound here fun stays found =>
        .ifThen found (condHeld.mono stays) (thenHeld.mono stays)⟩
  | ifElse here condHeld thenHeld elseHeld =>
      exact ⟨_, _, rfl, .addExpr sound here fun stays found =>
        .ifElse found (condHeld.mono stays) (thenHeld.mono stays) (elseHeld.mono stays)⟩
  | @call site args _ here callee held =>
      have listed := Arena.StaysIn.addExprList before args
      refine ⟨_, _, rfl, .earlier (.addExpr sound.addExprList here fun stays found => ?_) listed⟩
      exact .call found (stays.exprList (Arena.numbers?_append ..))
        ((Arena.holdsExprs_of_forall₂ held).mono (listed.trans stays))

theorem stmt {form : StmtForm Nat BlockNode} {shape : StmtForm Expr Block}
    (fits : form.Fits told before shares shape) (sound : before.Sound told (shares ++ pending)) :
    Keeps told .stmt before pending (nodes.keepStmt form) shape.tree := by
  cases fits with
  | assign here target held =>
      exact ⟨_, _, rfl, .addStmt sound (List.forall_mem_singleton.mpr here) fun stays found =>
        .assign found (held.mono stays)⟩
  | ifThen here condHeld held =>
      refine ⟨_, _, rfl, .addStmt sound ?_ fun stays found =>
        .ifThen found (condHeld.mono stays) (held.2.mono stays)⟩
      exact List.forall_mem_cons.mpr ⟨here, List.forall_mem_singleton.mpr held.1⟩
  | ifElse here condHeld held otherHeld =>
      refine ⟨_, _, rfl, .addStmt sound ?_ fun stays found =>
        .ifElse found (condHeld.mono stays) (held.2.mono stays) (otherHeld.2.mono stays)⟩
      exact List.forall_mem_cons.mpr ⟨here,
        List.forall_mem_cons.mpr ⟨held.1, List.forall_mem_singleton.mpr otherHeld.1⟩⟩
  | whileLoop here condHeld held =>
      refine ⟨_, _, rfl, .addStmt sound ?_ fun stays found =>
        .whileLoop found (condHeld.mono stays) (held.2.mono stays)⟩
      exact List.forall_mem_cons.mpr ⟨here, List.forall_mem_singleton.mpr held.1⟩

theorem block {numbers : List Nat} {stmts : List Stmt} {span : Span} (here : told span)
    (held : Counterpart.stmt.list.holds before numbers stmts)
    (sound : before.Sound told (Counterpart.stmt.list.shares numbers ++ pending)) :
    Keeps told (.block told) before pending (nodes.keepBlock span numbers)
      (trees.keepBlock span stmts) := by
  rw [Counterpart.shares_stmts] at sound
  have stays := Arena.StaysIn.addStmtList before numbers
  refine ⟨_, _, rfl, stays, ⟨here, .mk (Arena.numbers?_append ..) ?_⟩, sound.addStmtList⟩
  exact (Arena.holdsStmts_of_forall₂ held).mono stays

end Keeps

/-- A reading into an arena, where some parts were pending, has gone as a reading of trees. -/
inductive Stores {start : Cursor} {α β : Type} (told : Span → Prop)
    (counterpart : Counterpart α β) (before : Arena) (pending : List Share) :
    Except Breach (Reading start α × Arena) → Reading start β → Prop where
  | value {value : α} {tree : β} {stop : Cursor} {bound : stop.remaining ≤ start.remaining}
      {after : Arena} (among : stop.Among told)
      (kept : Laid told counterpart before pending value after tree) :
      Stores told counterpart before pending (.ok (⟨.ok value, stop, bound⟩, after))
        ⟨.ok tree, stop, bound⟩
  | error {error : SyntaxError} {stop : Cursor} {bound : stop.remaining ≤ start.remaining}
      {after : Arena} (among : stop.Among told) (stays : before.StaysIn after)
      (sound : after.Sound told pending) :
      Stores told counterpart before pending (.ok (⟨.error error, stop, bound⟩, after))
        ⟨.error error, stop, bound⟩

/-- The same for a reading that cannot fail. -/
inductive StoresAll {start : Cursor} {α β : Type} (told : Span → Prop)
    (counterpart : Counterpart α β) (before : Arena) (pending : List Share) :
    Except Breach (Recovered start α × Arena) → Recovered start β → Prop where
  | value {value : α} {tree : β} {errors : List SyntaxError} {stop : Cursor}
      {bound : stop.remaining ≤ start.remaining} {after : Arena} (among : stop.Among told)
      (kept : Laid told counterpart before pending value after tree) :
      StoresAll told counterpart before pending (.ok (⟨value, errors, stop, bound⟩, after))
        ⟨tree, errors, stop, bound⟩

namespace Stores

variable {start : Cursor} {α β γ δ : Type} {told : Span → Prop} {counterpart : Counterpart α β}
  {result : Counterpart γ δ} {before : Arena} {pending outer : List Share}

theorem done {value : α} {tree : β} (among : start.Among told)
    (held : counterpart.holds before value tree)
    (sound : before.Sound told (counterpart.shares value ++ pending)) :
    Stores told counterpart before pending
      ((pure (.done value) : StateT Arena (Except Breach) (Reading start α)) before)
      (.done tree) :=
  .value among (.here held sound)

theorem fail (fault : SyntaxFault) (message : String) (among : start.Among told)
    (sound : before.Sound told pending) :
    Stores told counterpart before pending
      ((pure (.fail fault message) : StateT Arena (Except Breach) (Reading start α)) before)
      (.fail fault message) :=
  .error among (.refl before) sound

theorem widen {later : Cursor} {outcome : Except Breach (Reading later α × Arena)}
    {reading : Reading later β} (stores : Stores told counterpart before pending outcome reading)
    (bound : later.remaining ≤ start.remaining) :
    Stores told counterpart before pending
      (outcome >>= fun (rest, arena) => pure (rest.widen bound, arena)) (reading.widen bound) := by
  cases stores with
  | value among kept => exact .value among kept
  | error among stays sound => exact .error among stays sound

theorem earlier {middle : Arena} {outcome : Except Breach (Reading start α × Arena)}
    {reading : Reading start β} (stores : Stores told counterpart middle pending outcome reading)
    (stays : before.StaysIn middle) :
    Stores told counterpart before pending outcome reading := by
  cases stores with
  | value among kept => exact .value among (kept.earlier stays)
  | error among more sound => exact .error among (stays.trans more) sound

/-- What is pending during the first reading may be used up by the second one. -/
theorem andThen {storing : StateT Arena (Except Breach) (Reading start α)}
    {reading : Id (Reading start β)}
    {next : α → (later : Cursor) → later.remaining ≤ start.remaining →
      StateT Arena (Except Breach) (Reading later γ)}
    {further : β → (later : Cursor) → later.remaining ≤ start.remaining → Id (Reading later δ)}
    (first : Stores told counterpart before pending (storing before) reading)
    (fewer : outer.Sublist pending)
    (second : ∀ value tree stop bound after, stop.Among told →
      Laid told counterpart before pending value after tree →
      Stores told result after outer (next value stop bound after) (further tree stop bound)) :
    Stores told result before outer (Reading.andThen storing next before)
      (Reading.andThen reading further) := by
  simp only [Reading.andThen, Bind.bind, StateT.bind]
  generalize storing before = outcome at first ⊢
  cases first with
  | value among kept => exact ((second _ _ _ _ _ among kept).widen _).earlier kept.stays
  | error among stays sound => exact .error among stays (sound.drop fewer)

theorem finish {storing : StateT Arena (Except Breach) (Reading start α)}
    {reading : Id (Reading start β)} {making : α → Cursor → StateT Arena (Except Breach) γ}
    {make : β → Cursor → δ}
    (first : Stores told counterpart before pending (storing before) reading)
    (fewer : outer.Sublist pending)
    (second : ∀ value tree stop after, stop.Among told →
      Laid told counterpart before pending value after tree →
      Keeps told result after outer (making value stop) (make tree stop)) :
    Stores told result before outer (Reading.finish storing making before)
      (Reading.finish reading make) := by
  simp only [Reading.finish, Bind.bind, StateT.bind]
  generalize storing before = outcome at first ⊢
  cases first with
  | @value value tree stop bound after among kept =>
      obtain ⟨made, final, same, laid⟩ := second value tree stop after among kept
      simp only [Except.bind, StateT.bind, same]
      exact .value among (laid.earlier kept.stays)
  | error among stays sound => exact .error among stays (sound.drop fewer)

/-- Go on with what has been kept. -/
theorem kept {keeping : StateT Arena (Except Breach) α} {tree : β}
    {next : α → StateT Arena (Except Breach) (Reading start γ)} {reading : Reading start δ}
    (keeps : Keeps told counterpart before pending keeping tree)
    (second : ∀ value after, Laid told counterpart before pending value after tree →
      Stores told result after outer (next value after) reading) :
    Stores told result before outer ((keeping >>= next) before) reading := by
  obtain ⟨value, after, same, laid⟩ := keeps
  simp only [Bind.bind, StateT.bind, same]
  exact (second value after laid).earlier laid.stays

/-- What has been kept is read. -/
theorem keptHere {keeping : StateT Arena (Except Breach) α} {tree : β} (among : start.Among told)
    (keeps : Keeps told counterpart before pending keeping tree) :
    Stores told counterpart before pending
      ((keeping >>= fun value => pure (.done value : Reading start α)) before) (.done tree) :=
  kept keeps fun _ _ laid => .done among laid.held laid.sound

theorem take {cursor : Cursor} {inside : cursor.kind ≠ .eof}
    {next : Token → (later : Cursor) → later.remaining < cursor.remaining →
      StateT Arena (Except Breach) (Reading later α)}
    {further : Token → (later : Cursor) → later.remaining < cursor.remaining →
      Id (Reading later β)}
    (among : cursor.Among told)
    (behind : ∀ token later less, told token.site.span → later.Among told →
      Stores told counterpart before pending (next token later less before)
        (further token later less)) :
    Stores told counterpart before pending (nodes.take cursor inside next before)
      (trees.take cursor inside further) :=
  (behind _ _ _ among.here among.advance).widen _

theorem expect (kind : Kind) (message : String) (among : start.Among told)
    (sound : before.Sound told pending) :
    Stores told (.same fun token : Token => told token.site.span) before pending
      (nodes.expect start kind message before) (trees.expect start kind message) := by
  rw [Keeper.expect, Keeper.expect]
  split
  · exact .value among.advance (.here ⟨rfl, among.here⟩ sound)
  · exact .fail _ _ among sound

theorem expectName (message : String) (among : start.Among told)
    (sound : before.Sound told pending) :
    Stores told (.same fun token : Token => told token.site.span) before pending
      (nodes.expectName start message before) (trees.expectName start message) := by
  rw [Keeper.expectName, Keeper.expectName]
  split
  · exact .value among.advance (.here ⟨rfl, among.here⟩ sound)
  · exact .fail _ _ among sound

end Stores

namespace StoresAll

variable {start : Cursor} {α β γ δ : Type} {told : Span → Prop} {counterpart : Counterpart α β}
  {result : Counterpart γ δ} {before : Arena} {pending outer : List Share}

theorem done {value : α} {tree : β} (among : start.Among told)
    (held : counterpart.holds before value tree)
    (sound : before.Sound told (counterpart.shares value ++ pending)) :
    StoresAll told counterpart before pending
      ((pure (.done value) : StateT Arena (Except Breach) (Recovered start α)) before)
      (.done tree) :=
  .value among (.here held sound)

theorem widen {later : Cursor} {outcome : Except Breach (Recovered later α × Arena)}
    {recovered : Recovered later β}
    (stores : StoresAll told counterpart before pending outcome recovered)
    (bound : later.remaining ≤ start.remaining) :
    StoresAll told counterpart before pending
      (outcome >>= fun (rest, arena) => pure (rest.widen bound, arena))
      (recovered.widen bound) := by
  cases stores with
  | value among kept => exact .value among kept

theorem andThen {storing : StateT Arena (Except Breach) (Recovered start α)}
    {recovered : Id (Recovered start β)}
    {next : α → (later : Cursor) → later.remaining ≤ start.remaining →
      StateT Arena (Except Breach) (Recovered later γ)}
    {further : β → (later : Cursor) → later.remaining ≤ start.remaining →
      Id (Recovered later δ)}
    (first : StoresAll told counterpart before pending (storing before) recovered)
    (second : ∀ value tree stop bound after, stop.Among told →
      Laid told counterpart before pending value after tree →
      StoresAll told result after outer (next value stop bound after) (further tree stop bound)) :
    StoresAll told result before outer (Recovered.andThen storing next before)
      (Recovered.andThen recovered further) := by
  simp only [Recovered.andThen, Bind.bind, StateT.bind]
  generalize storing before = outcome at first ⊢
  cases first with
  | @value value tree errors stop bound after among kept =>
      have rest := second value tree stop bound after among kept
      simp only [Except.bind]
      generalize next value stop bound after = outcome at rest ⊢
      generalize further tree stop bound = recovered at rest ⊢
      cases rest with
      | value among last => exact .value among (last.earlier kept.stays)

theorem finish {storing : StateT Arena (Except Breach) (Recovered start α)}
    {recovered : Id (Recovered start β)} {making : α → Cursor → StateT Arena (Except Breach) γ}
    {make : β → Cursor → δ}
    (first : StoresAll told counterpart before pending (storing before) recovered)
    (second : ∀ value tree stop after, stop.Among told →
      Laid told counterpart before pending value after tree →
      Keeps told result after outer (making value stop) (make tree stop)) :
    StoresAll told result before outer (Recovered.finish storing making before)
      (Recovered.finish recovered make) := by
  simp only [Recovered.finish, Bind.bind, StateT.bind]
  generalize storing before = outcome at first ⊢
  cases first with
  | @value value tree errors stop bound after among kept =>
      obtain ⟨made, final, same, laid⟩ := second value tree stop after among kept
      simp only [Except.bind, same]
      exact .value among (laid.earlier kept.stays)

theorem pass {cursor : Cursor} {inside : cursor.kind ≠ .eof}
    {next : (later : Cursor) → later.remaining < cursor.remaining →
      StateT Arena (Except Breach) (Recovered later α)}
    {further : (later : Cursor) → later.remaining < cursor.remaining → Id (Recovered later β)}
    (among : cursor.Among told)
    (behind : ∀ later less, later.Among told →
      StoresAll told counterpart before pending (next later less before) (further later less)) :
    StoresAll told counterpart before pending (nodes.pass cursor inside next before)
      (trees.pass cursor inside further) :=
  (behind _ _ among.advance).widen _

theorem noted {storing : StateT Arena (Except Breach) (Recovered start α)}
    {recovered : Id (Recovered start β)}
    (stores : StoresAll told counterpart before pending (storing before) recovered) :
    Stores told counterpart.noted before pending (Recovered.noted storing before)
      (Recovered.noted recovered) := by
  simp only [Recovered.noted, Bind.bind, StateT.bind]
  generalize storing before = outcome at stores ⊢
  cases stores with
  | value among kept => exact .value among ⟨kept.stays, ⟨kept.held, rfl⟩, kept.sound⟩

/-- Nothing is stored for the tokens that are skipped. -/
theorem skip (set : KindSet) (cursor : Cursor) (among : cursor.Among told)
    (sound : before.Sound told pending) :
    StoresAll told (.same fun _ : Unit => True) before pending (nodes.skip set cursor before)
      (trees.skip set cursor) := by
  rw [Keeper.skip, Keeper.skip]
  split
  · exact .done among ⟨rfl, trivial⟩ sound
  · split
    · exact .done among ⟨rfl, trivial⟩ sound
    · exact .pass among fun behind less among => skip set behind among sound
termination_by cursor.remaining

theorem eat (kind : Kind) (other : kind ≠ .eof) (among : start.Among told)
    (sound : before.Sound told pending) :
    StoresAll told (.same fun _ : Unit => True) before pending (nodes.eat start kind other before)
      (trees.eat start kind other) := by
  rw [Keeper.eat, Keeper.eat]
  split
  · exact .pass among fun behind less among => .done among ⟨rfl, trivial⟩ sound
  · exact .done among ⟨rfl, trivial⟩ sound

/-- What could not be read is left out, and what was stored for it stays behind. -/
theorem orSkip {storing : StateT Arena (Except Breach) (Reading start (α × List SyntaxError))}
    {reading : Id (Reading start (β × List SyntaxError))} (boundary : KindSet)
    (stores : Stores told counterpart.noted before pending (storing before) reading) :
    StoresAll told counterpart.list before pending (nodes.orSkip storing boundary before)
      (trees.orSkip reading boundary) := by
  simp only [Keeper.orSkip, Bind.bind, StateT.bind]
  generalize storing before = outcome at stores ⊢
  cases stores with
  | @value value tree stop bound after among kept =>
      obtain ⟨value, errors⟩ := value
      obtain ⟨tree, same⟩ := tree
      obtain ⟨stays, ⟨held, rfl⟩, sound⟩ := kept
      have alone : counterpart.list.shares [value] = counterpart.shares value :=
        List.flatMap_singleton ..
      exact .value among ⟨stays, .cons held .nil, alone ▸ sound⟩
  | @error error stop bound after among stays sound =>
      have skipped := skip boundary stop among sound
      simp only [Except.bind, StateT.bind]
      generalize nodes.skip boundary stop after = outcome at skipped ⊢
      generalize trees.skip boundary stop = recovered at skipped ⊢
      cases skipped with
      | value among kept => exact .value among ⟨stays.trans kept.stays, .nil, kept.sound⟩

end StoresAll

end Sipl
