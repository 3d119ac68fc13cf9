import Sipl.Proofs.Run.StoredAgreement
import Sipl.Proofs.Tree.Forest
import Sipl.Proofs.Tree.StoredTexts

namespace Sipl

theorem follow {α β : Type} {attempt : Except Breach α} {value : α} (found : attempt = .ok value)
    (next : α → Followed β) : ((liftM attempt : Followed α) >>= next) = next value := by
  rw [found]
  rfl

theorem mapM_of_forall₂ {α β γ : Type} {related : α → β → Prop} {values : List α} {trees : List β}
    {make : α → Followed γ} {made : β → γ} (held : List.Forall₂ related values trees)
    (each : ∀ value ∈ values, ∀ tree, related value tree → make value = pure (made tree)) :
    values.mapM make = pure (trees.map made) := by
  induction held with
  | nil => rfl
  | cons first others ih =>
      rw [List.mapM_cons, each _ List.mem_cons_self _ first, pure_bind,
        ih fun value member => each value (List.mem_cons_of_mem _ member), pure_bind, List.map_cons]

namespace Expr

theorem argsInks_eq_map (args : List Expr) :
    argsInks args = args.map fun arg => arg.inksAt .comparison := by
  induction args with
  | nil => rfl
  | cons first rest ih => rw [argsInks, ih, List.map_cons, inksAt]

theorem outlineAll_eq_flatten (depth : Nat) (exprs : List Expr) :
    outlineAll depth exprs = (exprs.map (outline depth)).flatten := by
  induction exprs with
  | nil => rfl
  | cons first rest ih => rw [outlineAll, ih, List.map_cons, List.flatten_cons]

theorem inksAt_or (expr : Expr) : expr.inksAt .or = expr.inks := by
  have tight : expr.loose .or = false := decide_eq_false (Nat.not_lt_zero _)
  rw [inksAt, tight, Ink.grouped]
  rfl

end Expr

theorem stmtsOutline_eq_flatten (depth : Nat) (stmts : List Stmt) :
    stmtsOutline depth stmts = (stmts.map (Stmt.outline depth)).flatten := by
  induction stmts with
  | nil => rfl
  | cons first rest ih => rw [stmtsOutline, ih, List.map_cons, List.flatten_cons]

theorem stmtsInks_eq_flatMap (depth : Nat) (stmts : List Stmt) :
    stmtsInks depth stmts = (stmts.map (Stmt.inks depth)).flatMap fun inks =>
      Ink.word ";" :: Ink.line (depth * indentWidth) :: inks := by
  induction stmts with
  | nil => rfl
  | cons first rest ih =>
      rw [stmtsInks, ih, List.map_cons, List.flatMap_cons]

namespace Arena

variable {arena : Arena}

theorem HoldsExprs.forall₂ {numbers : List Nat} {exprs : List Expr}
    (held : arena.HoldsExprs numbers exprs) : List.Forall₂ arena.HoldsExpr numbers exprs := by
  induction numbers generalizing exprs with
  | nil =>
      cases held
      exact .nil
  | cons number rest ih =>
      cases held with
      | cons first others => exact .cons first (ih others)

theorem HoldsStmts.forall₂ {numbers : List Nat} {stmts : List Stmt}
    (held : arena.HoldsStmts numbers stmts) : List.Forall₂ arena.HoldsStmt numbers stmts := by
  induction numbers generalizing stmts with
  | nil =>
      cases held
      exact .nil
  | cons number rest ih =>
      cases held with
      | cons first others => exact .cons first (ih others)

theorem slice_of_numbers? {range : ListRange} {stored numbers : List Nat}
    (listed : range.numbers? stored = some numbers) :
    (stored.drop range.start).take range.length = numbers := by
  rw [ListRange.numbers?] at listed
  split at listed
  · exact Option.some.inj listed
  · cases listed

theorem HoldsExpr.binding {number : Nat} {expr : Expr} (held : arena.HoldsExpr number expr) :
    ∃ node, arena.exprs[number]? = some node ∧ node.precedence = expr.precedence ∧
      node.isConditional = expr.isConditional := by
  cases held <;> exact ⟨_, ‹_›, rfl, rfl⟩

end Arena

namespace StoredProgram

variable {stored : StoredProgram} {fuel number : Nat} {expr : Expr}

section

variable {inks : Nat → Followed (List Ink)} (held : stored.arena.HoldsExpr number expr)
  (written : inks number = pure expr.inks) (minimum : Precedence)

include held written

theorem inksAt_eq : stored.inksAt inks number minimum = pure (expr.inksAt minimum) := by
  obtain ⟨node, found, precedence, -⟩ := held.binding
  rw [inksAt, follow (expr_eq found), written, pure_bind, precedence]
  rfl

theorem operandInks_eq : stored.operandInks inks number minimum =
    pure (Ink.grouped (expr.looseOperand minimum) expr.inks) := by
  obtain ⟨node, found, precedence, conditional⟩ := held.binding
  rw [operandInks, follow (expr_eq found), written, pure_bind, precedence, conditional]
  rfl

end

section

variable (ordered : ∀ number node, stored.arena.exprs[number]? = some node →
  ∀ part ∈ stored.arena.partsOf node, part < number)

include ordered

theorem lt_of_part {node : ExprNode} (found : stored.arena.exprs[number]? = some node)
    (enough : number < fuel + 1) : ∀ part ∈ stored.arena.partsOf node, part < fuel :=
  fun part member =>
    Nat.lt_of_lt_of_le (ordered number node found part member) (Nat.le_of_lt_succ enough)

theorem endsOpen_eq (held : stored.arena.HoldsExpr number expr) (enough : number < fuel) :
    stored.endsOpen fuel number = pure expr.endsOpen := by
  induction fuel generalizing number expr with
  | zero => omega
  | succ fuel ih =>
      cases held with
      | ifElse found condPart thenPart elsePart =>
          have below := lt_of_part ordered found enough
          rw [endsOpen, follow (expr_eq found), Expr.endsOpen]
          exact ih elsePart (below _ (by simp [Arena.partsOf]))
      | literal found | var found | unary found | arith found | logical found | ifThen found
      | call found =>
          rw [endsOpen, follow (expr_eq found)]
          rfl

theorem exprInks_eq (held : stored.arena.HoldsExpr number expr) (enough : number < fuel) :
    stored.exprInks fuel number = pure expr.inks := by
  -- On the fuel: parts are stored before their node, so their numbers are below it.
  induction fuel generalizing number expr with
  | zero => omega
  | succ fuel ih =>
      cases held with
      | literal found | var found =>
          rw [exprInks, follow (expr_eq found)]
          rfl
      | unary found part =>
          have below := lt_of_part ordered found enough
          have written := ih part (below _ (by simp [Arena.partsOf]))
          rw [exprInks, follow (expr_eq found)]
          simp only [operandInks_eq part written, pure_bind, Expr.inks]
      | arith found leftPart rightPart | logical found leftPart rightPart =>
          have below := lt_of_part ordered found enough
          have left := ih leftPart (below _ (by simp [Arena.partsOf]))
          have right := ih rightPart (below _ (by simp [Arena.partsOf]))
          rw [exprInks, follow (expr_eq found)]
          simp only [operandInks_eq leftPart left, operandInks_eq rightPart right, pure_bind,
            Expr.inks]
      | ifThen found condPart thenPart =>
          have below := lt_of_part ordered found enough
          have cond := ih condPart (below _ (by simp [Arena.partsOf]))
          have thenBranch := ih thenPart (below _ (by simp [Arena.partsOf]))
          rw [exprInks, follow (expr_eq found)]
          simp only [inksAt_eq condPart cond, inksAt_eq thenPart thenBranch, pure_bind, Expr.inks,
            Expr.inksAt_or]
          rfl
      | @ifElse _ _ branch _ _ _ tree _ found condPart thenPart elsePart =>
          have below := lt_of_part ordered found enough
          have inside := below branch (by simp [Arena.partsOf])
          have cond := ih condPart (below _ (by simp [Arena.partsOf]))
          have thenBranch := ih thenPart inside
          have elseBranch := ih elsePart (below _ (by simp [Arena.partsOf]))
          rw [exprInks, follow (expr_eq found)]
          simp only [inksAt_eq condPart cond, inksAt_eq thenPart thenBranch,
            inksAt_eq elsePart elseBranch, endsOpen_eq ordered thenPart inside, thenBranch,
            map_pure, pure_bind, Expr.inks, Expr.inksAt_or]
          cases tree.endsOpen <;> rfl
      | call found listed parts =>
          have below := lt_of_part ordered found enough
          have args := mapM_of_forall₂ parts.forall₂ fun arg member tree part =>
            inksAt_eq part (ih part (below arg (by
              rwa [Arena.partsOf, Arena.exprList, Arena.slice_of_numbers? listed]))) .comparison
          rw [exprInks, follow (expr_eq found)]
          dsimp only
          rw [follow (exprs_eq listed), args, pure_bind, Expr.inks, Expr.argsInks_eq_map]

theorem exprOutline_eq (held : stored.arena.HoldsExpr number expr) (enough : number < fuel)
    (depth : Nat) : stored.exprOutline fuel depth number = pure (expr.outline depth) := by
  induction fuel generalizing number expr depth with
  | zero => omega
  | succ fuel ih =>
      cases held with
      | literal found | var found =>
          rw [exprOutline, follow (expr_eq found)]
          rfl
      | unary found part =>
          have below := lt_of_part ordered found enough
          have shown := ih part (below _ (by simp [Arena.partsOf])) (depth + 1)
          rw [exprOutline, follow (expr_eq found)]
          simp only [shown, pure_bind, Expr.outline]
      | arith found leftPart rightPart | logical found leftPart rightPart =>
          have below := lt_of_part ordered found enough
          have left := ih leftPart (below _ (by simp [Arena.partsOf])) (depth + 1)
          have right := ih rightPart (below _ (by simp [Arena.partsOf])) (depth + 1)
          rw [exprOutline, follow (expr_eq found)]
          simp only [left, right, pure_bind, Expr.outline]
      | ifThen found condPart thenPart =>
          have below := lt_of_part ordered found enough
          have cond := ih condPart (below _ (by simp [Arena.partsOf])) (depth + 1)
          have thenBranch := ih thenPart (below _ (by simp [Arena.partsOf])) (depth + 1)
          rw [exprOutline, follow (expr_eq found)]
          simp only [cond, thenBranch, pure_bind, Expr.outline]
      | ifElse found condPart thenPart elsePart =>
          have below := lt_of_part ordered found enough
          have cond := ih condPart (below _ (by simp [Arena.partsOf])) (depth + 1)
          have thenBranch := ih thenPart (below _ (by simp [Arena.partsOf])) (depth + 1)
          have elseBranch := ih elsePart (below _ (by simp [Arena.partsOf])) (depth + 1)
          rw [exprOutline, follow (expr_eq found)]
          simp only [cond, thenBranch, elseBranch, pure_bind, Expr.outline]
      | call found listed parts =>
          have below := lt_of_part ordered found enough
          have args := mapM_of_forall₂ parts.forall₂ fun arg member tree part =>
            ih part (below arg (by
              rwa [Arena.partsOf, Arena.exprList, Arena.slice_of_numbers? listed])) (depth + 1)
          rw [exprOutline, follow (expr_eq found)]
          dsimp only
          rw [follow (exprs_eq listed), args, pure_bind, Expr.outline, Expr.outlineAll_eq_flatten]

end

section

variable {node : BlockNode} {block : Block} (held : stored.arena.HoldsBlock node block)

include held

theorem blockInks_eq {inks : Nat → Nat → Followed (List Ink)} (depth : Nat)
    (each : ∀ number ∈ stored.arena.stmtList node.stmts, ∀ stmt,
      stored.arena.HoldsStmt number stmt → inks (depth + 1) number = pure (stmt.inks (depth + 1))) :
    stored.blockInks inks depth node = pure (block.inks depth) := by
  cases held with
  | mk listed parts =>
      rw [Arena.stmtList, Arena.slice_of_numbers? listed] at each
      rw [blockInks, follow (stmts_eq listed)]
      cases parts with
      | nil => rfl
      | @cons first rest stmt stmts held others =>
          have written := mapM_of_forall₂ others.forall₂ fun number member stmt =>
            each number (List.mem_cons_of_mem _ member) stmt
          dsimp only
          rw [each first List.mem_cons_self stmt held, pure_bind, written, pure_bind, Block.inks,
            stmtsInks_eq_flatMap]

theorem blockOutline_eq {outline : Nat → Nat → Followed (List OutlineLine)} (depth : Nat)
    (each : ∀ number ∈ stored.arena.stmtList node.stmts, ∀ stmt,
      stored.arena.HoldsStmt number stmt →
        outline (depth + 1) number = pure (stmt.outline (depth + 1))) :
    stored.blockOutline outline depth node = pure (block.outline depth) := by
  cases held with
  | mk listed parts =>
      rw [Arena.stmtList, Arena.slice_of_numbers? listed] at each
      rw [blockOutline, follow (stmts_eq listed), mapM_of_forall₂ parts.forall₂ each, pure_bind,
        Block.outline, stmtsOutline_eq_flatten]

end

theorem lt_length_of_holds (held : stored.arena.HoldsExpr number expr) :
    number < stored.arena.exprs.length := by
  obtain ⟨node, found, -⟩ := held.binding
  exact (List.getElem?_eq_some_iff.mp found).1

variable (forest : stored.arena.Forest stored.root)

include forest

theorem exprWritten (held : stored.arena.HoldsExpr number expr)
    (enough : stored.arena.exprs.length ≤ fuel) (minimum : Precedence) :
    stored.inksAt (stored.exprInks fuel) number minimum = pure (expr.inksAt minimum) :=
  inksAt_eq held (exprInks_eq forest.partsBefore held
    (Nat.lt_of_lt_of_le (lt_length_of_holds held) enough)) minimum

theorem exprOutlined (held : stored.arena.HoldsExpr number expr)
    (enough : stored.arena.exprs.length ≤ fuel) (depth : Nat) :
    stored.exprOutline fuel depth number = pure (expr.outline depth) :=
  exprOutline_eq forest.partsBefore held
    (Nat.lt_of_lt_of_le (lt_length_of_holds held) enough) depth

theorem lt_of_stmt {node : StmtNode} (found : stored.arena.stmts[number]? = some node)
    (enough : stored.arena.exprs.length + number < fuel + 1) :
    ∀ stmt ∈ stored.arena.stmtsOf node, stored.arena.exprs.length + stmt < fuel := by
  intro stmt member
  have := forest.stmtsBefore number node found stmt member
  omega

theorem stmtInks_eq {stmt : Stmt} (held : stored.arena.HoldsStmt number stmt)
    (enough : stored.arena.exprs.length + number < fuel) (depth : Nat) :
    stored.stmtInks fuel depth number = pure (stmt.inks depth) := by
  induction fuel generalizing number stmt depth with
  | zero => omega
  | succ fuel ih =>
      have exprs : stored.arena.exprs.length ≤ fuel := by omega
      cases held with
      | assign found part =>
          rw [stmtInks, follow (stmt_eq found)]
          simp only [exprWritten forest part exprs, pure_bind, Stmt.inks, Expr.inksAt_or]
      | ifThen found condPart thenPart =>
          have below := lt_of_stmt forest found enough
          have thenBlock := blockInks_eq thenPart depth fun number member stmt held =>
            ih held (below number member) (depth + 1)
          rw [stmtInks, follow (stmt_eq found)]
          simp only [exprWritten forest condPart exprs, thenBlock, pure_bind, Stmt.inks,
            Expr.inksAt_or]
      | ifElse found condPart thenPart elsePart =>
          have below := lt_of_stmt forest found enough
          have thenBlock := blockInks_eq thenPart depth fun number member stmt held =>
            ih held (below number (List.mem_append_left _ member)) (depth + 1)
          have elseBlock := blockInks_eq elsePart depth fun number member stmt held =>
            ih held (below number (List.mem_append_right _ member)) (depth + 1)
          rw [stmtInks, follow (stmt_eq found)]
          simp only [exprWritten forest condPart exprs, thenBlock, elseBlock, pure_bind, Stmt.inks,
            Expr.inksAt_or]
      | whileLoop found condPart bodyPart =>
          have below := lt_of_stmt forest found enough
          have body := blockInks_eq bodyPart depth fun number member stmt held =>
            ih held (below number member) (depth + 1)
          rw [stmtInks, follow (stmt_eq found)]
          simp only [exprWritten forest condPart exprs, body, pure_bind, Stmt.inks, Expr.inksAt_or]

theorem stmtOutline_eq {stmt : Stmt} (held : stored.arena.HoldsStmt number stmt)
    (enough : stored.arena.exprs.length + number < fuel) (depth : Nat) :
    stored.stmtOutline fuel depth number = pure (stmt.outline depth) := by
  induction fuel generalizing number stmt depth with
  | zero => omega
  | succ fuel ih =>
      have exprs : stored.arena.exprs.length ≤ fuel := by omega
      cases held with
      | assign found part =>
          rw [stmtOutline, follow (stmt_eq found)]
          simp only [exprOutlined forest part exprs, pure_bind, Stmt.outline]
      | ifThen found condPart thenPart =>
          have below := lt_of_stmt forest found enough
          have thenBlock := blockOutline_eq thenPart (depth + 1) fun number member stmt held =>
            ih held (below number member) (depth + 1 + 1)
          rw [stmtOutline, follow (stmt_eq found)]
          simp only [exprOutlined forest condPart exprs, thenBlock, pure_bind, Stmt.outline]
      | ifElse found condPart thenPart elsePart =>
          have below := lt_of_stmt forest found enough
          have thenBlock := blockOutline_eq thenPart (depth + 1) fun number member stmt held =>
            ih held (below number (List.mem_append_left _ member)) (depth + 1 + 1)
          have elseBlock := blockOutline_eq elsePart (depth + 1) fun number member stmt held =>
            ih held (below number (List.mem_append_right _ member)) (depth + 1 + 1)
          rw [stmtOutline, follow (stmt_eq found)]
          simp only [exprOutlined forest condPart exprs, thenBlock, elseBlock, pure_bind,
            Stmt.outline]
      | whileLoop found condPart bodyPart =>
          have below := lt_of_stmt forest found enough
          have body := blockOutline_eq bodyPart (depth + 1) fun number member stmt held =>
            ih held (below number member) (depth + 1 + 1)
          rw [stmtOutline, follow (stmt_eq found)]
          simp only [exprOutlined forest condPart exprs, body, pure_bind, Stmt.outline]

section

variable (exprs : stored.arena.exprs.length ≤ fuel)

include exprs

theorem functionInks_eq {node : FunctionNode} {function : Function}
    (held : stored.arena.HoldsFunction node function) :
    stored.functionInks fuel node = pure function.inks := by
  rw [functionInks, exprWritten forest held.body exprs, pure_bind, held.name, held.params]
  rfl

theorem functionsInks_eq {nodes : List FunctionNode} {functions : List Function}
    (held : List.Forall₂ stored.arena.HoldsFunction nodes functions) :
    stored.functionsInks fuel nodes = pure (Sipl.functionsInks functions) := by
  induction held with
  | nil => rfl
  | cons first others ih =>
      cases others with
      | nil =>
          rw [functionsInks, functionInks_eq forest exprs first, pure_bind]
          rfl
      | cons =>
          rw [functionsInks, functionInks_eq forest exprs first, pure_bind, ih, pure_bind]
          · rfl
          · nofun

theorem functionOutline_eq {node : FunctionNode} {function : Function}
    (held : stored.arena.HoldsFunction node function) :
    stored.functionOutline fuel node = pure function.outline := by
  rw [functionOutline, exprOutlined forest held.body exprs, pure_bind, held.name, held.params,
    held.site]
  rfl

end

variable (enough : stored.arena.exprs.length + stored.arena.stmts.length ≤ fuel)

include enough

theorem lt_of_main : ∀ number ∈ stored.arena.stmtList stored.root.body.stmts,
    stored.arena.exprs.length + number < fuel := by
  intro number member
  have := forest.stmtsStored number (List.mem_append_left _ member)
  omega

variable {program : Program} (holds : stored.Holds program)

include holds

theorem format_eq : stored.format fuel = pure program.format := by
  have exprs : stored.arena.exprs.length ≤ fuel := by omega
  have below := lt_of_main forest enough
  have body := blockInks_eq holds.body 0 fun number member stmt held =>
    stmtInks_eq forest held (below number member) 1
  rw [format, functionsInks_eq forest exprs holds.functions, pure_bind, body, pure_bind]
  rfl

theorem outline_eq : stored.outline fuel = pure program.outline := by
  have exprs : stored.arena.exprs.length ≤ fuel := by omega
  have below := lt_of_main forest enough
  have body := blockOutline_eq holds.body 1 fun number member stmt held =>
    stmtOutline_eq forest held (below number member) 2
  have functions := mapM_of_forall₂ holds.functions fun node _ function held =>
    functionOutline_eq forest exprs held
  rw [outline, functions, pure_bind, body, pure_bind, Program.outline, Program.outlineLines,
    List.flatMap]

end StoredProgram

end Sipl
