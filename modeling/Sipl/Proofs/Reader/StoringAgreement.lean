import Sipl.Proofs.Reader.Stores

namespace Sipl

namespace Keeper

/-- Whatever is pending. -/
def Agrees {start : Cursor} {α β : Type} (told : Span → Prop) (counterpart : Counterpart α β)
    (storing : StateT Arena (Except Breach) (Reading start α)) (reading : Reading start β) : Prop :=
  ∀ arena pending, start.Among told → arena.Sound told pending →
    Stores told counterpart arena pending (storing arena) reading

/-- Behind an expression that is pending. -/
def AgreesBehind {start : Cursor} {α β : Type} (told : Span → Prop)
    (counterpart : Counterpart α β) (left : Nat) (expr : Expr)
    (storing : StateT Arena (Except Breach) (Reading start α)) (reading : Reading start β) : Prop :=
  ∀ arena pending, start.Among told → arena.HoldsExpr left expr →
    arena.Sound told (.expr left :: pending) →
    Stores told counterpart arena pending (storing arena) reading

variable {told : Span → Prop}

theorem agrees_left {start : Cursor} {storing : StateT Arena (Except Breach) (Reading start Nat)}
    {reading : Id (Reading start Expr)}
    {next : Nat → (later : Cursor) → later.remaining ≤ start.remaining →
      StateT Arena (Except Breach) (Reading later Nat)}
    {further : Expr → (later : Cursor) → later.remaining ≤ start.remaining →
      Id (Reading later Expr)}
    (first : Agrees told .expr storing reading)
    (second : ∀ left expr later bound,
      AgreesBehind told .expr left expr (next left later bound) (further expr later bound)) :
    Agrees told .expr (Reading.andThen storing next) (Reading.andThen reading further) := by
  intro arena pending among sound
  refine (first arena pending among sound).andThen (.refl pending) ?_
  intro left expr later bound after among kept
  exact second left expr later bound after pending among kept.held kept.sound

section

variable {start : Cursor} {left : Nat} {expr : Expr}
  {storing : StateT Arena (Except Breach) (Reading start Nat)} {reading : Id (Reading start Expr)}
  {form : Nat → ExprForm Nat} {shape : Expr → ExprForm Expr} (closed : Span.Closed told)
  (first : Agrees told .expr storing reading)
  (joined : ∀ {arena right tree}, arena.HoldsExpr left expr → arena.HoldsExpr right tree →
    (form right).Fits told arena [.expr left, .expr right] (shape tree))

include closed first joined

/-- A binary node is stored behind its operands. -/
theorem agreesBehind_join :
    AgreesBehind told .expr left expr
      (Reading.finish storing fun right _ => nodes.keepExpr (form right))
      (Reading.finish reading fun tree _ => (shape tree).tree) := by
  intro arena pending among held sound
  refine (first arena _ among sound).finish (List.sublist_cons_self ..) ?_
  intro right tree stop after among kept
  exact .expr closed (joined (held.mono kept.stays) kept.held) (kept.sound.perm (.swap ..))

/-- A binary node may be the left operand of the next one. -/
theorem agreesBehind_joinThen
    {next : Nat → (later : Cursor) → StateT Arena (Except Breach) (Reading later Nat)}
    {further : Expr → (later : Cursor) → Id (Reading later Expr)}
    (second : ∀ number tree later, later.remaining ≤ start.remaining →
      AgreesBehind told .expr number tree (next number later) (further tree later)) :
    AgreesBehind told .expr left expr
      (Reading.andThen storing fun right later _ => do
        let number ← nodes.keepExpr (form right)
        next number later)
      (Reading.andThen reading fun tree later _ => further (shape tree).tree later) := by
  intro arena pending among held sound
  refine (first arena _ among sound).andThen (List.sublist_cons_self ..) ?_
  intro right tree later bound after among kept
  have fits := joined (held.mono kept.stays) kept.held
  refine .kept (.expr closed fits (kept.sound.perm (.swap ..))) ?_
  intro number final laid
  exact second number _ later bound final pending among laid.held laid.sound

end

theorem agreesBehind_done {start : Cursor} (left : Nat) (expr : Expr) :
    AgreesBehind told .expr left expr
      (pure (.done left) : StateT Arena (Except Breach) (Reading start Nat)) (.done expr) :=
  fun _ _ among held sound => .done among held sound

theorem agreesBehind_take {left : Nat} {expr : Expr} {cursor : Cursor}
    {inside : cursor.kind ≠ .eof}
    {next : Token → (later : Cursor) → later.remaining < cursor.remaining →
      StateT Arena (Except Breach) (Reading later Nat)}
    {further : Token → (later : Cursor) → later.remaining < cursor.remaining →
      Id (Reading later Expr)}
    (behind : ∀ token later less,
      AgreesBehind told .expr left expr (next token later less) (further token later less)) :
    AgreesBehind told .expr left expr (nodes.take cursor inside next)
      (trees.take cursor inside further) :=
  fun arena pending among held sound =>
    .take among fun token later less _ among =>
      behind token later less arena pending among held sound

theorem agrees_take {α β : Type} {counterpart : Counterpart α β} {cursor : Cursor}
    {inside : cursor.kind ≠ .eof}
    {next : Token → (later : Cursor) → later.remaining < cursor.remaining →
      StateT Arena (Except Breach) (Reading later α)}
    {further : Token → (later : Cursor) → later.remaining < cursor.remaining →
      Id (Reading later β)}
    (behind : ∀ token later less, told token.site.span →
      Agrees told counterpart (next token later less) (further token later less)) :
    Agrees told counterpart (nodes.take cursor inside next) (trees.take cursor inside further) :=
  fun arena pending among sound =>
    .take among fun token later less here among =>
      behind token later less here arena pending among sound

theorem agrees_fail {start : Cursor} {α β : Type} (counterpart : Counterpart α β)
    (fault : SyntaxFault) (message : String) :
    Agrees told counterpart
      (pure (.fail fault message) : StateT Arena (Except Breach) (Reading start α))
      (.fail fault message) :=
  fun _ _ among sound => .fail fault message among sound

/-- A condition waits while the word behind it is taken. -/
theorem agrees_condition {start : Cursor} {α β : Type} {counterpart : Counterpart α β}
    {storing : StateT Arena (Except Breach) (Reading start Nat)}
    {reading : Id (Reading start Expr)} {kind : Kind} {message : String}
    {next : Nat → (later : Cursor) → StateT Arena (Except Breach) (Reading later α)}
    {further : Expr → (later : Cursor) → Id (Reading later β)}
    (first : Agrees told .expr storing reading)
    (second : ∀ cond tree later, later.remaining ≤ start.remaining →
      AgreesBehind told counterpart cond tree (next cond later) (further tree later)) :
    Agrees told counterpart
      (Reading.andThen storing fun cond later _ =>
        Reading.andThen (nodes.expect later kind message) fun _ behind _ => next cond behind)
      (Reading.andThen reading fun tree later _ =>
        Reading.andThen (trees.expect later kind message)
          fun _ behind _ => further tree behind) := by
  intro arena pending among sound
  refine (first arena pending among sound).andThen (.refl pending) ?_
  intro cond tree later bound after among kept
  refine (Stores.expect kind message among kept.sound).andThen (List.sublist_cons_self ..) ?_
  intro _ _ behind within final among word
  exact second cond tree behind (Nat.le_trans within bound) final pending among
    (kept.held.mono word.stays) word.sound

/-- A node without parts. -/
theorem agrees_leaf {start : Cursor} {form : ExprForm Nat} {shape : ExprForm Expr}
    (closed : Span.Closed told) (fits : ∀ {arena}, form.Fits told arena [] shape) :
    Agrees told .expr
      (nodes.keepExpr form >>= fun number => pure (.done number : Reading start Nat))
      (.done shape.tree) :=
  fun _ _ among sound => .keptHere among (.expr closed fits sound)

/-- An operand waits until a token has been taken behind it. -/
theorem agreesBehind_expect (left : Nat) (expr : Expr) (cursor : Cursor) (kind : Kind)
    (message : String) :
    AgreesBehind told .expr left expr
      (Reading.finish (nodes.expect cursor kind message) fun _ _ => pure left)
      (Reading.finish (trees.expect cursor kind message) fun _ _ => expr) := by
  intro arena pending among held sound
  refine (Stores.expect kind message among sound).finish (List.sublist_cons_self ..) ?_
  exact fun _ _ _ _ _ kept => .here (held.mono kept.stays) kept.sound

mutual

theorem agrees_disjunction (closed : Span.Closed told) (cursor : Cursor) :
    Agrees told .expr (nodes.disjunction cursor) (trees.disjunction cursor) := by
  rw [disjunction, disjunction, during_nodes, during_trees]
  exact agrees_left (agrees_conjunction closed cursor) fun left expr later bound =>
    agrees_disjunctionTail closed left expr later
termination_by cursor.remaining * 16 + 11

theorem agrees_disjunctionTail (closed : Span.Closed told) (left : Nat) (expr : Expr)
    (cursor : Cursor) :
    AgreesBehind told .expr left expr (nodes.disjunctionTail left cursor)
      (trees.disjunctionTail expr cursor) := by
  rw [disjunctionTail, disjunctionTail]
  split
  · rw [during_nodes, during_trees]
    apply agreesBehind_take
    intro operator behind less
    exact agreesBehind_joinThen closed (agrees_conjunction closed behind) (.logical operator .or)
      fun number tree later bound => agrees_disjunctionTail closed number tree later
  · exact agreesBehind_done left expr
termination_by cursor.remaining * 16 + 10

theorem agrees_conjunction (closed : Span.Closed told) (cursor : Cursor) :
    Agrees told .expr (nodes.conjunction cursor) (trees.conjunction cursor) := by
  rw [conjunction, conjunction, during_nodes, during_trees]
  exact agrees_left (agrees_comparison closed cursor) fun left expr later bound =>
    agrees_conjunctionTail closed left expr later
termination_by cursor.remaining * 16 + 9

theorem agrees_conjunctionTail (closed : Span.Closed told) (left : Nat) (expr : Expr)
    (cursor : Cursor) :
    AgreesBehind told .expr left expr (nodes.conjunctionTail left cursor)
      (trees.conjunctionTail expr cursor) := by
  rw [conjunctionTail, conjunctionTail]
  split
  · rw [during_nodes, during_trees]
    apply agreesBehind_take
    intro operator behind less
    exact agreesBehind_joinThen closed (agrees_unary closed behind) (.logical operator .and)
      fun number tree later bound => agrees_conjunctionTail closed number tree later
  · exact agreesBehind_done left expr
termination_by cursor.remaining * 16 + 8

theorem agrees_comparison (closed : Span.Closed told) (cursor : Cursor) :
    Agrees told .expr (nodes.comparison cursor) (trees.comparison cursor) := by
  rw [comparison, comparison, during_nodes, during_trees]
  refine agrees_left (agrees_additive closed cursor) fun left expr later bound => ?_
  split
  · next op _ =>
      apply agreesBehind_take
      intro operator behind less
      exact agreesBehind_join closed (agrees_additive closed behind) (.arith operator op)
  · exact agreesBehind_done left expr
termination_by cursor.remaining * 16 + 7

theorem agrees_additive (closed : Span.Closed told) (cursor : Cursor) :
    Agrees told .expr (nodes.additive cursor) (trees.additive cursor) := by
  rw [additive, additive, during_nodes, during_trees]
  exact agrees_left (agrees_multiplicative closed cursor) fun left expr later bound =>
    agrees_additiveTail closed left expr later
termination_by cursor.remaining * 16 + 6

theorem agrees_additiveTail (closed : Span.Closed told) (left : Nat) (expr : Expr)
    (cursor : Cursor) :
    AgreesBehind told .expr left expr (nodes.additiveTail left cursor)
      (trees.additiveTail expr cursor) := by
  rw [additiveTail, additiveTail]
  split
  · next op _ =>
      rw [during_nodes, during_trees]
      apply agreesBehind_take
      intro operator behind less
      exact agreesBehind_joinThen closed (agrees_multiplicative closed behind) (.arith operator op)
        fun number tree later bound => agrees_additiveTail closed number tree later
  · exact agreesBehind_done left expr
termination_by cursor.remaining * 16 + 5

theorem agrees_multiplicative (closed : Span.Closed told) (cursor : Cursor) :
    Agrees told .expr (nodes.multiplicative cursor) (trees.multiplicative cursor) := by
  rw [multiplicative, multiplicative, during_nodes, during_trees]
  refine agrees_left (agrees_unary closed cursor) fun left expr later bound => ?_
  split
  · next op _ =>
      apply agreesBehind_take
      intro operator behind less
      exact agreesBehind_join closed (agrees_multiplicative closed behind) (.arith operator op)
  · exact agreesBehind_done left expr
termination_by cursor.remaining * 16 + 4

theorem agrees_unary (closed : Span.Closed told) (cursor : Cursor) :
    Agrees told .expr (nodes.unary cursor) (trees.unary cursor) := by
  rw [unary, unary, during_nodes, during_trees]
  split
  · next op _ =>
      apply agrees_take
      intro operator behind less here arena pending among sound
      refine (agrees_unary closed behind arena pending among sound).finish (.refl pending) ?_
      intro operand expr stop after among kept
      exact .expr closed (.unary here op kept.held) kept.sound
  · exact agrees_primary closed cursor
termination_by cursor.remaining * 16 + 3

theorem agrees_primary (closed : Span.Closed told) (cursor : Cursor) :
    Agrees told .expr (nodes.primary cursor) (trees.primary cursor) := by
  rw [primary, primary, during_nodes, during_trees]
  split
  · apply agrees_take
    intro token behind less _
    exact agrees_left (agrees_comparison closed behind) fun inner expr later bound =>
      agreesBehind_expect inner expr later _ _
  · rw [during_nodes, during_trees]
    apply agrees_take
    intro word behind less here
    exact agrees_conditional closed word behind here
  · split
    · apply agrees_take
      intro token behind less here
      exact agrees_leaf closed (.literal here _)
    · exact agrees_fail _ _ _
  · apply agrees_take
    intro token behind less here
    exact agrees_leaf closed (.literal here _)
  · apply agrees_take
    intro token behind less here
    exact agrees_leaf closed (.literal here _)
  · split
    · rw [during_nodes, during_trees]
      apply agrees_take
      intro name behind less here
      exact agrees_call closed name behind here
    · apply agrees_take
      intro name behind less here
      exact agrees_leaf closed (.var here _)
  · exact agrees_fail _ _ _
termination_by cursor.remaining * 16 + 2

theorem agrees_conditional (closed : Span.Closed told) (word : Token) (cursor : Cursor)
    (here : told word.site.span) :
    Agrees told .expr (nodes.conditional word cursor) (trees.conditional word cursor) := by
  rw [conditional, conditional]
  apply agrees_condition (agrees_disjunction closed cursor)
  intro cond condTree behindThen within arena pending among condHeld sound
  refine (agrees_comparison closed behindThen _ _ among sound).andThen
    (List.sublist_cons_self ..) ?_
  intro thenBranch thenTree afterThen _ _ among second
  have condHeld := condHeld.mono second.stays
  split
  · apply Stores.take among
    intro elseWord behindElse less _ among
    refine (agrees_comparison closed behindElse _ _ among second.sound).finish ?_ ?_
    · exact (List.sublist_cons_self ..).trans (List.sublist_cons_self ..)
    · intro elseBranch elseTree stop _ among third
      have covers := closed.merge here (among.previousSpan closed)
      refine .expr closed (.ifElse covers (condHeld.mono third.stays)
        (second.held.mono third.stays) third.held) (third.sound.perm ?_)
      exact (List.reverse_perm [Share.expr cond, .expr thenBranch, .expr elseBranch]).append_right _
  · have covers := closed.merge here (among.previousSpan closed)
    exact .keptHere among (.expr closed (.ifThen covers condHeld second.held)
      (second.sound.perm (.swap ..)))
termination_by cursor.remaining * 16 + 12

theorem agrees_call (closed : Span.Closed told) (name : Token) (cursor : Cursor)
    (here : told name.site.span) :
    Agrees told .expr (nodes.call name cursor) (trees.call name cursor) := by
  rw [call, call]
  intro arena pending among sound
  refine (Stores.expect _ _ among sound).andThen (.refl pending) ?_
  intro _ _ behind bound _ among opened
  refine (agrees_arguments closed behind _ pending among opened.sound).finish (.refl pending) ?_
  intro args exprs stop after among kept
  have covers := closed.merge here (among.previousSpan closed)
  exact .expr closed (.call covers _ kept.held) (Counterpart.shares_exprs args ▸ kept.sound)
termination_by cursor.remaining * 16 + 15

theorem agrees_arguments (closed : Span.Closed told) (cursor : Cursor) :
    Agrees told Counterpart.expr.list (nodes.arguments cursor) (trees.arguments cursor) := by
  rw [arguments, arguments]
  split
  · apply agrees_take
    intro token behind less _
    exact fun arena pending among sound => .done among .nil sound
  · intro arena pending among sound
    refine (agrees_comparison closed cursor arena pending among sound).andThen (.refl pending) ?_
    intro number expr later bound after among first
    refine (agrees_argumentsTail closed later after _ among first.sound).finish
      (List.sublist_cons_self ..) ?_
    intro numbers exprs stop final among others
    exact .here (.cons (first.held.mono others.stays) others.held)
      (others.sound.perm List.perm_middle)
termination_by cursor.remaining * 16 + 14

theorem agrees_argumentsTail (closed : Span.Closed told) (cursor : Cursor) :
    Agrees told Counterpart.expr.list (nodes.argumentsTail cursor)
      (trees.argumentsTail cursor) := by
  rw [argumentsTail, argumentsTail]
  split
  · apply agrees_take
    intro token behind less _
    exact fun arena pending among sound => .done among .nil sound
  · split
    · rw [during_nodes, during_trees]
      apply agrees_take
      intro token behind less _ arena pending among sound
      refine (agrees_comparison closed behind arena pending among sound).andThen
        (.refl pending) ?_
      intro number expr later bound after among first
      refine (agrees_argumentsTail closed later after _ among first.sound).finish
        (List.sublist_cons_self ..) ?_
      intro numbers exprs stop final among others
      exact .here (.cons (first.held.mono others.stays) others.held)
        (others.sound.perm List.perm_middle)
    · exact agrees_fail _ _ _
termination_by cursor.remaining * 16 + 13

end

/-- The same for what cannot fail. -/
def AgreesAll {start : Cursor} {α β : Type} (told : Span → Prop) (counterpart : Counterpart α β)
    (storing : StateT Arena (Except Breach) (Recovered start α))
    (recovered : Recovered start β) : Prop :=
  ∀ arena pending, start.Among told → arena.Sound told pending →
    StoresAll told counterpart arena pending (storing arena) recovered

theorem agrees_abandonBlock (cursor : Cursor) (missing : Kind) (message : String) :
    AgreesAll told (.same fun _ => True) (nodes.abandonBlock cursor missing message)
      (trees.abandonBlock cursor missing message) := by
  intro arena pending among sound
  have skipped := StoresAll.skip .statementBoundary cursor among sound
  simp only [abandonBlock, Bind.bind, StateT.bind]
  generalize nodes.skip .statementBoundary cursor arena = outcome at skipped ⊢
  generalize trees.skip .statementBoundary cursor = recovered at skipped ⊢
  cases skipped with
  | @value _ _ _ stop bound middle among first =>
      have eaten := StoresAll.eat .endWord (by decide) among first.sound
      simp only [Except.bind]
      generalize nodes.eat stop .endWord _ middle = outcome at eaten ⊢
      generalize trees.eat stop .endWord _ = recovered at eaten ⊢
      cases eaten with
      | value among last =>
          exact .value among ⟨first.stays.trans last.stays, ⟨rfl, trivial⟩, last.sound⟩

theorem agrees_closeBlock (cursor : Cursor) :
    AgreesAll told (.same fun _ => True) (nodes.closeBlock cursor) (trees.closeBlock cursor) := by
  rw [closeBlock, closeBlock]
  split
  · exact fun _ _ among sound => .pass among fun _ _ among => .done among ⟨rfl, trivial⟩ sound
  · exact agrees_abandonBlock cursor _ _

mutual

theorem agrees_block (closed : Span.Closed told) (cursor : Cursor) :
    AgreesAll told (.block told) (nodes.block cursor) (trees.block cursor) := by
  rw [block, block, during_nodes, during_trees]
  intro arena pending among sound
  have here := among.here
  split
  · apply StoresAll.pass among
    intro behind less among
    refine (agrees_statements closed behind arena pending among sound).andThen ?_
    intro numbers stmts later _ _ among kept
    refine (agrees_closeBlock later _ _ among kept.sound).finish ?_
    intro _ _ stop _ among last
    exact .block (closed.merge here (among.previousSpan closed))
      (Counterpart.stmt.list.mono kept.held last.stays) last.sound
  · refine (agrees_abandonBlock cursor _ _ _ _ among sound).finish ?_
    intro _ _ stop _ among last
    exact .block (closed.merge here (among.previousSpan closed)) .nil last.sound
termination_by cursor.remaining * 4 + 2

theorem agrees_statements (closed : Span.Closed told) (cursor : Cursor) :
    AgreesAll told Counterpart.stmt.list (nodes.statements cursor) (trees.statements cursor) := by
  rw [statements, statements]
  intro arena pending among sound
  refine (StoresAll.orSkip _ (agrees_statement closed cursor arena pending among sound)).andThen ?_
  intro numbers stmts later bound after among first
  split
  · rw [during_nodes, during_trees]
    apply StoresAll.pass among
    intro behind less among
    refine (agrees_statements closed behind after _ among first.sound).finish ?_
    intro others trees stop final among rest
    exact .here (first.append rest).1 (first.append rest).2
  · exact .done among first.held first.sound
termination_by cursor.remaining * 4 + 1

theorem agrees_statement (closed : Span.Closed told) (cursor : Cursor) :
    Agrees told Counterpart.stmt.noted (nodes.statement cursor) (trees.statement cursor) := by
  rw [statement, statement, during_nodes, during_trees]
  split
  · apply agrees_take
    intro word behind less here
    apply agrees_condition (agrees_disjunction closed behind)
    intro cond condTree behindThen within arena pending among condHeld sound
    refine (agrees_block closed behindThen _ _ among sound).noted.andThen
      (List.sublist_cons_self ..) ?_
    rintro ⟨thenNode, errors⟩ ⟨thenBlock, _⟩ afterThen _ _ among ⟨stays, ⟨thenHeld, rfl⟩, sound⟩
    have condHeld := condHeld.mono stays
    dsimp only
    split
    · apply Stores.take among
      intro elseWord behindElse less _ among
      refine (agrees_block closed behindElse _ _ among sound).noted.finish
        ((List.sublist_cons_self ..).trans (List.sublist_cons_self ..)) ?_
      rintro ⟨elseNode, more⟩ ⟨elseBlock, _⟩ stop _ among ⟨further, ⟨elseHeld, rfl⟩, sound⟩
      have covers := closed.merge here (among.previousSpan closed)
      refine .noted _ (.stmt (.ifElse covers (condHeld.mono further)
        ((Counterpart.block told).mono thenHeld further) elseHeld) (sound.perm ?_))
      exact (List.reverse_perm [Share.expr cond, .body thenNode.stmts,
        .body elseNode.stmts]).append_right _
    · have covers := closed.merge here (among.previousSpan closed)
      exact .keptHere among (.noted _ (.stmt (.ifThen covers condHeld thenHeld)
        (sound.perm (.swap ..))))
  · apply agrees_take
    intro word behind less here
    apply agrees_condition (agrees_disjunction closed behind)
    intro cond condTree behindDo within arena pending among condHeld sound
    refine (agrees_block closed behindDo _ _ among sound).noted.finish
      (List.sublist_cons_self ..) ?_
    rintro ⟨node, errors⟩ ⟨body, _⟩ stop _ among ⟨stays, ⟨held, rfl⟩, sound⟩
    have covers := closed.merge here (among.previousSpan closed)
    exact .noted _ (.stmt (.whileLoop covers (condHeld.mono stays) held) (sound.perm (.swap ..)))
  · apply agrees_take
    intro name behind less here arena pending among sound
    refine (Stores.expect _ _ among sound).andThen (.refl pending) ?_
    intro _ _ behindAssign _ _ among first
    refine (agrees_disjunction closed behindAssign _ _ among first.sound).finish
      (.refl pending) ?_
    intro value tree stop after among second
    have covers := closed.merge here (among.previousSpan closed)
    exact .noted _ (.stmt (.assign covers _ second.held) second.sound)
  · exact agrees_fail _ _ _
termination_by cursor.remaining * 4

end

/-- The spans of the parameters are as told. -/
def ParamsHold (told : Span → Prop) (params : List Param) : Prop :=
  ∀ param ∈ params, told param.span

theorem agrees_paramsTail (cursor : Cursor) :
    Agrees told (.same (ParamsHold told)) (nodes.paramsTail cursor) (trees.paramsTail cursor) := by
  rw [paramsTail, paramsTail]
  split
  · rw [during_nodes, during_trees]
    apply agrees_take
    intro token behind less _ arena pending among sound
    refine (Stores.expectName _ among sound).andThen (.refl pending) ?_
    rintro name _ later _ _ among ⟨-, ⟨rfl, here⟩, sound⟩
    refine (agrees_paramsTail later _ _ among sound).finish (.refl pending) ?_
    rintro others _ stop _ among ⟨-, ⟨rfl, held⟩, sound⟩
    exact .here ⟨rfl, List.forall_mem_cons.mpr ⟨here, held⟩⟩ sound
  · exact fun _ _ among sound => .done among ⟨rfl, List.forall_mem_nil _⟩ sound
termination_by cursor.remaining

theorem agrees_params (cursor : Cursor) :
    Agrees told (.same (ParamsHold told)) (nodes.params cursor) (trees.params cursor) := by
  rw [params, params, during_nodes, during_trees]
  split
  · exact fun _ _ among sound => .done among ⟨rfl, List.forall_mem_nil _⟩ sound
  · intro arena pending among sound
    refine (Stores.expectName _ among sound).andThen (.refl pending) ?_
    rintro name _ later _ _ among ⟨-, ⟨rfl, here⟩, sound⟩
    refine (agrees_paramsTail later _ _ among sound).finish (.refl pending) ?_
    rintro others _ stop _ among ⟨-, ⟨rfl, held⟩, sound⟩
    exact .here ⟨rfl, List.forall_mem_cons.mpr ⟨here, held⟩⟩ sound

theorem agrees_function (closed : Span.Closed told) {word : Token} (cursor : Cursor)
    (here : told word.site.span) :
    Agrees told (Counterpart.function told).noted (nodes.function word cursor)
      (trees.function word cursor) := by
  rw [function, function]
  intro arena pending among sound
  refine (Stores.expectName _ among sound).andThen (.refl pending) ?_
  rintro name _ behindName _ _ among ⟨-, ⟨rfl, -⟩, sound⟩
  refine (Stores.expect _ _ among sound).andThen (.refl pending) ?_
  rintro _ _ behindOpen _ _ among ⟨-, -, sound⟩
  refine (agrees_params _ _ _ among sound).andThen (.refl pending) ?_
  rintro params _ afterParams _ _ among ⟨-, ⟨rfl, paramsHeld⟩, sound⟩
  refine (Stores.expect _ _ among sound).andThen (.refl pending) ?_
  rintro _ _ behindClose _ _ among ⟨-, -, sound⟩
  refine (Stores.expect _ _ among sound).andThen (.refl pending) ?_
  rintro _ _ behindEq _ _ among ⟨-, -, sound⟩
  refine (agrees_comparison closed behindEq _ _ among sound).finish (.refl pending) ?_
  intro number body stop after among kept
  refine .here ⟨⟨?_, rfl, rfl, rfl, kept.held⟩, rfl⟩ kept.sound
  exact List.forall_mem_cons.mpr ⟨closed.merge here (among.previousSpan closed),
    List.forall_mem_map.mpr paramsHeld⟩

theorem agrees_functions (closed : Span.Closed told) (cursor : Cursor) :
    AgreesAll told (Counterpart.function told).list (nodes.functions cursor)
      (trees.functions cursor) := by
  rw [functions, functions]
  intro arena pending among sound
  have here := among.here
  split
  · rw [during_nodes, during_nodes, during_trees, during_trees]
    apply StoresAll.pass among
    intro behind less among
    have declared := agrees_function closed behind here arena pending among sound
    refine (StoresAll.orSkip _ declared).andThen ?_
    intro stored trees later bound after among first
    split
    · apply StoresAll.pass among
      intro next shorter among
      refine (agrees_functions closed next after _ among first.sound).finish ?_
      intro others more stop final among rest
      exact .here (first.append rest).1 (first.append rest).2
    · cases first.held with
      | nil => exact agrees_functions closed later after pending among first.sound
      | cons => exact .done among first.held first.sound
  · exact .done among .nil sound
termination_by cursor.remaining

end Keeper

namespace StoredParse

/-- The spans of all that was stored and of the program. -/
def spans (stored : StoredParse) : List Span :=
  stored.arena.spans ++ stored.root?.elim [] ProgramNode.spans

/-- The same was read as trees. -/
structure Follows (stored : StoredParse) (parsed : Parsed) : Prop where
  errors : stored.errors = parsed.errors
  root : Option.Rel stored.arena.HoldsProgram stored.root? parsed.program?
  empty : stored.root? = none → stored.arena = {}
  tidy : stored.arena.Tidy (stored.root?.elim [] ProgramNode.shares)

variable {told : Span → Prop}

/-- The spans of the trees are among those that were stored. -/
theorem Follows.all_spans {stored : StoredParse} {parsed : Parsed}
    (follows : stored.Follows parsed) (spanned : ∀ span ∈ stored.spans, told span)
    {program : Program} (found : parsed.program? = some program) :
    ∀ tree ∈ program.spans, tree.All told := by
  obtain ⟨inArena, inRoot⟩ := List.forall_mem_append.mp spanned
  have related := follows.root
  rw [found] at related
  generalize stored.root? = root? at related inRoot
  cases related with
  | some held => exact Arena.Spanned.all_program inArena inRoot held

theorem ofCursor_follows (closed : Span.Closed told) {cursor : Cursor}
    (among : cursor.Among told) :
    ∃ stored, ofCursor cursor = .ok stored ∧ stored.Follows (Parsed.ofCursor cursor) ∧
      ∀ span ∈ stored.spans, told span := by
  rw [ofCursor, Parsed.ofCursor, Parsed.ofRead, Keeper.program, Keeper.program,
    Keeper.during_nodes, Keeper.during_trees]
  split
  · have first := Keeper.agrees_functions closed cursor.advance {} [] among.advance .empty
    simp only [Keeper.pass, Keeper.during_nodes, Keeper.during_trees, Bind.bind, StateT.bind]
    generalize nodes.functions cursor.advance {} = outcome at first ⊢
    generalize trees.functions cursor.advance = declared at first ⊢
    cases first with
    | @value functions declared errors stop bound middle among first =>
        have second := Keeper.agrees_block closed stop middle _ among first.sound
        simp only [Except.bind]
        generalize nodes.block stop middle = outcome at second ⊢
        generalize trees.block stop = body at second ⊢
        cases second with
        | value among second =>
            obtain ⟨stays, ⟨covers, held⟩, tidy, spanned⟩ := second
            have both := (Counterpart.function told).list.mono first.held stays
            obtain ⟨own, same⟩ := (List.forall₂_and_left functions declared).mp both
            refine ⟨_, rfl, ⟨rfl, .some ⟨same, held⟩, fun none => ?_, ?_⟩, ?_⟩
            · cases none
            · rwa [List.append_nil, Counterpart.shares_functions] at tidy
            · refine List.forall_mem_append.mpr ⟨spanned, List.forall_mem_append.mpr
                ⟨?_, List.forall_mem_singleton.mpr covers⟩⟩
              exact List.forall_mem_flatMap.mpr own
  · exact ⟨_, rfl, ⟨rfl, .none, fun _ => rfl, .empty⟩, List.forall_mem_nil _⟩

end StoredParse

end Sipl
