import Sipl.Proofs.Format.Canonical

namespace Sipl

/-! A tree need not have been read from a source text.  It survives being written if its names are
names, its integers are not negative, none of its blocks is empty, and `and` and `or` stand only
where no parentheses are needed around them, since parentheses hold a comparison. -/

/-- A word of ASCII letters and underscores that is not reserved. -/
def IsPlainName (name : String) : Prop :=
  name ≠ "" ∧
    (∀ letter ∈ name.toList,
      'a' ≤ letter ∧ letter ≤ 'z' ∨ 'A' ≤ letter ∧ letter ≤ 'Z' ∨ letter = '_') ∧
    name ∉ Kind.reserved.map Kind.text

/-- Where an expression stands, as far as it matters to `and` and `or`. -/
inductive Position where
  /-- The value of an assignment, or the condition of a statement or of an `if` expression. -/
  | whole
  | left (op : LogicalOp)
  | right (op : LogicalOp)
  /-- An operand of another operator, a branch, an argument or the body of a function. -/
  | part

def Position.admits : Position → LogicalOp → Bool
  | whole, _ => true
  | left .or, _ => true
  | right .or, op => op = .and
  | left .and, op => op = .and
  | right .and, _ => false
  | part, _ => false

namespace Expr

mutual

/-- The nodes of an expression with their positions, the first of which is given. -/
def nodes (position : Position) : Expr → List (Position × Expr)
  | literal site value => [(position, literal site value)]
  | var site name => [(position, var site name)]
  | unary site op operand => (position, unary site op operand) :: operand.nodes .part
  | arith site op left right =>
    (position, arith site op left right) :: (left.nodes .part ++ right.nodes .part)
  | logical site op left right =>
    (position, logical site op left right) :: (left.nodes (.left op) ++ right.nodes (.right op))
  | ifThen site cond thenBranch =>
    (position, ifThen site cond thenBranch) :: (cond.nodes .whole ++ thenBranch.nodes .part)
  | ifElse site cond thenBranch elseBranch =>
    (position, ifElse site cond thenBranch elseBranch) ::
      (cond.nodes .whole ++ (thenBranch.nodes .part ++ elseBranch.nodes .part))
  | call site callee args => (position, call site callee args) :: argsNodes args

def argsNodes : List Expr → List (Position × Expr)
  | [] => []
  | arg :: rest => arg.nodes .part ++ argsNodes rest

end

def name? : Expr → Option String
  | var _ name => some name
  | call _ callee _ => some callee
  | _ => none

end Expr

/-- The value or the condition of a statement. -/
def Stmt.expr : Stmt → Expr
  | .assign _ _ value => value
  | .ifThen _ cond _ => cond
  | .ifElse _ cond _ _ => cond
  | .whileLoop _ cond _ => cond

def Stmt.target? : Stmt → Option String
  | .assign _ target _ => some target
  | _ => none

mutual

def Stmt.blocks : Stmt → List Block
  | .assign .. => []
  | .ifThen _ _ thenBlock => thenBlock.blocks
  | .ifElse _ _ thenBlock elseBlock => thenBlock.blocks ++ elseBlock.blocks
  | .whileLoop _ _ body => body.blocks

/-- A block and the blocks inside of it. -/
def Block.blocks : Block → List Block
  | .mk span stmts => .mk span stmts :: stmtsBlocks stmts

def stmtsBlocks : List Stmt → List Block
  | [] => []
  | stmt :: rest => stmt.blocks ++ stmtsBlocks rest

end

namespace Program

def stmts (program : Program) : List Stmt := program.body.blocks.flatMap Block.stmts

def nodes (program : Program) : List (Position × Expr) :=
  program.functions.flatMap (·.body.nodes .part) ++ program.stmts.flatMap (·.expr.nodes .whole)

/-- The names of functions, parameters and variables wherever they are written. -/
def names (program : Program) : List String :=
  program.functions.map Function.name ++
    program.functions.flatMap (·.params.map Param.name) ++
    program.stmts.filterMap Stmt.target? ++ program.nodes.filterMap (·.2.name?)

/-- Said of the tree alone, wherever it comes from. -/
structure Printable (program : Program) : Prop where
  named : ∀ name ∈ program.names, IsPlainName name
  natural : ∀ position site value,
    (position, Expr.literal site (.int value)) ∈ program.nodes → 0 ≤ value
  filled : ∀ block ∈ program.body.blocks, block.stmts ≠ []
  placed : ∀ position site op left right,
    (position, Expr.logical site op left right) ∈ program.nodes → position.admits op = true

end Program

theorem isName_iff {name : String} : IsName name ↔ IsPlainName name := by
  have filled : name ≠ "" ↔ name.toList ≠ [] := by simp
  have free : name ∉ Kind.reserved.map Kind.text ↔
      ∀ reserved ∈ Spells.words, reserved.2.toList ≠ name.toList := by
    have listed : Kind.reserved.map Kind.text = Spells.words.map Prod.snd := by decide
    simp only [listed, List.mem_map, not_exists, not_and, ne_eq, String.toList_inj]
  simp only [IsName, IsPlainName, filled, free]
  generalize name.toList = letters
  constructor
  · intro spelled
    generalize named : Kind.ident = kind at spelled
    cases spelled with
    | name nonempty word free => exact ⟨nonempty, word, free⟩
    | symbol listed =>
        subst named
        exact absurd (Spells.mem_symbols.mp listed).1 (by decide)
    | reserved listed =>
        subst named
        exact absurd (Spells.mem_words.mp listed).1 (by decide)
    | bang | number => cases named
  · intro accepted
    exact .name accepted.1 accepted.2.1 accepted.2.2

namespace Position

/-- What is asked of an expression for where it stands. -/
def Suits (position : Position) : Expr → Prop
  | .logical _ op _ _ => position.admits op = true
  | _ => True

/-- What is asked of a node, whatever is below it. -/
def Accepts (position : Position) : Expr → Prop
  | .literal _ value => value.Writable
  | .var _ name => IsName name
  | .call _ callee _ => IsName callee
  | .logical _ op _ _ => position.admits op = true
  | _ => True

theorem suits_whole (expr : Expr) : whole.Suits expr := by
  cases expr <;> trivial

/-- A position and a level at which the same logical operators stand without parentheses. -/
def Matches (position : Position) (minimum : Precedence) : Prop :=
  ∀ op : LogicalOp, position.admits op = true ↔ ¬ op.precedence < minimum

theorem Matches.suits_iff {position : Position} {minimum : Precedence}
    (same : position.Matches minimum) {expr : Expr} :
    position.Suits expr ↔ expr.FitsAt minimum := by
  cases expr with
  | logical site op left right =>
      -- Parentheses do not help: they hold a comparison.
      have looser : op.precedence < .comparison := by cases op <;> decide
      simp only [Suits, same op, Expr.FitsAt, Expr.loose, Expr.precedence, looser, decide_true,
        Bool.true_eq_false, or_false]
      exact decide_eq_false_iff_not.symm
  | arith site op left right =>
      refine iff_of_true trivial (.inr ?_)
      cases op <;> rfl
  | literal | var | unary | ifThen | ifElse | call => exact iff_of_true trivial (.inr rfl)

theorem matches_left (op : LogicalOp) : (left op).Matches op.operandPrecedence.1 := by
  intro inner
  cases op <;> cases inner <;> decide

theorem matches_right (op : LogicalOp) : (right op).Matches op.operandPrecedence.2 := by
  intro inner
  cases op <;> cases inner <;> decide

theorem matches_part {minimum : Precedence} (tight : ¬ minimum < .comparison) :
    part.Matches minimum := by
  intro op
  cases minimum <;> cases op <;> first | decide | exact absurd (by decide) tight

theorem matches_operands (op : ArithOp) :
    part.Matches op.operandPrecedence.1 ∧ part.Matches op.operandPrecedence.2 := by
  cases op <;> exact ⟨matches_part (by decide), matches_part (by decide)⟩

end Position

namespace Expr

mutual

/-- Every node is accepted where it stands if the expression can be written and suits its own
position. -/
theorem nodes_accepted_iff (expr : Expr) (position : Position) :
    (∀ node ∈ expr.nodes position, node.1.Accepts node.2) ↔
      expr.Writable ∧ position.Suits expr := by
  have part : Position.part.Matches .comparison := Position.matches_part (by decide)
  match expr with
  | literal .. | var .. =>
      rw [nodes, List.forall_mem_singleton]
      exact iff_of_eq (and_true _).symm
  | unary _ _ operand =>
      have tight : Position.part.Matches .unary := Position.matches_part (by decide)
      rw [nodes, List.forall_mem_cons, nodes_accepted_iff operand, tight.suits_iff]
      exact and_comm
  | arith _ op left right =>
      obtain ⟨leftSame, rightSame⟩ := Position.matches_operands op
      rw [nodes, List.forall_mem_cons, List.forall_mem_append, nodes_accepted_iff left,
        nodes_accepted_iff right, leftSame.suits_iff, rightSame.suits_iff]
      exact and_comm
  | logical _ op left right =>
      rw [nodes, List.forall_mem_cons, List.forall_mem_append, nodes_accepted_iff left,
        nodes_accepted_iff right, (Position.matches_left op).suits_iff,
        (Position.matches_right op).suits_iff]
      exact and_comm
  | ifThen _ cond thenBranch =>
      rw [nodes, List.forall_mem_cons, List.forall_mem_append, nodes_accepted_iff cond,
        nodes_accepted_iff thenBranch, part.suits_iff, and_iff_left (Position.suits_whole cond)]
      exact and_comm
  | ifElse _ cond thenBranch elseBranch =>
      rw [nodes, List.forall_mem_cons, List.forall_mem_append, List.forall_mem_append,
        nodes_accepted_iff cond, nodes_accepted_iff thenBranch, nodes_accepted_iff elseBranch,
        part.suits_iff, part.suits_iff, and_iff_left (Position.suits_whole cond)]
      exact and_comm
  | call _ callee args =>
      rw [nodes, List.forall_mem_cons, argsNodes_accepted_iff args]
      exact iff_of_eq (and_true _).symm

theorem argsNodes_accepted_iff (args : List Expr) :
    (∀ node ∈ argsNodes args, node.1.Accepts node.2) ↔ ArgsWritable args := by
  have part : Position.part.Matches .comparison := Position.matches_part (by decide)
  match args with
  | [] => simp [argsNodes, ArgsWritable]
  | arg :: rest =>
      simp only [argsNodes, List.forall_mem_append, nodes_accepted_iff arg,
        argsNodes_accepted_iff rest, part.suits_iff, ArgsWritable]

end

end Expr

/-- What is asked of a statement, whatever is in its blocks. -/
def Stmt.Accepted (stmt : Stmt) : Prop :=
  (∀ target ∈ stmt.target?, IsName target) ∧ stmt.expr.Writable

/-- What is asked of a block, whatever is in the blocks inside of it. -/
def Block.Accepted (block : Block) : Prop :=
  block.stmts ≠ [] ∧ ∀ stmt ∈ block.stmts, stmt.Accepted

theorem stmtsEmptyBlocks_eq_zero_iff {stmts : List Stmt} :
    stmtsEmptyBlocks stmts = 0 ↔ stmts ≠ [] ∧ ∀ stmt ∈ stmts, stmt.emptyBlocks = 0 := by
  induction stmts with
  | nil => simp [stmtsEmptyBlocks]
  | cons first rest ih =>
      cases rest with
      | nil => simp [stmtsEmptyBlocks]
      | cons second others =>
          have more : second :: others ≠ [] := List.cons_ne_nil second others
          rw [stmtsEmptyBlocks, Nat.add_eq_zero_iff, ih, List.forall_mem_cons]
          · simp [more]
          · exact more

theorem forall_mem_stmtsBlocks {stmts : List Stmt} {accepted : Block → Prop} :
    (∀ block ∈ stmtsBlocks stmts, accepted block) ↔
      ∀ stmt ∈ stmts, ∀ block ∈ stmt.blocks, accepted block := by
  induction stmts with
  | nil => simp [stmtsBlocks]
  | cons stmt rest ih => rw [stmtsBlocks, List.forall_mem_append, ih, List.forall_mem_cons]

/-- Of a statement that is not an assignment its condition is asked to be written. -/
theorem Stmt.accepted_iff {stmt : Stmt} (targetless : stmt.target? = none) :
    stmt.Accepted ↔ stmt.expr.Writable := by
  simp [Stmt.Accepted, targetless]

mutual

theorem Stmt.blocks_accepted_iff (stmt : Stmt) :
    stmt.Accepted ∧ (∀ block ∈ stmt.blocks, block.Accepted) ↔
      stmt.Writable ∧ stmt.emptyBlocks = 0 := by
  match stmt with
  | .assign _ target value =>
      simp [Stmt.Accepted, Stmt.blocks, Stmt.Writable, Stmt.emptyBlocks, Stmt.target?, Stmt.expr]
  | .ifThen _ cond thenBlock =>
      rw [Stmt.accepted_iff rfl, Stmt.blocks, Block.blocks_accepted_iff thenBlock, ← and_assoc]
      exact Iff.rfl
  | .ifElse _ cond thenBlock elseBlock =>
      rw [Stmt.accepted_iff rfl, Stmt.blocks, List.forall_mem_append,
        Block.blocks_accepted_iff thenBlock, Block.blocks_accepted_iff elseBlock,
        and_and_and_comm, ← and_assoc, ← Nat.add_eq_zero_iff]
      exact Iff.rfl
  | .whileLoop _ cond body =>
      rw [Stmt.accepted_iff rfl, Stmt.blocks, Block.blocks_accepted_iff body, ← and_assoc]
      exact Iff.rfl

theorem Block.blocks_accepted_iff (block : Block) :
    (∀ inner ∈ block.blocks, inner.Accepted) ↔ block.Writable ∧ block.emptyBlocks = 0 := by
  match block with
  | .mk span stmts =>
      have each := stmts_blocks_accepted_iff stmts
      rw [Block.blocks, List.forall_mem_cons, forall_mem_stmtsBlocks, Block.Writable,
        stmtsWritable_iff, Block.emptyBlocks, stmtsEmptyBlocks_eq_zero_iff]
      constructor
      · intro accepted
        have whole := fun stmt member =>
          (each stmt member).mp ⟨accepted.1.2 stmt member, accepted.2 stmt member⟩
        exact ⟨fun stmt member => (whole stmt member).1, accepted.1.1,
          fun stmt member => (whole stmt member).2⟩
      · intro written
        have whole := fun stmt member =>
          (each stmt member).mpr ⟨written.1 stmt member, written.2.2 stmt member⟩
        exact ⟨⟨written.2.1, fun stmt member => (whole stmt member).1⟩,
          fun stmt member => (whole stmt member).2⟩

theorem stmts_blocks_accepted_iff (stmts : List Stmt) :
    ∀ stmt ∈ stmts, (stmt.Accepted ∧ (∀ block ∈ stmt.blocks, block.Accepted) ↔
      stmt.Writable ∧ stmt.emptyBlocks = 0) := by
  match stmts with
  | [] => simp
  | stmt :: rest =>
      exact List.forall_mem_cons.mpr ⟨Stmt.blocks_accepted_iff stmt, stmts_blocks_accepted_iff rest⟩

end

namespace Program

variable {program : Program}

theorem nodes_accepted_iff_clauses :
    (∀ node ∈ program.nodes, node.1.Accepts node.2) ↔
      (∀ name ∈ program.nodes.filterMap (·.2.name?), IsName name) ∧
      (∀ position site value,
        (position, Expr.literal site (.int value)) ∈ program.nodes → 0 ≤ value) ∧
      ∀ position site op left right,
        (position, Expr.logical site op left right) ∈ program.nodes →
          position.admits op = true := by
  constructor
  · intro accepted
    refine ⟨fun name listed => ?_, fun position site value member => accepted _ member,
      fun position site op left right member => accepted _ member⟩
    obtain ⟨⟨position, expr⟩, member, known⟩ := List.mem_filterMap.mp listed
    have asked := accepted _ member
    cases expr with
    | var | call => cases known; exact asked
    | literal | unary | arith | logical | ifThen | ifElse => cases known
  · intro asked
    obtain ⟨named, natural, placed⟩ := asked
    intro node member
    obtain ⟨position, expr⟩ := node
    cases expr with
    | literal site value =>
        cases value with
        | int value => exact natural _ _ _ member
        | bool value => trivial
    | var | call => exact named _ (List.mem_filterMap.mpr ⟨_, member, rfl⟩)
    | logical => exact placed _ _ _ _ _ member
    | unary | arith | ifThen | ifElse => trivial

theorem nodes_accepted_iff_writable :
    (∀ node ∈ program.nodes, node.1.Accepts node.2) ↔
      (∀ function ∈ program.functions, function.body.Writable ∧ function.body.FitsAt .comparison) ∧
      ∀ stmt ∈ program.stmts, stmt.expr.Writable := by
  have part : Position.part.Matches .comparison := Position.matches_part (by decide)
  simp only [nodes, List.forall_mem_append, List.forall_mem_flatMap, Expr.nodes_accepted_iff,
    part.suits_iff, Position.suits_whole, and_true]

theorem names_accepted_iff :
    (∀ name ∈ program.names, IsName name) ↔
      (∀ function ∈ program.functions, IsName function.name ∧
        ∀ param ∈ function.params, IsName param.name) ∧
      (∀ stmt ∈ program.stmts, ∀ target ∈ stmt.target?, IsName target) ∧
      ∀ name ∈ program.nodes.filterMap (·.2.name?), IsName name := by
  have targets : (∀ name ∈ program.stmts.filterMap Stmt.target?, IsName name) ↔
      ∀ stmt ∈ program.stmts, ∀ target ∈ stmt.target?, IsName target := by
    simp only [List.mem_filterMap, Option.mem_def]
    exact ⟨fun all stmt listed target known => all target ⟨stmt, listed, known⟩,
      fun all target ⟨stmt, listed, known⟩ => all stmt listed target known⟩
  simp only [names, List.forall_mem_append, List.forall_mem_map, List.forall_mem_flatMap, targets,
    and_assoc, imp_and, forall_and]

theorem printable_iff_writable :
    program.Printable ↔ program.Writable ∧ program.body.emptyBlocks = 0 := by
  have blocks := program.body.blocks_accepted_iff
  constructor
  · intro printable
    have named : ∀ name ∈ program.names, IsName name := fun name listed =>
      isName_iff.mpr (printable.named name listed)
    obtain ⟨declared, targets, used⟩ := names_accepted_iff.mp named
    obtain ⟨bodies, exprs⟩ := nodes_accepted_iff_writable.mp
      (nodes_accepted_iff_clauses.mpr ⟨used, printable.natural, printable.placed⟩)
    have accepted : ∀ block ∈ program.body.blocks, block.Accepted := by
      intro block member
      refine ⟨printable.filled block member, fun stmt inside => ?_⟩
      have listed : stmt ∈ program.stmts := List.mem_flatMap.mpr ⟨block, member, inside⟩
      exact ⟨targets stmt listed, exprs stmt listed⟩
    obtain ⟨writable, filled⟩ := blocks.mp accepted
    refine ⟨⟨fun function listed => ?_, writable⟩, filled⟩
    obtain ⟨named, params⟩ := declared function listed
    obtain ⟨body, fits⟩ := bodies function listed
    exact ⟨named, params, body, fits⟩
  · intro written
    obtain ⟨writable, filled⟩ := written
    have accepted := blocks.mpr ⟨writable.body, filled⟩
    have stmts : ∀ stmt ∈ program.stmts, stmt.Accepted := by
      intro stmt listed
      obtain ⟨block, member, inside⟩ := List.mem_flatMap.mp listed
      exact (accepted block member).2 stmt inside
    have bodies : ∀ function ∈ program.functions,
        function.body.Writable ∧ function.body.FitsAt .comparison := fun function listed =>
      ⟨(writable.functions function listed).body, (writable.functions function listed).fits⟩
    have nodes := nodes_accepted_iff_writable.mpr ⟨bodies, fun stmt listed => (stmts stmt listed).2⟩
    obtain ⟨used, natural, placed⟩ := nodes_accepted_iff_clauses.mp nodes
    have declared : ∀ function ∈ program.functions, IsName function.name ∧
        ∀ param ∈ function.params, IsName param.name := fun function listed =>
      ⟨(writable.functions function listed).named, (writable.functions function listed).params⟩
    have named := names_accepted_iff.mpr
      ⟨declared, fun stmt listed => (stmts stmt listed).1, used⟩
    exact ⟨fun name listed => isName_iff.mp (named name listed), natural,
      fun block member => (accepted block member).1, placed⟩

/-- A tree is written as a source text without problems that is read as the same tree, up to
places, if and only if it is printable. -/
theorem printable_iff_reads_back (program : Program) :
    ((Analysis.ofSource program.format).diagnostics = [] ∧
      ∃ again, (Analysis.ofSource program.format).parsed.program? = some again ∧
        again.unplaced = program.unplaced) ↔ program.Printable := by
  rw [printable_iff_writable]
  constructor
  · intro clean
    obtain ⟨silent, again, found, same⟩ := clean
    exact written_of_clean silent found same
  · intro written
    exact clean_format written.1 written.2

end Program

end Sipl
