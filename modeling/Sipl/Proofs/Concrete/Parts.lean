import Sipl.Proofs.Concrete.Shown
import Sipl.Proofs.Format.Printable

namespace Sipl

namespace Concrete

mutual

theorem Term.parts_infix (term : Term) : ∀ part ∈ term.parts, part.tokens <:+: term.tokens := by
  match term with
  | .literal _ _ | .var _ | .callEmpty _ _ _ =>
      exact List.forall_mem_singleton.mpr (List.infix_refl _)
  | .group opening inner closing =>
      refine List.forall_mem_cons.mpr ⟨List.infix_refl _, fun part member => ?_⟩
      have within : inner.tokens <:+: opening :: (inner.tokens ++ [closing]) :=
        ⟨[opening], [closing], rfl⟩
      exact (inner.parts_infix part member).trans within
  | .unary sign op operand =>
      refine List.forall_mem_cons.mpr ⟨List.infix_refl _, fun part member => ?_⟩
      exact (operand.parts_infix part member).trans (List.suffix_cons _ _).isInfix
  | .arith left sign op right =>
      refine List.forall_mem_cons.mpr ⟨List.infix_refl _, List.forall_mem_append.mpr
        ⟨fun part member => ?_, fun part member => ?_⟩⟩
      · exact (left.parts_infix part member).trans (List.prefix_append _ _).isInfix
      · exact (right.parts_infix part member).trans
          ((List.suffix_cons _ _).trans (List.suffix_append _ _)).isInfix
  | .logical left word op right =>
      refine List.forall_mem_cons.mpr ⟨List.infix_refl _, List.forall_mem_append.mpr
        ⟨fun part member => ?_, fun part member => ?_⟩⟩
      · exact (left.parts_infix part member).trans (List.prefix_append _ _).isInfix
      · exact (right.parts_infix part member).trans
          ((List.suffix_cons _ _).trans (List.suffix_append _ _)).isInfix
  | .ifThen ifWord cond thenWord thenBranch =>
      refine List.forall_mem_cons.mpr ⟨List.infix_refl _, List.forall_mem_append.mpr
        ⟨fun part member => ?_, fun part member => ?_⟩⟩
      · have within : cond.tokens <:+: ifWord :: (cond.tokens ++ thenWord :: thenBranch.tokens) :=
          ⟨[ifWord], thenWord :: thenBranch.tokens, rfl⟩
        exact (cond.parts_infix part member).trans within
      · have within :
            thenBranch.tokens <:+ ifWord :: (cond.tokens ++ thenWord :: thenBranch.tokens) :=
          ((List.suffix_cons _ _).trans (List.suffix_append _ _)).trans (List.suffix_cons _ _)
        exact (thenBranch.parts_infix part member).trans within.isInfix
  | .ifElse ifWord cond thenWord thenBranch elseWord elseBranch =>
      have branches : thenBranch.tokens ++ elseWord :: elseBranch.tokens <:+
          ifWord ::
            (cond.tokens ++ thenWord :: (thenBranch.tokens ++ elseWord :: elseBranch.tokens)) :=
        ((List.suffix_cons _ _).trans (List.suffix_append _ _)).trans (List.suffix_cons _ _)
      refine List.forall_mem_cons.mpr ⟨List.infix_refl _, List.forall_mem_append.mpr
        ⟨fun part member => ?_, List.forall_mem_append.mpr
          ⟨fun part member => ?_, fun part member => ?_⟩⟩⟩
      · have within : cond.tokens <:+: ifWord :: (cond.tokens ++ thenWord ::
            (thenBranch.tokens ++ elseWord :: elseBranch.tokens)) := ⟨[ifWord], _, rfl⟩
        exact (cond.parts_infix part member).trans within
      · exact (thenBranch.parts_infix part member).trans
          ((List.prefix_append _ _).isInfix.trans branches.isInfix)
      · have within := ((List.suffix_cons elseWord _).trans (List.suffix_append _ _)).trans branches
        exact (elseBranch.parts_infix part member).trans within.isInfix
  | .call name opening first others =>
      have args :
          first.tokens ++ others.tokens <:+ name :: opening :: (first.tokens ++ others.tokens) :=
        (List.suffix_cons _ _).trans (List.suffix_cons _ _)
      refine List.forall_mem_cons.mpr ⟨List.infix_refl _, List.forall_mem_append.mpr
        ⟨fun part member => ?_, fun part member => ?_⟩⟩
      · exact (first.parts_infix part member).trans
          ((List.prefix_append _ _).isInfix.trans args.isInfix)
      · exact (others.parts_infix part member).trans ((List.suffix_append _ _).trans args).isInfix

theorem Arguments.parts_infix (others : Arguments) :
    ∀ part ∈ others.parts, part.tokens <:+: others.tokens := by
  match others with
  | .closed _ => exact List.forall_mem_nil _
  | .next comma arg others =>
      refine List.forall_mem_append.mpr ⟨fun part member => ?_, fun part member => ?_⟩
      · have within : arg.tokens <:+: comma :: (arg.tokens ++ others.tokens) :=
          ⟨[comma], others.tokens, rfl⟩
        exact (arg.parts_infix part member).trans within
      · exact (others.parts_infix part member).trans
          ((List.suffix_append _ _).trans (List.suffix_cons _ _)).isInfix

end

mutual

theorem Statement.terms_infix (stmt : Statement) :
    ∀ term ∈ stmt.terms, term.tokens <:+: stmt.tokens := by
  match stmt with
  | .assign name assign value =>
      exact List.forall_mem_singleton.mpr
        ((List.suffix_cons _ _).trans (List.suffix_cons _ _)).isInfix
  | .ifThen ifWord cond thenWord thenBlock =>
      refine List.forall_mem_cons.mpr ⟨⟨[ifWord], _, rfl⟩, fun term member => ?_⟩
      exact (thenBlock.terms_infix term member).trans
        (((List.suffix_cons _ _).trans (List.suffix_append _ _)).trans
          (List.suffix_cons _ _)).isInfix
  | .ifElse ifWord cond thenWord thenBlock elseWord elseBlock =>
      have blocks : thenBlock.tokens ++ elseWord :: elseBlock.tokens <:+
          ifWord ::
            (cond.tokens ++ thenWord :: (thenBlock.tokens ++ elseWord :: elseBlock.tokens)) :=
        ((List.suffix_cons _ _).trans (List.suffix_append _ _)).trans (List.suffix_cons _ _)
      refine List.forall_mem_cons.mpr ⟨⟨[ifWord], _, rfl⟩, List.forall_mem_append.mpr
        ⟨fun term member => ?_, fun term member => ?_⟩⟩
      · exact (thenBlock.terms_infix term member).trans
          ((List.prefix_append _ _).isInfix.trans blocks.isInfix)
      · have within := ((List.suffix_cons elseWord _).trans (List.suffix_append _ _)).trans blocks
        exact (elseBlock.terms_infix term member).trans within.isInfix
  | .whileLoop whileWord cond doWord body =>
      refine List.forall_mem_cons.mpr ⟨⟨[whileWord], _, rfl⟩, fun term member => ?_⟩
      exact (body.terms_infix term member).trans
        (((List.suffix_cons _ _).trans (List.suffix_append _ _)).trans
          (List.suffix_cons _ _)).isInfix

theorem Block.terms_infix (block : Block) :
    ∀ term ∈ block.terms, term.tokens <:+: block.tokens := by
  match block with
  | .mk opening first others =>
      refine List.forall_mem_append.mpr ⟨fun term member => ?_, fun term member => ?_⟩
      · exact (first.terms_infix term member).trans ⟨[opening], others.tokens, rfl⟩
      · exact (others.terms_infix term member).trans
          ((List.suffix_append _ _).trans (List.suffix_cons _ _)).isInfix

theorem Statements.terms_infix (others : Statements) :
    ∀ term ∈ others.terms, term.tokens <:+: others.tokens := by
  match others with
  | .closed _ => exact List.forall_mem_nil _
  | .next semicolon stmt others =>
      refine List.forall_mem_append.mpr ⟨fun term member => ?_, fun term member => ?_⟩
      · exact (stmt.terms_infix term member).trans ⟨[semicolon], others.tokens, rfl⟩
      · exact (others.terms_infix term member).trans
          ((List.suffix_append _ _).trans (List.suffix_cons _ _)).isInfix

end

theorem Declaration.body_suffix (declaration : Declaration) :
    declaration.body.tokens <:+ declaration.tokens :=
  ⟨declaration.word :: declaration.name :: declaration.opening ::
    (declaration.params.tokens ++ [declaration.eq]), by simp [tokens]⟩

theorem Declarations.terms_infix (declarations : Declarations) :
    ∀ term ∈ declarations.terms, term.tokens <:+: declarations.tokens := by
  induction declarations with
  | none => exact List.forall_mem_nil _
  | last one => exact List.forall_mem_singleton.mpr one.body_suffix.isInfix
  | more one semicolon others ih =>
      refine List.forall_mem_cons.mpr ⟨?_, fun term member => ?_⟩
      · exact one.body_suffix.isInfix.trans (List.prefix_append _ _).isInfix
      · exact (ih term member).trans
          ((List.suffix_cons _ _).trans (List.suffix_append _ _)).isInfix

/-- The parts of all expressions of a program. -/
def Program.parts (program : Program) : List Term := program.terms.flatMap Term.parts

theorem Program.parts_infix (program : Program) :
    ∀ part ∈ program.parts, part.tokens <:+: program.tokens := by
  intro part member
  obtain ⟨term, listed, inside⟩ := List.mem_flatMap.mp member
  refine (term.parts_infix part inside).trans ?_
  rcases List.mem_append.mp listed with declared | inBody
  · exact (program.declarations.terms_infix term declared).trans ⟨[program.word], _, rfl⟩
  · exact (program.body.terms_infix term inBody).trans
      ((List.suffix_append _ _).trans (List.suffix_cons _ _)).isInfix

theorem Program.parts_formed {program : Program} (formed : program.Formed) :
    ∀ part ∈ program.parts, part.Formed := by
  intro part member
  obtain ⟨term, listed, inside⟩ := List.mem_flatMap.mp member
  exact term.parts_formed (Program.terms_formed formed term listed) part inside

/-- The expression is the tree of a part that is a node. -/
def NodeOf (parts : List Term) (expr : Expr) : Prop :=
  ∃ part ∈ parts, part.isGroup = false ∧ part.tree = expr

theorem NodeOf.mono {parts more : List Term} {expr : Expr} (node : NodeOf parts expr)
    (within : parts ⊆ more) : NodeOf more expr := by
  obtain ⟨part, member, rest⟩ := node
  exact ⟨part, within member, rest⟩

mutual

theorem Term.node_of (term : Term) (position : Position) :
    ∀ node ∈ term.tree.nodes position, NodeOf term.parts node.2 := by
  match term with
  | .literal _ _ | .var _ | .callEmpty _ _ _ =>
      exact List.forall_mem_singleton.mpr ⟨_, List.mem_singleton_self _, rfl, rfl⟩
  | .group opening inner closing =>
      intro node member
      exact (inner.node_of position node member).mono (List.subset_cons_self _ _)
  | .unary sign op operand =>
      refine List.forall_mem_cons.mpr ⟨⟨_, List.mem_cons_self, rfl, rfl⟩, fun node member => ?_⟩
      exact (operand.node_of _ node member).mono (List.subset_cons_self _ _)
  | .arith left sign op right =>
      refine List.forall_mem_cons.mpr ⟨⟨_, List.mem_cons_self, rfl, rfl⟩, List.forall_mem_append.mpr
        ⟨fun node member => ?_, fun node member => ?_⟩⟩
      · exact (left.node_of _ node member).mono (by simp [Term.parts])
      · exact (right.node_of _ node member).mono (by simp [Term.parts])
  | .logical left word op right =>
      refine List.forall_mem_cons.mpr ⟨⟨_, List.mem_cons_self, rfl, rfl⟩, List.forall_mem_append.mpr
        ⟨fun node member => ?_, fun node member => ?_⟩⟩
      · exact (left.node_of _ node member).mono (by simp [Term.parts])
      · exact (right.node_of _ node member).mono (by simp [Term.parts])
  | .ifThen ifWord cond thenWord thenBranch =>
      refine List.forall_mem_cons.mpr ⟨⟨_, List.mem_cons_self, rfl, rfl⟩, List.forall_mem_append.mpr
        ⟨fun node member => ?_, fun node member => ?_⟩⟩
      · exact (cond.node_of _ node member).mono (by simp [Term.parts])
      · exact (thenBranch.node_of _ node member).mono (by simp [Term.parts])
  | .ifElse ifWord cond thenWord thenBranch elseWord elseBranch =>
      refine List.forall_mem_cons.mpr ⟨⟨_, List.mem_cons_self, rfl, rfl⟩, List.forall_mem_append.mpr
        ⟨fun node member => ?_, List.forall_mem_append.mpr
          ⟨fun node member => ?_, fun node member => ?_⟩⟩⟩
      · exact (cond.node_of _ node member).mono (by simp [Term.parts])
      · exact (thenBranch.node_of _ node member).mono (List.subset_cons_of_subset _
          (List.subset_append_of_subset_right _ (List.subset_append_left _ _)))
      · exact (elseBranch.node_of _ node member).mono (List.subset_cons_of_subset _
          (List.subset_append_of_subset_right _ (List.subset_append_right _ _)))
  | .call name opening first others =>
      refine List.forall_mem_cons.mpr ⟨⟨_, List.mem_cons_self, rfl, rfl⟩, List.forall_mem_append.mpr
        ⟨fun node member => ?_, fun node member => ?_⟩⟩
      · exact (first.node_of _ node member).mono (by simp [Term.parts])
      · exact (others.node_of node member).mono (by simp [Term.parts])

theorem Arguments.node_of (others : Arguments) :
    ∀ node ∈ Expr.argsNodes others.trees, NodeOf others.parts node.2 := by
  match others with
  | .closed _ => exact List.forall_mem_nil _
  | .next comma arg others =>
      refine List.forall_mem_append.mpr ⟨fun node member => ?_, fun node member => ?_⟩
      · exact (arg.node_of _ node member).mono (by simp [Arguments.parts])
      · exact (others.node_of node member).mono (by simp [Arguments.parts])

end

/-- The expression of a statement is the tree of one of the terms. -/
def HeldBy (terms : List Term) (stmt : Stmt) : Prop := ∃ term ∈ terms, term.tree = stmt.expr

theorem HeldBy.mono {terms more : List Term} {stmt : Stmt} (held : HeldBy terms stmt)
    (within : terms ⊆ more) : HeldBy more stmt := by
  obtain ⟨term, member, same⟩ := held
  exact ⟨term, within member, same⟩

mutual

theorem Statement.held (stmt : Statement) :
    HeldBy stmt.terms stmt.tree ∧
      ∀ inner ∈ stmt.tree.blocks.flatMap Block.stmts, HeldBy stmt.terms inner := by
  match stmt with
  | .assign name assign value =>
      exact ⟨⟨value, List.mem_singleton_self _, rfl⟩, List.forall_mem_nil _⟩
  | .ifThen ifWord cond thenWord thenBlock =>
      refine ⟨⟨cond, List.mem_cons_self, rfl⟩, fun inner member => ?_⟩
      exact (thenBlock.held inner member).mono (List.subset_cons_self _ _)
  | .ifElse ifWord cond thenWord thenBlock elseWord elseBlock =>
      refine ⟨⟨cond, List.mem_cons_self, rfl⟩, fun inner member => ?_⟩
      rw [Statement.tree, Stmt.blocks, List.flatMap_append] at member
      rcases List.mem_append.mp member with first | second
      · exact (thenBlock.held inner first).mono (by simp [Statement.terms])
      · exact (elseBlock.held inner second).mono (by simp [Statement.terms])
  | .whileLoop whileWord cond doWord body =>
      refine ⟨⟨cond, List.mem_cons_self, rfl⟩, fun inner member => ?_⟩
      exact (body.held inner member).mono (List.subset_cons_self _ _)

theorem Block.held (block : Block) :
    ∀ inner ∈ block.tree.blocks.flatMap Sipl.Block.stmts, HeldBy block.terms inner := by
  match block with
  | .mk opening first others =>
      have own := first.held
      have rest := others.held
      rw [Block.tree, Sipl.Block.blocks, List.flatMap_cons, Sipl.Block.stmts, stmtsBlocks,
        List.flatMap_append]
      refine List.forall_mem_append.mpr ⟨List.forall_mem_cons.mpr ⟨?_, ?_⟩,
        List.forall_mem_append.mpr ⟨?_, ?_⟩⟩
      · exact own.1.mono (by simp [Block.terms])
      · exact fun inner member => (rest.1 inner member).mono (by simp [Block.terms])
      · exact fun inner member => (own.2 inner member).mono (by simp [Block.terms])
      · exact fun inner member => (rest.2 inner member).mono (by simp [Block.terms])

theorem Statements.held (others : Statements) :
    (∀ stmt ∈ others.trees, HeldBy others.terms stmt) ∧
      ∀ inner ∈ (stmtsBlocks others.trees).flatMap Sipl.Block.stmts, HeldBy others.terms inner := by
  match others with
  | .closed _ => exact ⟨List.forall_mem_nil _, List.forall_mem_nil _⟩
  | .next semicolon stmt others =>
      have own := stmt.held
      have rest := others.held
      rw [Statements.trees, stmtsBlocks, List.flatMap_append]
      refine ⟨List.forall_mem_cons.mpr ⟨?_, ?_⟩, List.forall_mem_append.mpr ⟨?_, ?_⟩⟩
      · exact own.1.mono (by simp [Statements.terms])
      · exact fun inner member => (rest.1 inner member).mono (by simp [Statements.terms])
      · exact fun inner member => (own.2 inner member).mono (by simp [Statements.terms])
      · exact fun inner member => (rest.2 inner member).mono (by simp [Statements.terms])

end

theorem Declarations.held (declarations : Declarations) :
    ∀ function ∈ declarations.trees, ∃ term ∈ declarations.terms, term.tree = function.body := by
  induction declarations with
  | none => exact List.forall_mem_nil _
  | last one => exact List.forall_mem_singleton.mpr ⟨one.body, List.mem_singleton_self _, rfl⟩
  | more one semicolon others ih =>
      refine List.forall_mem_cons.mpr
        ⟨⟨one.body, List.mem_cons_self, rfl⟩, fun function member => ?_⟩
      obtain ⟨term, listed, same⟩ := ih function member
      exact ⟨term, List.mem_cons_of_mem _ listed, same⟩

/-- Every expression node of a program is the tree of a part. -/
theorem Program.node_of (program : Program) :
    ∀ node ∈ program.tree.nodes, NodeOf program.parts node.2 := by
  have parts {term : Term} (listed : term ∈ program.terms) : term.parts ⊆ program.parts :=
    fun part member => List.mem_flatMap.mpr ⟨term, listed, member⟩
  refine List.forall_mem_append.mpr ⟨fun node member => ?_, fun node member => ?_⟩
  · obtain ⟨function, declared, inside⟩ := List.mem_flatMap.mp member
    obtain ⟨term, listed, same⟩ := program.declarations.held function declared
    rw [← same] at inside
    exact (term.node_of _ node inside).mono (parts (List.mem_append_left _ listed))
  · obtain ⟨stmt, stands, inside⟩ := List.mem_flatMap.mp member
    obtain ⟨term, listed, same⟩ := program.body.held stmt stands
    rw [← same] at inside
    exact (term.node_of _ node inside).mono (parts (List.mem_append_right _ listed))

end Concrete

end Sipl
