import Sipl.Proofs.Concrete.Attachment

namespace Sipl

namespace Concrete

mutual

/-- A term and all terms in it. -/
def Term.parts : Term → List Term
  | .literal token value => [.literal token value]
  | .var name => [.var name]
  | .group opening inner closing => .group opening inner closing :: inner.parts
  | .unary sign op operand => .unary sign op operand :: operand.parts
  | .arith left sign op right => .arith left sign op right :: (left.parts ++ right.parts)
  | .logical left word op right => .logical left word op right :: (left.parts ++ right.parts)
  | .ifThen ifWord cond thenWord thenBranch =>
    .ifThen ifWord cond thenWord thenBranch :: (cond.parts ++ thenBranch.parts)
  | .ifElse ifWord cond thenWord thenBranch elseWord elseBranch =>
    .ifElse ifWord cond thenWord thenBranch elseWord elseBranch ::
      (cond.parts ++ (thenBranch.parts ++ elseBranch.parts))
  | .callEmpty name opening closing => [.callEmpty name opening closing]
  | .call name opening first others =>
    .call name opening first others :: (first.parts ++ others.parts)

def Arguments.parts : Arguments → List Term
  | .closed _ => []
  | .next _ arg others => arg.parts ++ others.parts

end

mutual

theorem Term.parts_formed (term : Term) (formed : term.Formed) :
    ∀ part ∈ term.parts, part.Formed := by
  match term with
  | .literal _ _ | .var _ | .callEmpty _ _ _ => exact List.forall_mem_singleton.mpr formed
  | .group opening inner closing =>
      exact List.forall_mem_cons.mpr ⟨formed, inner.parts_formed formed.2.2.1⟩
  | .unary sign op operand =>
      exact List.forall_mem_cons.mpr ⟨formed, operand.parts_formed formed.2.1⟩
  | .arith left sign op right =>
      obtain ⟨_, ⟨first, _⟩, ⟨second, _⟩, _⟩ := id formed
      exact List.forall_mem_cons.mpr ⟨formed,
        List.forall_mem_append.mpr ⟨left.parts_formed first, right.parts_formed second⟩⟩
  | .logical left word op right =>
      obtain ⟨_, ⟨first, _⟩, second, _⟩ := id formed
      exact List.forall_mem_cons.mpr ⟨formed,
        List.forall_mem_append.mpr ⟨left.parts_formed first, right.parts_formed second⟩⟩
  | .ifThen ifWord cond thenWord thenBranch =>
      obtain ⟨_, condition, _, branch, _⟩ := id formed
      exact List.forall_mem_cons.mpr ⟨formed,
        List.forall_mem_append.mpr ⟨cond.parts_formed condition, thenBranch.parts_formed branch⟩⟩
  | .ifElse ifWord cond thenWord thenBranch elseWord elseBranch =>
      obtain ⟨_, condition, _, ⟨first, _⟩, _, ⟨second, _⟩, _⟩ := id formed
      have branches := List.forall_mem_append.mpr
        ⟨thenBranch.parts_formed first, elseBranch.parts_formed second⟩
      exact List.forall_mem_cons.mpr ⟨formed,
        List.forall_mem_append.mpr ⟨cond.parts_formed condition, branches⟩⟩
  | .call name opening first others =>
      obtain ⟨_, _, ⟨inside, _⟩, rest⟩ := id formed
      exact List.forall_mem_cons.mpr ⟨formed,
        List.forall_mem_append.mpr ⟨first.parts_formed inside, others.parts_formed rest⟩⟩

theorem Arguments.parts_formed (others : Arguments) (formed : others.Formed) :
    ∀ part ∈ others.parts, part.Formed := by
  match others with
  | .closed _ => exact List.forall_mem_nil _
  | .next comma arg others =>
      obtain ⟨_, ⟨inside, _⟩, rest⟩ := formed
      exact List.forall_mem_append.mpr ⟨arg.parts_formed inside, others.parts_formed rest⟩

end

/-- A term that is not in parentheses and whose outermost operator is of the strength. -/
def Term.IsArith (strength : ArithOp → Bool) (term : Term) : Prop :=
  ∃ left sign op right, term = .arith left sign op right ∧ strength op = true

def Term.IsLogical (op : LogicalOp) (term : Term) : Prop :=
  ∃ left word right, term = .logical left word op right

/-- Without parentheses `+` and `-`, `and`, and `or` are no right operands of their like, and `*`
and `/` are no left ones. -/
def Term.ChainNests : Term → Prop
  | .arith left _ op right =>
    (op.isAdditive = true → ¬ right.IsArith ArithOp.isAdditive) ∧
      (op.isMultiplicative = true → ¬ left.IsArith ArithOp.isMultiplicative)
  | .logical _ _ op right => ¬ right.IsLogical op
  | _ => True

theorem Term.chainNests {term : Term} (formed : term.Formed) : term.ChainNests := by
  match term with
  | .literal _ _ | .var _ | .group _ _ _ | .unary _ _ _ | .ifThen _ _ _ _ | .ifElse _ _ _ _ _ _
  | .callEmpty _ _ _ | .call _ _ _ _ => exact trivial
  | .arith left sign op right =>
      obtain ⟨_, ⟨_, tightLeft⟩, ⟨_, tightRight⟩, _⟩ := formed
      constructor
      · rintro adds ⟨_, _, inner, _, rfl, also⟩
        have outerLevel := (levels_of_strength op).2.1 adds
        have innerLevel := (levels_of_strength inner).2.1 also
        rw [Term.Tight, outerLevel.1, Term.precedence, innerLevel.2] at tightRight
        exact absurd tightRight (by decide)
      · rintro multiplies ⟨_, _, inner, _, rfl, also⟩
        have outerLevel := (levels_of_strength op).2.2 multiplies
        have innerLevel := (levels_of_strength inner).2.2 also
        rw [Term.Tight, outerLevel.1, Term.precedence, innerLevel.2] at tightLeft
        exact absurd tightLeft (by decide)
  | .logical left word op right =>
      obtain ⟨_, _, _, tight⟩ := formed
      rintro ⟨_, _, _, rfl⟩
      rw [Term.Tight, Term.precedence] at tight
      cases op <;> exact absurd tight (by decide)

mutual

/-- The expressions of a statement that are not in another one. -/
def Statement.terms : Statement → List Term
  | .assign _ _ value => [value]
  | .ifThen _ cond _ thenBlock => cond :: thenBlock.terms
  | .ifElse _ cond _ thenBlock _ elseBlock => cond :: (thenBlock.terms ++ elseBlock.terms)
  | .whileLoop _ cond _ body => cond :: body.terms

def Block.terms : Block → List Term
  | .mk _ first others => first.terms ++ others.terms

def Statements.terms : Statements → List Term
  | .closed _ => []
  | .next _ stmt others => stmt.terms ++ others.terms

end

def Declarations.terms : Declarations → List Term
  | none => []
  | last one => [one.body]
  | more one _ others => one.body :: others.terms

def Program.terms (program : Program) : List Term :=
  program.declarations.terms ++ program.body.terms

mutual

theorem Statement.terms_formed (stmt : Statement) (formed : stmt.Formed) :
    ∀ term ∈ stmt.terms, term.Formed := by
  match stmt with
  | .assign _ _ value => exact List.forall_mem_singleton.mpr formed.2.2
  | .ifThen _ cond _ thenBlock =>
      obtain ⟨_, condition, _, inside⟩ := formed
      exact List.forall_mem_cons.mpr ⟨condition, thenBlock.terms_formed inside⟩
  | .ifElse _ cond _ thenBlock _ elseBlock =>
      obtain ⟨_, condition, _, first, _, second⟩ := formed
      exact List.forall_mem_cons.mpr ⟨condition,
        List.forall_mem_append.mpr ⟨thenBlock.terms_formed first, elseBlock.terms_formed second⟩⟩
  | .whileLoop _ cond _ body =>
      obtain ⟨_, condition, _, inside⟩ := formed
      exact List.forall_mem_cons.mpr ⟨condition, body.terms_formed inside⟩

theorem Block.terms_formed (block : Block) (formed : block.Formed) :
    ∀ term ∈ block.terms, term.Formed := by
  match block with
  | .mk _ first others =>
      exact List.forall_mem_append.mpr
        ⟨first.terms_formed formed.2.1, others.terms_formed formed.2.2⟩

theorem Statements.terms_formed (others : Statements) (formed : others.Formed) :
    ∀ term ∈ others.terms, term.Formed := by
  match others with
  | .closed _ => exact List.forall_mem_nil _
  | .next _ stmt others =>
      exact List.forall_mem_append.mpr
        ⟨stmt.terms_formed formed.2.1, others.terms_formed formed.2.2⟩

end

theorem Declarations.terms_formed (declarations : Declarations) (formed : declarations.Formed) :
    ∀ term ∈ declarations.terms, term.Formed := by
  match declarations with
  | .none => exact List.forall_mem_nil _
  | .last one => exact List.forall_mem_singleton.mpr (Declaration.Formed.body formed)
  | .more one _ others =>
      exact List.forall_mem_cons.mpr ⟨formed.1.body, others.terms_formed formed.2.2⟩

theorem Program.terms_formed {program : Program} (formed : program.Formed) :
    ∀ term ∈ program.terms, term.Formed :=
  List.forall_mem_append.mpr
    ⟨program.declarations.terms_formed formed.declarations, program.body.terms_formed formed.body⟩

/-- The tokens of a stream in front of its first end marker. -/
def beforeEnd (tokens : List Token) : List Token :=
  tokens.takeWhile fun token => token.kind != .eof

theorem beforeEnd_eq {start stop : Cursor} {tokens : List Token} (passes : start.Passes tokens stop)
    (ended : stop.kind = .eof) : beforeEnd start.upcoming = tokens := by
  have marked : (stop.current.kind != Kind.eof) = false := by
    rw [show stop.current.kind = .eof from ended]
    rfl
  rw [beforeEnd, passes.upcoming, List.takeWhile_append_of_pos, Cursor.upcoming,
    List.takeWhile_cons_of_neg (by simp [marked]), List.append_nil]
  exact fun token member => bne_iff_ne.mpr (passes.inside token member)

/-- A stream and what it is read as: the tokens in front of the end, those apart that leave nothing
behind, say what the tree says in the same order; each `else` belongs to the nearest `if` that waits
for it; and chains of operators nest as they should. -/
structure Keeps (tokens : List Token) (program : Sipl.Program) : Prop where
  written : List.Forall₂ Token.Says (essential (beforeEnd tokens)) program.atoms
  nested : ∃ source : Program, source.tree = program ∧ source.tokens = beforeEnd tokens ∧
    source.Formed ∧
    ∀ term ∈ source.terms, nearestIfs [] term.tokens = term.attachments ∧
      ∀ part ∈ term.parts, part.ChainNests

/-- Reading without an error keeps all tokens of a stream, in their order. -/
theorem reading_keeps_tokens (tokens : List Token) (closed : Token.Closed tokens)
    (clean : (Parsed.ofTokens tokens closed).errors = []) :
    ∃ program, (Parsed.ofTokens tokens closed).program? = some program ∧ Keeps tokens program := by
  obtain ⟨source, stop, found, formed, passes, ended⟩ := exists_program clean
  have whole := beforeEnd_eq passes ended
  rw [Parsed.upcoming_start] at whole
  refine ⟨source.tree, found, ?_, source, rfl, whole.symm, formed, fun term member => ?_⟩
  · rw [whole]
    exact Program.kept formed
  · have termFormed := Program.terms_formed formed term member
    exact ⟨Term.nearestIfs_eq termFormed,
      fun part inside => Term.chainNests (term.parts_formed termFormed part inside)⟩

/-- The tokens of `program begin x := if p then if a then b = c = d else e end`. -/
def comparedTokens : List Token :=
  [⟨.programWord, "program", ⟨1, ⟨0, 7⟩⟩, none⟩, ⟨.beginWord, "begin", ⟨1, ⟨8, 13⟩⟩, none⟩,
    ⟨.ident, "x", ⟨1, ⟨14, 15⟩⟩, none⟩, ⟨.assign, ":=", ⟨1, ⟨16, 18⟩⟩, none⟩,
    ⟨.ifWord, "if", ⟨1, ⟨19, 21⟩⟩, none⟩, ⟨.ident, "p", ⟨1, ⟨22, 23⟩⟩, none⟩,
    ⟨.thenWord, "then", ⟨1, ⟨24, 28⟩⟩, none⟩, ⟨.ifWord, "if", ⟨1, ⟨29, 31⟩⟩, none⟩,
    ⟨.ident, "a", ⟨1, ⟨32, 33⟩⟩, none⟩, ⟨.thenWord, "then", ⟨1, ⟨34, 38⟩⟩, none⟩,
    ⟨.ident, "b", ⟨1, ⟨39, 40⟩⟩, none⟩, ⟨.eq, "=", ⟨1, ⟨41, 42⟩⟩, none⟩,
    ⟨.ident, "c", ⟨1, ⟨43, 44⟩⟩, none⟩, ⟨.eq, "=", ⟨1, ⟨45, 46⟩⟩, none⟩,
    ⟨.ident, "d", ⟨1, ⟨47, 48⟩⟩, none⟩, ⟨.elseWord, "else", ⟨1, ⟨49, 53⟩⟩, none⟩,
    ⟨.ident, "e", ⟨1, ⟨54, 55⟩⟩, none⟩, ⟨.endWord, "end", ⟨1, ⟨56, 59⟩⟩, none⟩,
    ⟨.eof, "", ⟨1, ⟨59, 59⟩⟩, none⟩]

theorem reading_keeps_tokens_of_compared :
    (Parsed.ofTokens comparedTokens (by decide)).errors = [] ∧
      ∃ program, (Parsed.ofTokens comparedTokens (by decide)).program? = some program ∧
        Keeps comparedTokens program := by
  have clean : (Parsed.ofTokens comparedTokens (by decide)).errors = [] := by cbv
  exact ⟨clean, reading_keeps_tokens comparedTokens (by decide) clean⟩

/-- The nearest `if` in front of an `else` need not be its own, though there is neither a
parenthesis nor a comma nor another `else`: a second comparison operator ends the branch. -/
theorem else_passes_compared_branch :
    (∀ token ∈ comparedTokens, token.kind ∉ [.leftParen, .rightParen, .comma]) ∧
      (comparedTokens.filter fun token => token.kind == .elseWord).length = 1 ∧
      ((comparedTokens.takeWhile fun token => token.kind != .elseWord).filter
        fun token => token.kind == .ifWord).getLast? = some ⟨.ifWord, "if", ⟨1, ⟨29, 31⟩⟩, none⟩ ∧
      (Parsed.ofTokens comparedTokens (by decide)).errors = [] ∧
      (Parsed.ofTokens comparedTokens (by decide)).program? =
        some ⟨[], .mk ⟨8, 59⟩ [.assign ⟨1, ⟨14, 55⟩⟩ "x"
          (.ifElse ⟨1, ⟨19, 55⟩⟩ (.var ⟨1, ⟨22, 23⟩⟩ "p")
            (.arith ⟨1, ⟨29, 48⟩⟩ .eq
              (.ifThen ⟨1, ⟨29, 44⟩⟩ (.var ⟨1, ⟨32, 33⟩⟩ "a")
                (.arith ⟨1, ⟨39, 44⟩⟩ .eq (.var ⟨1, ⟨39, 40⟩⟩ "b") (.var ⟨1, ⟨43, 44⟩⟩ "c")))
              (.var ⟨1, ⟨47, 48⟩⟩ "d"))
            (.var ⟨1, ⟨54, 55⟩⟩ "e"))]⟩ :=
  ⟨by decide, by decide, by decide, by cbv, by cbv⟩

end Concrete

end Sipl
