import Sipl.Proofs.Concrete.WrittenBack
import Sipl.Proofs.Text.Brackets

namespace Sipl

def Kind.side : Kind → Side
  | .leftParen => .opening
  | .rightParen => .closing
  | _ => .inner

def Token.side (token : Token) : Side := token.kind.side

/-- The parentheses of some tokens are balanced. -/
abbrev Token.BalancedIn (tokens : List Token) : Prop := WellBracketed Token.side tokens

theorem Token.side_of_kind {token : Token} {kind : Kind} (same : token.kind = kind) :
    token.side = kind.side := by
  rw [side, same]

theorem ArithOp.side_of_known {kind : Kind} {op : ArithOp} (known : ofKind? kind = some op) :
    kind.side = .inner := by
  rw [eq_kind known]
  cases op <;> rfl

theorem UnaryOp.side_of_known {kind : Kind} {op : UnaryOp} (known : ofKind? kind = some op) :
    kind.side = .inner := by
  rw [eq_kind known]
  cases op <;> rfl

namespace Concrete

open Token

theorem balanced_token {token : Token} {kind : Kind} (same : token.kind = kind)
    (plain : kind.side = .inner := by rfl) : BalancedIn [token] :=
  .single (plain ▸ side_of_kind same)

/-- Behind a token that is no parenthesis. -/
theorem balanced_behind {token : Token} {kind : Kind} {tokens : List Token}
    (same : token.kind = kind) (rest : BalancedIn tokens)
    (plain : kind.side = .inner := by rfl) : BalancedIn (token :: tokens) :=
  rest.cons (plain ▸ side_of_kind same)

/-- Some tokens behind which one more parenthesis is closed than was opened. -/
def Closes (tokens : List Token) : Prop :=
  ∀ depth, depthBehind Token.side (depth + 1) tokens = some depth

theorem Closes.single {closing : Token} (closed : closing.kind = .rightParen) :
    Closes [closing] :=
  fun _ => depthBehind_closing (side_of_kind closed)

theorem Closes.behind {front back : List Token} (first : BalancedIn front) (closes : Closes back) :
    Closes (front ++ back) := by
  intro depth
  rw [depthBehind_append, first.depthBehind_eq]
  exact closes depth

theorem Closes.balanced {opening : Token} {tokens : List Token} (opened : opening.kind = .leftParen)
    (closes : Closes tokens) : BalancedIn (opening :: tokens) := by
  rw [BalancedIn, WellBracketed, depthBehind_opening (side_of_kind opened)]
  exact closes 0

mutual

theorem Term.balanced (term : Term) (formed : term.Formed) : BalancedIn term.tokens := by
  match term with
  | .literal token value =>
      rcases formed with ⟨same, _⟩ | ⟨same, _⟩ | ⟨same, _⟩
      · exact balanced_token same
      · exact balanced_token same
      · exact balanced_token same
  | .var name => exact balanced_token formed
  | .group opening inner closing =>
      obtain ⟨opened, closed, inside, _⟩ := formed
      exact ((Closes.single closed).behind (inner.balanced inside)).balanced opened
  | .unary sign op operand =>
      obtain ⟨known, inside, _⟩ := formed
      exact balanced_behind rfl (operand.balanced inside) (UnaryOp.side_of_known known)
  | .arith left sign op right =>
      obtain ⟨known, ⟨first, _⟩, ⟨second, _⟩, _⟩ := formed
      exact (left.balanced first).append
        (balanced_behind rfl (right.balanced second) (ArithOp.side_of_known known))
  | .logical left word op right =>
      obtain ⟨same, ⟨first, _⟩, second, _⟩ := formed
      exact (left.balanced first).append
        (balanced_behind same (right.balanced second) (by cases op <;> rfl))
  | .ifThen ifWord cond thenWord thenBranch =>
      obtain ⟨isIf, condition, isThen, inside, _⟩ := formed
      exact balanced_behind isIf ((cond.balanced condition).append
        (balanced_behind isThen (thenBranch.balanced inside)))
  | .ifElse ifWord cond thenWord thenBranch elseWord elseBranch =>
      obtain ⟨isIf, condition, isThen, ⟨first, _⟩, isElse, ⟨second, _⟩, _⟩ := formed
      have branches := (thenBranch.balanced first).append
        (balanced_behind isElse (elseBranch.balanced second))
      exact balanced_behind isIf ((cond.balanced condition).append
        (balanced_behind isThen branches))
  | .callEmpty name opening closing =>
      obtain ⟨named, opened, closed⟩ := formed
      exact balanced_behind named ((Closes.single closed).balanced opened)
  | .call name opening first others =>
      obtain ⟨named, opened, ⟨inside, _⟩, rest⟩ := formed
      have inner := (others.closes rest).behind (first.balanced inside)
      exact balanced_behind named (inner.balanced opened)

theorem Arguments.closes (others : Arguments) (formed : others.Formed) : Closes others.tokens := by
  match others with
  | .closed closing => exact .single formed
  | .next comma arg others =>
      obtain ⟨isComma, ⟨inside, _⟩, rest⟩ := formed
      exact (others.closes rest).behind (balanced_behind isComma (arg.balanced inside))

end

mutual

theorem Statement.balanced (stmt : Statement) (formed : stmt.Formed) :
    BalancedIn stmt.tokens := by
  match stmt with
  | .assign name assign value =>
      obtain ⟨named, assigned, inside⟩ := formed
      exact balanced_behind named (balanced_behind assigned (value.balanced inside))
  | .ifThen ifWord cond thenWord thenBlock =>
      obtain ⟨isIf, condition, isThen, inside⟩ := formed
      exact balanced_behind isIf ((cond.balanced condition).append
        (balanced_behind isThen (thenBlock.balanced inside)))
  | .ifElse ifWord cond thenWord thenBlock elseWord elseBlock =>
      obtain ⟨isIf, condition, isThen, first, isElse, second⟩ := formed
      have blocks := (thenBlock.balanced first).append
        (balanced_behind isElse (elseBlock.balanced second))
      exact balanced_behind isIf ((cond.balanced condition).append
        (balanced_behind isThen blocks))
  | .whileLoop whileWord cond doWord body =>
      obtain ⟨isWhile, condition, isDo, inside⟩ := formed
      exact balanced_behind isWhile ((cond.balanced condition).append
        (balanced_behind isDo (body.balanced inside)))

theorem Block.balanced (block : Block) (formed : block.Formed) : BalancedIn block.tokens := by
  match block with
  | .mk opening first others =>
      obtain ⟨begins, inside, rest⟩ := formed
      exact balanced_behind begins ((first.balanced inside).append (others.balanced rest))

theorem Statements.balanced (others : Statements) (formed : others.Formed) :
    BalancedIn others.tokens := by
  match others with
  | .closed closing => exact balanced_token formed
  | .next semicolon stmt others =>
      obtain ⟨separates, inside, rest⟩ := formed
      exact balanced_behind separates ((stmt.balanced inside).append (others.balanced rest))

end

theorem ParamsTail.closes (others : ParamsTail) (formed : others.Formed) :
    Closes others.tokens := by
  induction others with
  | closed closing => exact .single formed
  | next comma name others ih =>
      obtain ⟨isComma, named, rest⟩ := formed
      exact (ih rest).behind (balanced_behind isComma (balanced_token named))

theorem Params.closes (params : Params) (formed : params.Formed) : Closes params.tokens := by
  cases params with
  | none closing => exact .single formed
  | some name others => exact (others.closes formed.2).behind (balanced_token formed.1)

theorem Declaration.balanced {declaration : Declaration} (formed : declaration.Formed) :
    BalancedIn declaration.tokens := by
  have params := (declaration.params.closes formed.params).balanced formed.opening
  have body := balanced_behind formed.eq (declaration.body.balanced formed.body)
  exact balanced_behind formed.word (balanced_behind formed.name (params.append body))

theorem Declarations.balanced (declarations : Declarations) (formed : declarations.Formed) :
    BalancedIn declarations.tokens := by
  induction declarations with
  | none => exact .nil
  | last one => exact Declaration.balanced formed
  | more one semicolon others ih =>
      obtain ⟨first, separates, rest⟩ := formed
      exact (Declaration.balanced first).append (balanced_behind separates (ih rest))

theorem Program.balanced {program : Program} (formed : program.Formed) :
    BalancedIn program.tokens :=
  balanced_behind formed.word ((program.declarations.balanced formed.declarations).append
    (program.body.balanced formed.body))

end Concrete

end Sipl
