import Sipl.Proofs.Format.Writable
import Sipl.Proofs.Reader.Passes

namespace Sipl

namespace Concrete

mutual

inductive Term where
  | literal (token : Token) (value : Literal)
  | var (name : Token)
  | group (opening : Token) (inner : Term) (closing : Token)
  | unary (sign : Token) (op : UnaryOp) (operand : Term)
  | arith (left : Term) (sign : Token) (op : ArithOp) (right : Term)
  | logical (left : Term) (word : Token) (op : LogicalOp) (right : Term)
  | ifThen (ifWord : Token) (cond : Term) (thenWord : Token) (thenBranch : Term)
  | ifElse (ifWord : Token) (cond : Term) (thenWord : Token) (thenBranch : Term)
      (elseWord : Token) (elseBranch : Term)
  | callEmpty (name opening closing : Token)
  | call (name opening : Token) (first : Term) (others : Arguments)

/-- What stands behind an argument of a call. -/
inductive Arguments where
  | closed (closing : Token)
  | next (comma : Token) (arg : Term) (others : Arguments)

end

mutual

def Term.tokens : Term → List Token
  | .literal token _ => [token]
  | .var name => [name]
  | .group opening inner closing => opening :: (inner.tokens ++ [closing])
  | .unary sign _ operand => sign :: operand.tokens
  | .arith left sign _ right => left.tokens ++ sign :: right.tokens
  | .logical left word _ right => left.tokens ++ word :: right.tokens
  | .ifThen ifWord cond thenWord thenBranch =>
    ifWord :: (cond.tokens ++ thenWord :: thenBranch.tokens)
  | .ifElse ifWord cond thenWord thenBranch elseWord elseBranch =>
    ifWord :: (cond.tokens ++ thenWord :: (thenBranch.tokens ++ elseWord :: elseBranch.tokens))
  | .callEmpty name opening closing => [name, opening, closing]
  | .call name opening first others => name :: opening :: (first.tokens ++ others.tokens)

def Arguments.tokens : Arguments → List Token
  | .closed closing => [closing]
  | .next comma arg others => comma :: (arg.tokens ++ others.tokens)

end

def Arguments.last : Arguments → Token
  | .closed closing => closing
  | .next _ _ others => others.last

def Term.last : Term → Token
  | .literal token _ => token
  | .var name => name
  | .group _ _ closing => closing
  | .unary _ _ operand => operand.last
  | .arith _ _ _ right => right.last
  | .logical _ _ _ right => right.last
  | .ifThen _ _ _ thenBranch => thenBranch.last
  | .ifElse _ _ _ _ _ elseBranch => elseBranch.last
  | .callEmpty _ _ closing => closing
  | .call _ _ _ others => others.last

/-- A node that was written from one token to another. -/
def siteBetween (first last : Token) : Site :=
  ⟨first.site.line, first.site.span.merge last.site.span⟩

mutual

/-- What the reader makes of a term. -/
def Term.tree : Term → Expr
  | .literal token value => .literal token.site value
  | .var name => .var name.site name.lexeme
  | .group _ inner _ => inner.tree
  | .unary sign op operand =>
    .unary ⟨sign.site.line, sign.site.span.merge operand.tree.span⟩ op operand.tree
  | .arith left sign op right =>
    .arith (Reader.joinedSite sign left.tree right.tree) op left.tree right.tree
  | .logical left word op right =>
    .logical (Reader.joinedSite word left.tree right.tree) op left.tree right.tree
  | .ifThen ifWord cond _ thenBranch =>
    .ifThen (siteBetween ifWord thenBranch.last) cond.tree thenBranch.tree
  | .ifElse ifWord cond _ thenBranch _ elseBranch =>
    .ifElse (siteBetween ifWord elseBranch.last) cond.tree thenBranch.tree elseBranch.tree
  | .callEmpty name _ closing => .call (siteBetween name closing) name.lexeme []
  | .call name _ first others =>
    .call (siteBetween name others.last) name.lexeme (first.tree :: others.trees)

def Arguments.trees : Arguments → List Expr
  | .closed _ => []
  | .next _ arg others => arg.tree :: others.trees

end

/-- How tightly the outermost construct of a term binds. -/
def Term.precedence : Term → Precedence
  | .unary _ _ _ => .unary
  | .arith _ _ op _ => op.precedence
  | .logical _ _ op _ => op.precedence
  | _ => .primary

/-- A term can stand where what stands there has to bind as tightly as the level. -/
def Term.Tight (minimum : Precedence) (term : Term) : Prop :=
  minimum.rank ≤ term.precedence.rank

/-- A term holds a comparison operator of its own. -/
def Term.compares (term : Term) : Bool := term.precedence == .comparison

/-- Behind the term, which is a branch, an operator of the kind would become part of the branch.
Branches are comparisons, and those hold one comparison operator. -/
def Term.goesOn (term : Term) (kind : Kind) : Bool :=
  (ArithOp.ofKind? kind).any fun op => !op.isComparison || !term.compares

/-- Behind the term, a token of the kind would become part of what the term ends with. -/
def Term.absorbs : Term → Kind → Bool
  | .unary _ _ operand, kind => operand.absorbs kind
  | .arith _ _ _ right, kind => right.absorbs kind
  | .logical _ _ _ right, kind => right.absorbs kind
  | .ifThen _ _ _ thenBranch, kind =>
    kind == .elseWord || thenBranch.goesOn kind || thenBranch.absorbs kind
  | .ifElse _ _ _ _ _ elseBranch, kind => elseBranch.goesOn kind || elseBranch.absorbs kind
  | _, _ => false

mutual

/-- The tokens are of the kinds that the grammar asks for, operands bind tightly enough, and no
token behind a part would rather be part of it. -/
def Term.Formed : Term → Prop
  | .literal token value =>
    (token.kind = .number ∧ token.literal? = some value ∧ ∃ number, value = .int number) ∨
      (token.kind = .trueWord ∧ value = .bool true) ∨
      (token.kind = .falseWord ∧ value = .bool false)
  | .var name => name.kind = .ident
  | .group opening inner closing =>
    opening.kind = .leftParen ∧ closing.kind = .rightParen ∧ inner.Formed ∧ inner.Tight .comparison
  | .unary sign op operand =>
    UnaryOp.ofKind? sign.kind = some op ∧ operand.Formed ∧ operand.Tight .unary
  | .arith left sign op right =>
    ArithOp.ofKind? sign.kind = some op ∧ (left.Formed ∧ left.Tight op.operandPrecedence.1) ∧
      (right.Formed ∧ right.Tight op.operandPrecedence.2) ∧ left.absorbs sign.kind = false
  | .logical left word op right =>
    word.kind = op.kind ∧ (left.Formed ∧ left.Tight op.operandPrecedence.1) ∧
      (right.Formed ∧ right.Tight op.operandPrecedence.2)
  | .ifThen ifWord cond thenWord thenBranch =>
    ifWord.kind = .ifWord ∧ cond.Formed ∧ thenWord.kind = .thenWord ∧
      (thenBranch.Formed ∧ thenBranch.Tight .comparison)
  | .ifElse ifWord cond thenWord thenBranch elseWord elseBranch =>
    ifWord.kind = .ifWord ∧ cond.Formed ∧ thenWord.kind = .thenWord ∧
      (thenBranch.Formed ∧ thenBranch.Tight .comparison) ∧ elseWord.kind = .elseWord ∧
      (elseBranch.Formed ∧ elseBranch.Tight .comparison) ∧
      thenBranch.absorbs .elseWord = false
  | .callEmpty name opening closing =>
    name.kind = .ident ∧ opening.kind = .leftParen ∧ closing.kind = .rightParen
  | .call name opening first others =>
    name.kind = .ident ∧ opening.kind = .leftParen ∧ (first.Formed ∧ first.Tight .comparison) ∧
      others.Formed

def Arguments.Formed : Arguments → Prop
  | .closed closing => closing.kind = .rightParen
  | .next comma arg others =>
    comma.kind = .comma ∧ (arg.Formed ∧ arg.Tight .comparison) ∧ others.Formed

end

theorem Arguments.tokens_eq (others : Arguments) :
    ∃ front, others.tokens = front ++ [others.last] := by
  match others with
  | .closed closing => exact ⟨[], rfl⟩
  | .next comma arg others =>
      obtain ⟨front, same⟩ := others.tokens_eq
      exact ⟨comma :: (arg.tokens ++ front), by simp [tokens, last, same]⟩

theorem Term.tokens_eq (term : Term) : ∃ front, term.tokens = front ++ [term.last] := by
  match term with
  | .literal _ _ | .var _ => exact ⟨[], rfl⟩
  | .group opening inner closing => exact ⟨opening :: inner.tokens, rfl⟩
  | .unary sign op operand =>
      obtain ⟨front, same⟩ := operand.tokens_eq
      exact ⟨sign :: front, by simp [tokens, last, same]⟩
  | .arith left sign op right =>
      obtain ⟨front, same⟩ := right.tokens_eq
      exact ⟨left.tokens ++ sign :: front, by simp [tokens, last, same]⟩
  | .logical left word op right =>
      obtain ⟨front, same⟩ := right.tokens_eq
      exact ⟨left.tokens ++ word :: front, by simp [tokens, last, same]⟩
  | .ifThen ifWord cond thenWord thenBranch =>
      obtain ⟨front, same⟩ := thenBranch.tokens_eq
      exact ⟨ifWord :: (cond.tokens ++ thenWord :: front), by simp [tokens, last, same]⟩
  | .ifElse ifWord cond thenWord thenBranch elseWord elseBranch =>
      obtain ⟨front, same⟩ := elseBranch.tokens_eq
      exact ⟨ifWord :: (cond.tokens ++ thenWord :: (thenBranch.tokens ++ elseWord :: front)),
        by simp [tokens, last, same]⟩
  | .callEmpty name opening closing => exact ⟨[name, opening], rfl⟩
  | .call name opening first others =>
      obtain ⟨front, same⟩ := others.tokens_eq
      exact ⟨name :: opening :: (first.tokens ++ front), by simp [tokens, last, same]⟩

end Concrete

end Sipl
