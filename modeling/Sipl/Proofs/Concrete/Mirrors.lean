import Sipl.Proofs.Concrete.Shown
import Sipl.Proofs.Format.Words

namespace Sipl

/-! How a term is built follows from its tree and from where the parentheses stand among its tokens:
what is told by their depths belongs to the one construct that it can belong to. -/

namespace Concrete

open Token

theorem inners_token {token : Token} {kind : Kind} (same : token.kind = kind)
    (plain : kind.side = .inner := by rfl) : inners Token.side [token] = 1 :=
  inners_inner (plain ▸ side_of_kind same)

mutual

theorem Term.inners_tokens (term : Term) (formed : term.Formed) :
    inners Token.side term.tokens = term.tree.size := by
  match term with
  | .literal token value =>
      rcases formed with ⟨same, _⟩ | ⟨same, _⟩ | ⟨same, _⟩
      · exact inners_token same
      · exact inners_token same
      · exact inners_token same
  | .var name => exact inners_token formed
  | .group opening inner closing =>
      obtain ⟨opened, closed, inside, _⟩ := formed
      rw [Term.tokens, inners_opening (side_of_kind opened), inners_append,
        inners_closing (side_of_kind closed), inner.inners_tokens inside]
      rfl
  | .unary sign op operand =>
      obtain ⟨known, inside, _⟩ := formed
      have plain : sign.side = .inner := UnaryOp.side_of_known known
      rw [Term.tokens, inners_inner plain, operand.inners_tokens inside]
      rfl
  | .arith left sign op right =>
      obtain ⟨known, ⟨first, _⟩, ⟨second, _⟩, _⟩ := formed
      have plain : sign.side = .inner := ArithOp.side_of_known known
      rw [Term.tokens, inners_append, inners_inner plain, left.inners_tokens first,
        right.inners_tokens second]
      rfl
  | .logical left word op right =>
      obtain ⟨same, ⟨first, _⟩, second, _⟩ := formed
      have plain : word.side = .inner := (side_of_kind same).trans (by cases op <;> rfl)
      rw [Term.tokens, inners_append, inners_inner plain, left.inners_tokens first,
        right.inners_tokens second]
      rfl
  | .ifThen ifWord cond thenWord thenBranch =>
      obtain ⟨isIf, condition, isThen, inside, _⟩ := formed
      rw [Term.tokens, inners_inner (side_of_kind isIf), inners_append,
        inners_inner (side_of_kind isThen), cond.inners_tokens condition,
        thenBranch.inners_tokens inside]
      rfl
  | .ifElse ifWord cond thenWord thenBranch elseWord elseBranch =>
      obtain ⟨isIf, condition, isThen, ⟨first, _⟩, isElse, ⟨second, _⟩, _⟩ := formed
      rw [Term.tokens, inners_inner (side_of_kind isIf), inners_append,
        inners_inner (side_of_kind isThen), inners_append, inners_inner (side_of_kind isElse),
        cond.inners_tokens condition, thenBranch.inners_tokens first,
        elseBranch.inners_tokens second]
      rfl
  | .callEmpty name opening closing =>
      obtain ⟨named, opened, closed⟩ := formed
      rw [Term.tokens, inners_inner (side_of_kind named), inners_opening (side_of_kind opened),
        inners_closing (side_of_kind closed)]
      rfl
  | .call name opening first others =>
      obtain ⟨named, opened, ⟨inside, _⟩, rest⟩ := formed
      rw [Term.tokens, inners_inner (side_of_kind named), inners_opening (side_of_kind opened),
        inners_append, first.inners_tokens inside, others.inners_tokens rest]
      rfl

theorem Arguments.inners_tokens (others : Arguments) (formed : others.Formed) :
    inners Token.side others.tokens = Expr.tailSize others.trees := by
  match others with
  | .closed closing =>
      rw [Arguments.tokens, inners_closing (side_of_kind formed)]
      rfl
  | .next comma arg others =>
      obtain ⟨isComma, ⟨inside, _⟩, rest⟩ := formed
      rw [Arguments.tokens, inners_inner (side_of_kind isComma), inners_append,
        arg.inners_tokens inside, others.inners_tokens rest]
      rfl

end

variable {term inner : Term} {depth : Nat}

theorem depths_group {opening closing : Token}
    (formed : (Term.group opening inner closing).Formed) :
    depths Token.side depth (Term.group opening inner closing).tokens =
      depths Token.side (depth + 1) inner.tokens :=
  depths_enclosed (side_of_kind formed.1) (inner.balanced formed.2.2.1) (side_of_kind formed.2.1)

/-- What stands between parentheses stands deeper. -/
theorem Term.bare_of_mem (formed : term.Formed)
    (member : depth ∈ depths Token.side depth term.tokens) : term.isGroup = false := by
  cases term with
  | group opening inner closing =>
      rw [depths_group formed] at member
      have deeper := (inner.balanced formed.2.2.1).le_of_mem_depths depth member
      exact absurd deeper (Nat.not_succ_le_self depth)
  | _ => rfl

/-- Without parentheses around it, a term has a token that is no deeper than the term. -/
theorem Term.mem_of_bare (formed : term.Formed) (bare : term.isGroup = false) :
    depth ∈ depths Token.side depth term.tokens := by
  have head {token : Token} {kind : Kind} {tokens : List Token} (same : token.kind = kind)
      (plain : kind.side = .inner := by rfl) :
      depth ∈ depths Token.side depth (token :: tokens) := by
    rw [depths_inner (plain ▸ side_of_kind same)]
    exact List.mem_cons_self
  cases term with
  | literal token value =>
      rcases formed with ⟨same, _⟩ | ⟨same, _⟩ | ⟨same, _⟩
      · exact head same
      · exact head same
      · exact head same
  | var name => exact head formed
  | group opening inner closing => cases bare
  | unary sign op operand => exact head rfl (UnaryOp.side_of_known formed.1)
  | arith left sign op right =>
      rw [tokens, (left.balanced formed.2.1.1).depths_append]
      exact List.mem_append_right _ (head rfl (ArithOp.side_of_known formed.1))
  | logical left word op right =>
      rw [tokens, (left.balanced formed.2.1.1).depths_append]
      exact List.mem_append_right _ (head formed.1 (by cases op <;> rfl))
  | ifThen ifWord cond thenWord thenBranch => exact head formed.1
  | ifElse ifWord cond thenWord thenBranch elseWord elseBranch => exact head formed.1
  | callEmpty name opening closing => exact head formed.1
  | call name opening first others => exact head formed.1

/-- Up to places the term is the expression, and the parentheses among its tokens are those of the
words. -/
structure Term.Mirrors (term : Term) (expr : Expr) (depth : Nat) (words : List String) : Prop where
  formed : term.Formed
  tree : term.tree.unplaced = expr.unplaced
  alike : depths Token.side depth term.tokens = depths wordSide depth words

/-- The same for the tokens behind the first argument of a call, with the closing parenthesis. -/
structure Arguments.Mirrors (others : Arguments) (args : List Expr) (depth : Nat)
    (words : List String) : Prop where
  formed : others.Formed
  trees : Expr.argsUnplaced others.trees = Expr.argsUnplaced args
  alike : depths Token.side depth others.tokens = depths wordSide depth words

theorem Term.inners_of_tree {expr : Expr} (formed : term.Formed)
    (same : term.tree.unplaced = expr.unplaced) : inners Token.side term.tokens = expr.size := by
  rw [term.inners_tokens formed, ← Expr.size_unplaced, same, Expr.size_unplaced]

namespace Term.Mirrors

variable {expr left right operand cond thenBranch elseBranch arg : Expr} {site : Site}
  {args : List Expr} {words front middle back : List String} {word : String}

theorem bare (mirrors : term.Mirrors expr depth words)
    (member : depth ∈ depths wordSide depth words) : term.isGroup = false :=
  bare_of_mem mirrors.formed (mirrors.alike ▸ member)

/-- A word that stands no deeper than the expression. -/
theorem bare_of_word (mirrors : term.Mirrors expr depth (front ++ word :: back))
    (balanced : WellBracketed wordSide front) (plain : wordSide word = .inner) :
    term.isGroup = false := by
  refine mirrors.bare ?_
  rw [balanced.depths_append, depths_inner plain]
  exact List.mem_append_right _ List.mem_cons_self

theorem bare_of_head (mirrors : term.Mirrors expr depth (word :: words))
    (plain : wordSide word = .inner) : term.isGroup = false := by
  refine mirrors.bare ?_
  rw [depths_inner plain]
  exact List.mem_cons_self

/-- Parentheses around the words are parentheses around the term. -/
theorem group (mirrors : term.Mirrors expr depth ("(" :: (words ++ [")"])))
    (balanced : WellBracketed wordSide words) :
    ∃ opening inner closing, term = .group opening inner closing ∧
      inner.Mirrors expr (depth + 1) words := by
  obtain ⟨formed, same, alike⟩ := mirrors
  rw [depths_enclosed rfl balanced rfl] at alike
  have grouped : term.isGroup = true := by
    rw [← Bool.not_eq_false]
    intro bare
    have member : depth ∈ depths Token.side depth term.tokens := term.mem_of_bare formed bare
    rw [alike] at member
    exact absurd (balanced.le_of_mem_depths depth member) (Nat.not_succ_le_self depth)
  cases term with
  | group opening inner closing =>
      rw [depths_group formed] at alike
      exact ⟨opening, inner, closing, rfl, formed.2.2.1, same, alike⟩
  | _ => cases grouped

theorem unary {op : UnaryOp} (mirrors : term.Mirrors (.unary site op operand) depth (word :: words))
    (plain : wordSide word = .inner) :
    ∃ sign inner, term = .unary sign op inner ∧ inner.Mirrors operand depth words := by
  have bare := mirrors.bare_of_head plain
  obtain ⟨formed, same, alike⟩ := mirrors
  cases term with
  | unary sign known inner =>
      obtain ⟨_, rfl, sameInner⟩ := Expr.unary.inj same
      obtain ⟨known, inside, _⟩ := formed
      exact ⟨sign, inner, rfl, inside, sameInner,
        tail_depths (UnaryOp.side_of_known known) plain alike⟩
  | group _ _ _ => cases bare
  | _ => cases same

theorem arith {op : ArithOp}
    (mirrors : term.Mirrors (.arith site op left right) depth (front ++ word :: back))
    (counted : Expr.Counted front left.size) (plain : wordSide word = .inner) :
    ∃ first sign second, term = .arith first sign op second ∧
      first.Mirrors left depth front ∧ second.Mirrors right depth back := by
  have bare := mirrors.bare_of_word counted.balanced plain
  obtain ⟨formed, same, alike⟩ := mirrors
  cases term with
  | arith first sign known second =>
      obtain ⟨_, rfl, sameLeft, sameRight⟩ := Expr.arith.inj same
      obtain ⟨known, ⟨inside, _⟩, ⟨also, _⟩, _⟩ := formed
      have long := (Term.inners_of_tree inside sameLeft).trans counted.inners.symm
      obtain ⟨alikeLeft, rest⟩ := (first.balanced inside).split_depths counted.balanced long alike
      exact ⟨first, sign, second, rfl, ⟨inside, sameLeft, alikeLeft⟩, also, sameRight,
        tail_depths (ArithOp.side_of_known known) plain rest⟩
  | group _ _ _ => cases bare
  | _ => cases same

theorem logical {op : LogicalOp}
    (mirrors : term.Mirrors (.logical site op left right) depth (front ++ word :: back))
    (counted : Expr.Counted front left.size) (plain : wordSide word = .inner) :
    ∃ first sign second, term = .logical first sign op second ∧
      first.Mirrors left depth front ∧ second.Mirrors right depth back := by
  have bare := mirrors.bare_of_word counted.balanced plain
  obtain ⟨formed, same, alike⟩ := mirrors
  cases term with
  | logical first sign known second =>
      obtain ⟨_, rfl, sameLeft, sameRight⟩ := Expr.logical.inj same
      obtain ⟨kind, ⟨inside, _⟩, also, _⟩ := formed
      have long := (Term.inners_of_tree inside sameLeft).trans counted.inners.symm
      obtain ⟨alikeLeft, rest⟩ := (first.balanced inside).split_depths counted.balanced long alike
      have inner : sign.side = .inner := (side_of_kind kind).trans (by cases known <;> rfl)
      exact ⟨first, sign, second, rfl, ⟨inside, sameLeft, alikeLeft⟩, also, sameRight,
        tail_depths inner plain rest⟩
  | group _ _ _ => cases bare
  | _ => cases same

theorem ifThen
    (mirrors : term.Mirrors (.ifThen site cond thenBranch) depth
      ("if" :: (front ++ "then" :: back)))
    (counted : Expr.Counted front cond.size) :
    ∃ ifWord test thenWord branch, term = .ifThen ifWord test thenWord branch ∧
      test.Mirrors cond depth front ∧ branch.Mirrors thenBranch depth back := by
  have bare := mirrors.bare_of_head rfl
  obtain ⟨formed, same, alike⟩ := mirrors
  cases term with
  | ifThen ifWord test thenWord branch =>
      obtain ⟨_, sameCond, sameBranch⟩ := Expr.ifThen.inj same
      obtain ⟨isIf, condition, isThen, inside, _⟩ := formed
      have behind := tail_depths (side_of_kind isIf) rfl alike
      have long := (Term.inners_of_tree condition sameCond).trans counted.inners.symm
      obtain ⟨alikeCond, rest⟩ :=
        (test.balanced condition).split_depths counted.balanced long behind
      exact ⟨ifWord, test, thenWord, branch, rfl, ⟨condition, sameCond, alikeCond⟩, inside,
        sameBranch, tail_depths (side_of_kind isThen) rfl rest⟩
  | group _ _ _ => cases bare
  | _ => cases same

theorem ifElse
    (mirrors : term.Mirrors (.ifElse site cond thenBranch elseBranch) depth
      ("if" :: (front ++ "then" :: (middle ++ "else" :: back))))
    (counted : Expr.Counted front cond.size) (also : Expr.Counted middle thenBranch.size) :
    ∃ ifWord test thenWord branch elseWord other,
      term = .ifElse ifWord test thenWord branch elseWord other ∧
      test.Mirrors cond depth front ∧ branch.Mirrors thenBranch depth middle ∧
      other.Mirrors elseBranch depth back := by
  have bare := mirrors.bare_of_head rfl
  obtain ⟨formed, same, alike⟩ := mirrors
  cases term with
  | ifElse ifWord test thenWord branch elseWord other =>
      obtain ⟨_, sameCond, sameThen, sameElse⟩ := Expr.ifElse.inj same
      obtain ⟨isIf, condition, isThen, ⟨first, _⟩, isElse, ⟨second, _⟩, _⟩ := formed
      have behind := tail_depths (side_of_kind isIf) rfl alike
      have long := (Term.inners_of_tree condition sameCond).trans counted.inners.symm
      obtain ⟨alikeCond, rest⟩ :=
        (test.balanced condition).split_depths counted.balanced long behind
      have branches := tail_depths (side_of_kind isThen) rfl rest
      have longThen := (Term.inners_of_tree first sameThen).trans also.inners.symm
      obtain ⟨alikeThen, last⟩ :=
        (branch.balanced first).split_depths also.balanced longThen branches
      exact ⟨ifWord, test, thenWord, branch, elseWord, other, rfl, ⟨condition, sameCond, alikeCond⟩,
        ⟨first, sameThen, alikeThen⟩, second, sameElse, tail_depths (side_of_kind isElse) rfl last⟩
  | group _ _ _ => cases bare
  | _ => cases same

theorem call {callee : String}
    (mirrors : term.Mirrors (.call site callee (arg :: args)) depth
      (word :: "(" :: ((front ++ back) ++ [")"])))
    (counted : Expr.Counted front arg.size) (plain : wordSide word = .inner) :
    ∃ name opening first others, term = .call name opening first others ∧
      first.Mirrors arg (depth + 1) front ∧
      others.Mirrors args (depth + 1) (back ++ [")"]) := by
  have bare := mirrors.bare_of_head plain
  obtain ⟨formed, same, alike⟩ := mirrors
  cases term with
  | call name opening first others =>
      obtain ⟨_, _, trees⟩ := Expr.call.inj same
      obtain ⟨sameFirst, sameOthers⟩ := List.cons.inj trees
      obtain ⟨named, opened, ⟨inside, _⟩, rest⟩ := formed
      have behind := tail_depths (side_of_kind named) plain alike
      rw [depths_opening (side_of_kind opened), depths_opening rfl, List.append_assoc] at behind
      have long := (Term.inners_of_tree inside sameFirst).trans counted.inners.symm
      obtain ⟨alikeFirst, alikeOthers⟩ :=
        (first.balanced inside).split_depths counted.balanced long behind
      exact ⟨name, opening, first, others, rfl, ⟨inside, sameFirst, alikeFirst⟩, rest, sameOthers,
        alikeOthers⟩
  | group _ _ _ => cases bare
  | callEmpty _ _ _ => cases same
  | _ => cases same

end Term.Mirrors

theorem Arguments.Mirrors.next {others : Arguments} {arg : Expr} {args : List Expr}
    {front back : List String}
    (mirrors : others.Mirrors (arg :: args) depth ("," :: (front ++ back)))
    (counted : Expr.Counted front arg.size) :
    ∃ comma first rest, others = .next comma first rest ∧ first.Mirrors arg depth front ∧
      rest.Mirrors args depth back := by
  obtain ⟨formed, same, alike⟩ := mirrors
  cases others with
  | closed closing => cases same
  | next comma first rest =>
      obtain ⟨sameFirst, sameRest⟩ := List.cons.inj same
      obtain ⟨isComma, ⟨inside, _⟩, behind⟩ := formed
      have tail := tail_depths (side_of_kind isComma) rfl alike
      have long := (Term.inners_of_tree inside sameFirst).trans counted.inners.symm
      obtain ⟨alikeFirst, alikeRest⟩ :=
        (first.balanced inside).split_depths counted.balanced long tail
      exact ⟨comma, first, rest, rfl, ⟨inside, sameFirst, alikeFirst⟩, behind, sameRest, alikeRest⟩

end Concrete

end Sipl
