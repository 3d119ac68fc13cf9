import Sipl.Proofs.Concrete.Terms
import Sipl.Proofs.Format.Unplaced
import Sipl.Proofs.Token.Composition

namespace Sipl

namespace Token

variable {tokens front back : List Token} {token other : Token}

theorem eq_of_content (same : token.content = other.content) :
    token.kind = other.kind ∧ token.lexeme = other.lexeme ∧ token.literal? = other.literal? := by
  obtain ⟨kind, rest⟩ := Prod.mk.inj same
  exact ⟨kind, Prod.mk.inj rest⟩

theorem split_cons (same : tokens.map content = (token :: back).map content) :
    ∃ copy rest, tokens = copy :: rest ∧ copy.content = token.content ∧
      rest.map content = back.map content :=
  List.map_eq_cons_iff.mp same

theorem split_append (same : tokens.map content = (front ++ back).map content) :
    ∃ first rest, tokens = first ++ rest ∧ first.map content = front.map content ∧
      rest.map content = back.map content := by
  rw [List.map_append] at same
  exact List.map_eq_append_iff.mp same

theorem split_around (same : tokens.map content = (front ++ token :: back).map content) :
    ∃ first copy rest, tokens = first ++ copy :: rest ∧ first.map content = front.map content ∧
      copy.content = token.content ∧ rest.map content = back.map content := by
  obtain ⟨first, behind, rfl, sameFirst, sameBehind⟩ := split_append same
  obtain ⟨copy, rest, rfl, sameCopy, sameRest⟩ := split_cons sameBehind
  exact ⟨first, copy, rest, rfl, sameFirst, sameCopy, sameRest⟩

end Token

namespace Concrete

open Token

/-- A term that differs in its places only. -/
structure Term.CopyOf (copy term : Term) : Prop where
  formed : term.Formed → copy.Formed
  precedence : copy.precedence = term.precedence
  absorbs : ∀ kind, copy.absorbs kind = term.absorbs kind
  tree : copy.tree.unplaced = term.tree.unplaced

variable {copy term other left right : Term}

theorem Term.CopyOf.tight (copies : copy.CopyOf term) {minimum : Precedence}
    (tight : term.Tight minimum) : copy.Tight minimum := by
  rwa [Tight, copies.precedence]

theorem Term.CopyOf.goesOn (copies : copy.CopyOf term) (kind : Kind) :
    copy.goesOn kind = term.goesOn kind := by
  rw [Term.goesOn, Term.goesOn, compares, compares, copies.precedence]

theorem copyOf_literal {token first : Token} {value : Literal}
    (same : first.content = token.content) :
    (Term.literal first value).CopyOf (.literal token value) := by
  obtain ⟨kind, _, literal⟩ := eq_of_content same
  refine ⟨fun formed => ?_, rfl, fun _ => rfl, rfl⟩
  rw [Term.Formed, kind, literal]
  exact formed

theorem copyOf_arith {front back : Term} {sign first : Token} {op : ArithOp}
    (sameLeft : front.CopyOf left) (same : first.content = sign.content)
    (sameRight : back.CopyOf right) :
    (Term.arith front first op back).CopyOf (.arith left sign op right) where
  formed := by
    rintro ⟨known, ⟨formedLeft, tightLeft⟩, ⟨formedRight, tightRight⟩, complete⟩
    have kind := (eq_of_content same).1
    refine ⟨kind ▸ known, ⟨sameLeft.formed formedLeft, sameLeft.tight tightLeft⟩,
      ⟨sameRight.formed formedRight, sameRight.tight tightRight⟩, ?_⟩
    rwa [kind, sameLeft.absorbs]
  precedence := rfl
  absorbs := sameRight.absorbs
  tree := by simp only [Term.tree, Expr.unplaced, sameLeft.tree, sameRight.tree]

theorem copyOf_logical {front back : Term} {word first : Token} {op : LogicalOp}
    (sameLeft : front.CopyOf left) (same : first.content = word.content)
    (sameRight : back.CopyOf right) :
    (Term.logical front first op back).CopyOf (.logical left word op right) where
  formed := by
    rintro ⟨kind, ⟨formedLeft, tightLeft⟩, formedRight, tightRight⟩
    exact ⟨(eq_of_content same).1.trans kind,
      ⟨sameLeft.formed formedLeft, sameLeft.tight tightLeft⟩,
      sameRight.formed formedRight, sameRight.tight tightRight⟩
  precedence := rfl
  absorbs := sameRight.absorbs
  tree := by simp only [Term.tree, Expr.unplaced, sameLeft.tree, sameRight.tree]

theorem copyOf_ifThen {cond test thenBranch branch : Term} {ifWord thenWord first second : Token}
    (sameIf : first.content = ifWord.content) (sameCond : test.CopyOf cond)
    (sameThen : second.content = thenWord.content) (sameBranch : branch.CopyOf thenBranch) :
    (Term.ifThen first test second branch).CopyOf (.ifThen ifWord cond thenWord thenBranch) where
  formed := by
    rintro ⟨isIf, condition, isThen, inside, tight⟩
    exact ⟨(eq_of_content sameIf).1.trans isIf, sameCond.formed condition,
      (eq_of_content sameThen).1.trans isThen, sameBranch.formed inside, sameBranch.tight tight⟩
  precedence := rfl
  absorbs kind := by
    rw [Term.absorbs, Term.absorbs, sameBranch.goesOn, sameBranch.absorbs]
  tree := by simp only [Term.tree, Expr.unplaced, sameCond.tree, sameBranch.tree]

theorem copyOf_ifElse {cond test thenBranch elseBranch front back : Term}
    {ifWord thenWord elseWord first second third : Token}
    (sameIf : first.content = ifWord.content) (sameCond : test.CopyOf cond)
    (sameThen : second.content = thenWord.content) (sameFirst : front.CopyOf thenBranch)
    (sameElse : third.content = elseWord.content) (sameSecond : back.CopyOf elseBranch) :
    (Term.ifElse first test second front third back).CopyOf
      (.ifElse ifWord cond thenWord thenBranch elseWord elseBranch) where
  formed := by
    rintro ⟨isIf, condition, isThen, ⟨inside, tight⟩, isElse, ⟨also, tightAlso⟩, complete⟩
    refine ⟨(eq_of_content sameIf).1.trans isIf, sameCond.formed condition,
      (eq_of_content sameThen).1.trans isThen, ⟨sameFirst.formed inside, sameFirst.tight tight⟩,
      (eq_of_content sameElse).1.trans isElse,
      ⟨sameSecond.formed also, sameSecond.tight tightAlso⟩, ?_⟩
    rw [sameFirst.absorbs, complete]
  precedence := rfl
  absorbs kind := by
    rw [Term.absorbs, Term.absorbs, sameSecond.goesOn, sameSecond.absorbs]
  tree := by simp only [Term.tree, Expr.unplaced, sameCond.tree, sameFirst.tree, sameSecond.tree]

mutual

/-- Tokens that say what those of a term say are those of a copy. -/
theorem Term.exists_copy (term : Term) {tokens : List Token}
    (same : tokens.map content = term.tokens.map content) :
    ∃ copy : Term, copy.tokens = tokens ∧ copy.CopyOf term := by
  -- The tokens are cut where those of the parts end; each stretch is a copy of its part.
  match term with
  | .literal token value =>
      obtain ⟨first, rest, rfl, sameFirst, sameRest⟩ := split_cons same
      obtain rfl := List.map_eq_nil_iff.mp sameRest
      exact ⟨.literal first value, rfl, copyOf_literal sameFirst⟩
  | .var name =>
      obtain ⟨first, rest, rfl, sameFirst, sameRest⟩ := split_cons same
      obtain rfl := List.map_eq_nil_iff.mp sameRest
      obtain ⟨kind, lexeme, _⟩ := eq_of_content sameFirst
      refine ⟨.var first, rfl, fun formed => kind.trans formed, rfl, fun _ => rfl, ?_⟩
      simp only [Term.tree, Expr.unplaced, lexeme]
  | .group opening inner closing =>
      obtain ⟨first, rest, rfl, sameFirst, sameRest⟩ := split_cons same
      obtain ⟨middle, last, others, rfl, sameMiddle, sameLast, sameOthers⟩ := split_around sameRest
      obtain rfl := List.map_eq_nil_iff.mp sameOthers
      obtain ⟨copy, rfl, copies⟩ := inner.exists_copy sameMiddle
      refine ⟨.group first copy last, rfl, ?_, rfl, fun _ => rfl, copies.tree⟩
      rintro ⟨opened, closed, inside, tight⟩
      exact ⟨(eq_of_content sameFirst).1.trans opened, (eq_of_content sameLast).1.trans closed,
        copies.formed inside, copies.tight tight⟩
  | .unary sign op operand =>
      obtain ⟨first, rest, rfl, sameFirst, sameRest⟩ := split_cons same
      obtain ⟨copy, rfl, copies⟩ := operand.exists_copy sameRest
      refine ⟨.unary first op copy, rfl, ?_, rfl, copies.absorbs, ?_⟩
      · rintro ⟨known, inside, tight⟩
        exact ⟨(eq_of_content sameFirst).1 ▸ known, copies.formed inside, copies.tight tight⟩
      · simp only [Term.tree, Expr.unplaced, copies.tree]
  | .arith left sign op right =>
      obtain ⟨front, first, back, rfl, sameFront, sameFirst, sameBack⟩ := split_around same
      obtain ⟨leftCopy, rfl, leftCopies⟩ := left.exists_copy sameFront
      obtain ⟨rightCopy, rfl, rightCopies⟩ := right.exists_copy sameBack
      exact ⟨.arith leftCopy first op rightCopy, rfl,
        copyOf_arith leftCopies sameFirst rightCopies⟩
  | .logical left word op right =>
      obtain ⟨front, first, back, rfl, sameFront, sameFirst, sameBack⟩ := split_around same
      obtain ⟨leftCopy, rfl, leftCopies⟩ := left.exists_copy sameFront
      obtain ⟨rightCopy, rfl, rightCopies⟩ := right.exists_copy sameBack
      exact ⟨.logical leftCopy first op rightCopy, rfl,
        copyOf_logical leftCopies sameFirst rightCopies⟩
  | .ifThen ifWord cond thenWord thenBranch =>
      obtain ⟨first, rest, rfl, sameFirst, sameRest⟩ := split_cons same
      obtain ⟨front, second, back, rfl, sameFront, sameSecond, sameBack⟩ := split_around sameRest
      obtain ⟨condCopy, rfl, condCopies⟩ := cond.exists_copy sameFront
      obtain ⟨branchCopy, rfl, branchCopies⟩ := thenBranch.exists_copy sameBack
      exact ⟨.ifThen first condCopy second branchCopy, rfl,
        copyOf_ifThen sameFirst condCopies sameSecond branchCopies⟩
  | .ifElse ifWord cond thenWord thenBranch elseWord elseBranch =>
      obtain ⟨first, rest, rfl, sameFirst, sameRest⟩ := split_cons same
      obtain ⟨front, second, back, rfl, sameFront, sameSecond, sameBack⟩ := split_around sameRest
      obtain ⟨middle, third, last, rfl, sameMiddle, sameThird, sameLast⟩ := split_around sameBack
      obtain ⟨condCopy, rfl, condCopies⟩ := cond.exists_copy sameFront
      obtain ⟨thenCopy, rfl, thenCopies⟩ := thenBranch.exists_copy sameMiddle
      obtain ⟨elseCopy, rfl, elseCopies⟩ := elseBranch.exists_copy sameLast
      exact ⟨.ifElse first condCopy second thenCopy third elseCopy, rfl,
        copyOf_ifElse sameFirst condCopies sameSecond thenCopies sameThird elseCopies⟩
  | .callEmpty name opening closing =>
      obtain ⟨first, rest, rfl, sameFirst, sameRest⟩ := split_cons same
      obtain ⟨second, others, rfl, sameSecond, sameOthers⟩ := split_cons sameRest
      obtain ⟨third, none, rfl, sameThird, sameNone⟩ := split_cons sameOthers
      obtain rfl := List.map_eq_nil_iff.mp sameNone
      obtain ⟨kind, lexeme, _⟩ := eq_of_content sameFirst
      refine ⟨.callEmpty first second third, rfl, ?_, rfl, fun _ => rfl, ?_⟩
      · rintro ⟨named, opened, closed⟩
        exact ⟨kind.trans named, (eq_of_content sameSecond).1.trans opened,
          (eq_of_content sameThird).1.trans closed⟩
      · simp only [Term.tree, Expr.unplaced, lexeme]
  | .call name opening arg others =>
      obtain ⟨first, rest, rfl, sameFirst, sameRest⟩ := split_cons same
      obtain ⟨second, behind, rfl, sameSecond, sameBehind⟩ := split_cons sameRest
      obtain ⟨front, back, rfl, sameFront, sameBack⟩ := split_append sameBehind
      obtain ⟨argCopy, rfl, argCopies⟩ := arg.exists_copy sameFront
      obtain ⟨othersCopy, rfl, othersFormed, trees⟩ := others.exists_copy sameBack
      obtain ⟨kind, lexeme, _⟩ := eq_of_content sameFirst
      refine ⟨.call first second argCopy othersCopy, rfl, ?_, rfl, fun _ => rfl, ?_⟩
      · rintro ⟨named, opened, ⟨inside, tight⟩, formed⟩
        exact ⟨kind.trans named, (eq_of_content sameSecond).1.trans opened,
          ⟨argCopies.formed inside, argCopies.tight tight⟩, othersFormed formed⟩
      · simp only [Term.tree, Expr.unplaced, Expr.argsUnplaced, lexeme, argCopies.tree, trees]

theorem Arguments.exists_copy (others : Arguments) {tokens : List Token}
    (same : tokens.map content = others.tokens.map content) :
    ∃ copy : Arguments, copy.tokens = tokens ∧ (others.Formed → copy.Formed) ∧
      Expr.argsUnplaced copy.trees = Expr.argsUnplaced others.trees := by
  match others with
  | .closed closing =>
      obtain ⟨first, rest, rfl, sameFirst, sameRest⟩ := split_cons same
      obtain rfl := List.map_eq_nil_iff.mp sameRest
      exact ⟨.closed first, rfl, fun closed => (eq_of_content sameFirst).1.trans closed, rfl⟩
  | .next comma arg others =>
      obtain ⟨first, rest, rfl, sameFirst, sameRest⟩ := split_cons same
      obtain ⟨front, back, rfl, sameFront, sameBack⟩ := split_append sameRest
      obtain ⟨argCopy, rfl, argCopies⟩ := arg.exists_copy sameFront
      obtain ⟨othersCopy, rfl, othersFormed, trees⟩ := others.exists_copy sameBack
      refine ⟨.next first argCopy othersCopy, rfl, ?_, ?_⟩
      · rintro ⟨isComma, ⟨inside, tight⟩, formed⟩
        exact ⟨(eq_of_content sameFirst).1.trans isComma,
          ⟨argCopies.formed inside, argCopies.tight tight⟩, othersFormed formed⟩
      · simp only [Arguments.trees, Expr.argsUnplaced, argCopies.tree, trees]

end

end Concrete

end Sipl
