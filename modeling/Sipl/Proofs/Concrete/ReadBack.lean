import Sipl.Proofs.Concrete.WrittenBack
import Sipl.Proofs.Format.Reread
import Sipl.Proofs.Reader.Elsewhere

namespace Sipl

namespace Concrete

open Reader Cursor

/-- The operators that the outermost construct of a term would take another operand for.  A
comparison takes no second one. -/
def Term.takes (term : Term) : List Kind :=
  if term.compares then [.star, .slash, .plus, .minus] else absorbed term.precedence.level

/-- The term is read wherever its tokens stand and end. -/
def Term.IsRead (term : Term) : Prop :=
  ∀ start stop : Cursor, start.Passes term.tokens stop → stop.kind ∉ .leftParen :: term.takes →
    term.absorbs stop.kind = false → Opens term.precedence.level start term.tree stop

variable {term left right operand cond thenBranch : Term} {start middle stop : Cursor}

theorem Term.takes_subset {minimum : Precedence} (tight : term.Tight minimum) :
    term.takes ⊆ absorbed minimum.level := by
  unfold Tight at tight
  unfold takes compares
  revert tight
  cases term.precedence <;> cases minimum <;> decide

theorem Term.height_le {minimum : Precedence} (tight : term.Tight minimum) :
    term.precedence.level.height ≤ minimum.level.height := by
  unfold Tight at tight
  revert tight
  cases term.precedence <;> cases minimum <;> decide

/-- A token that is no operator on integers and no `else` is part of no branch. -/
theorem Term.absorbs_eq_false (term : Term) {kind : Kind} (other : ArithOp.ofKind? kind = none)
    (noElse : kind ≠ .elseWord) : term.absorbs kind = false := by
  match term with
  | .literal _ _ | .var _ | .group _ _ _ | .callEmpty _ _ _ | .call _ _ _ _ => rfl
  | .unary _ _ operand => exact operand.absorbs_eq_false other noElse
  | .arith _ _ _ right => exact right.absorbs_eq_false other noElse
  | .logical _ _ _ right => exact right.absorbs_eq_false other noElse
  | .ifThen _ _ _ thenBranch =>
      simp [absorbs, goesOn, other, noElse, thenBranch.absorbs_eq_false other noElse]
  | .ifElse _ _ _ _ _ elseBranch =>
      simp [absorbs, goesOn, other, elseBranch.absorbs_eq_false other noElse]

/-- A term is read wherever something that binds as tightly as it does may stand. -/
theorem Term.IsRead.at_level {minimum : Precedence} (isRead : term.IsRead)
    (tight : term.Tight minimum) (passes : start.Passes term.tokens stop)
    (free : stop.kind ∉ .leftParen :: absorbed minimum.level)
    (complete : term.absorbs stop.kind = false) : Opens minimum.level start term.tree stop := by
  have own := isRead start stop passes
    (fun listed => free (List.cons_subset_cons _ (Term.takes_subset tight) listed)) complete
  exact own.climb (Term.height_le tight) fun listed => free (List.mem_cons_of_mem _ listed)

/-- A branch ends where it does not go on. -/
theorem Term.IsRead.branch (isRead : term.IsRead) (tight : term.Tight .comparison)
    (passes : start.Passes term.tokens stop) (other : stop.kind ≠ .leftParen)
    (ends : term.goesOn stop.kind = false) (complete : term.absorbs stop.kind = false) :
    Reads start (.comparison term.tree) stop := by
  have arithmetic : ∀ kind ∈ arithmeticKinds, (ArithOp.ofKind? kind).isSome := by decide
  by_cases compares : term.compares = true
  · have level : term.precedence.level = .comparison := by
      rw [beq_iff_eq.mp compares]
      rfl
    have free : stop.kind ∉ .leftParen :: term.takes := by
      rw [takes, if_pos compares, List.mem_cons, not_or]
      refine ⟨other, fun listed => ?_⟩
      have loose : ∀ kind ∈ [Kind.star, .slash, .plus, .minus],
          (ArithOp.ofKind? kind).any (!·.isComparison) = true := by decide
      have goes : term.goesOn stop.kind = true := by
        simpa [goesOn, compares] using loose _ listed
      rw [ends] at goes
      cases goes
    have own := isRead start stop passes free complete
    rwa [level] at own
  · have free : stop.kind ∉ .leftParen :: absorbed .comparison := by
      rw [List.mem_cons, not_or]
      refine ⟨other, fun listed => ?_⟩
      obtain ⟨op, known⟩ := Option.isSome_iff_exists.mp (arithmetic _ listed)
      simp [goesOn, known, compares] at ends
    exact isRead.at_level tight passes free complete

/-- A term in front of a token that ends it at any level. -/
theorem Term.IsRead.before {minimum : Precedence} (isRead : term.IsRead)
    (tight : term.Tight minimum) (passes : start.Passes term.tokens stop)
    (listed : stop.kind ∈ [Kind.rightParen, .comma, .thenWord, .doWord, .endWord, .semicolon]) :
    Reads start (phraseAt minimum.level term.tree) stop := by
  have ends : ∀ kind ∈ [Kind.rightParen, .comma, .thenWord, .doWord, .endWord, .semicolon],
      kind ∉ .leftParen :: (absorbed .disjunction ++ repeated .disjunction ++ repeated .additive ++
        repeated .conjunction) ∧ ArithOp.ofKind? kind = none ∧ kind ≠ .elseWord := by decide
  obtain ⟨free, other, noElse⟩ := ends _ listed
  have within : .leftParen :: absorbed minimum.level ⊆ .leftParen :: (absorbed .disjunction ++
      repeated .disjunction ++ repeated .additive ++ repeated .conjunction) ∧
      repeated minimum.level ⊆ .leftParen :: (absorbed .disjunction ++
      repeated .disjunction ++ repeated .additive ++ repeated .conjunction) := by
    cases minimum <;> decide
  have opens := isRead.at_level tight passes (fun listed => free (within.1 listed))
    (term.absorbs_eq_false other noElse)
  exact opens.close fun listed => free (within.2 listed)

theorem operatorHere_of_kind {sign : Token} {op : ArithOp} {strength : ArithOp → Bool}
    (current : middle.current = sign) (known : ArithOp.ofKind? sign.kind = some op)
    (strong : strength op = true) : operatorHere? middle strength = some op := by
  have found : ArithOp.ofKind? middle.kind = some op := by rw [Cursor.kind, current, known]
  simp [operatorHere?, found, Option.filter, strong]

/-- Where an operator ends its left operand. -/
theorem kind_of_operator {sign : Token} {op : ArithOp} (known : ArithOp.ofKind? sign.kind = some op)
    (kinds : List Kind) (other : op.kind ∉ kinds) (current : middle.current = sign) :
    middle.kind ∉ kinds := by
  rw [Cursor.kind, current, ArithOp.eq_kind known]
  exact other

section Operators

variable {sign : Token} {op : ArithOp}

theorem isRead_additive (known : ArithOp.ofKind? sign.kind = some op) (adds : op.isAdditive = true)
    (first : left.IsRead) (tightLeft : left.Tight .additive)
    (complete : left.absorbs sign.kind = false) (second : right.IsRead)
    (tightRight : right.Tight .multiplicative) : (Term.arith left sign op right).IsRead := by
  intro start stop passes free ends
  have level : op.precedence = .additive := ((levels_of_strength op).2.1 adds).2
  have takes : (Term.arith left sign op right).takes = absorbed .additive := by
    simp [Term.takes, Term.compares, Term.precedence, level, Precedence.level]
  obtain ⟨middle, passesLeft, rest⟩ := passes.split
  have current := rest.current_eq
  have strong : op.kind ∉ .leftParen :: absorbed .additive := by
    revert adds
    cases op <;> decide
  have opens : Opens .additive start left.tree middle :=
    first.at_level tightLeft passesLeft (kind_of_operator known _ strong current)
      (by rwa [Cursor.kind, current])
  have next : Reads middle.advance (.multiplicative right.tree) stop :=
    second.at_level tightRight rest.tail (takes ▸ free) ends
  rw [Term.precedence, level]
  refine fun final _ others => opens final _
    (.additiveMore (operatorHere_of_kind current known adds) next ?_)
  rw [current]
  exact others

theorem isRead_multiplicative (known : ArithOp.ofKind? sign.kind = some op)
    (multiplies : op.isMultiplicative = true) (first : left.IsRead) (tightLeft : left.Tight .unary)
    (complete : left.absorbs sign.kind = false) (second : right.IsRead)
    (tightRight : right.Tight .multiplicative) : (Term.arith left sign op right).IsRead := by
  intro start stop passes free ends
  have level : op.precedence = .multiplicative := ((levels_of_strength op).2.2 multiplies).2
  have takes : (Term.arith left sign op right).takes = absorbed .multiplicative := by
    simp [Term.takes, Term.compares, Term.precedence, level, Precedence.level]
  obtain ⟨middle, passesLeft, rest⟩ := passes.split
  have current := rest.current_eq
  have strong : op.kind ∉ .leftParen :: absorbed .unary := by
    revert multiplies
    cases op <;> decide
  have reads : Reads start (.unary left.tree) middle :=
    first.at_level tightLeft passesLeft (kind_of_operator known _ strong current)
      (by rwa [Cursor.kind, current])
  have next : Reads middle.advance (.multiplicative right.tree) stop :=
    second.at_level tightRight rest.tail (takes ▸ free) ends
  rw [Term.precedence, level]
  rw [Term.tree, ← current]
  exact Reads.multiplicativeBoth reads (operatorHere_of_kind current known multiplies) next

theorem isRead_comparison (known : ArithOp.ofKind? sign.kind = some op)
    (compares : op.isComparison = true) (first : left.IsRead) (tightLeft : left.Tight .additive)
    (complete : left.absorbs sign.kind = false) (second : right.IsRead)
    (tightRight : right.Tight .additive) : (Term.arith left sign op right).IsRead := by
  intro start stop passes free ends
  have level : op.precedence = .comparison := ((levels_of_strength op).1 compares).2
  have takes : (Term.arith left sign op right).takes = [.star, .slash, .plus, .minus] := by
    simp [Term.takes, Term.compares, Term.precedence, level]
  rw [takes] at free
  obtain ⟨middle, passesLeft, rest⟩ := passes.split
  have current := rest.current_eq
  have strong : op.kind ∉ .leftParen :: absorbed .additive ∧ op.kind ∉ repeated .additive := by
    revert compares
    cases op <;> decide
  have opens : Opens .additive start left.tree middle :=
    first.at_level tightLeft passesLeft (kind_of_operator known _ strong.1 current)
      (by rwa [Cursor.kind, current])
  have reads := opens.close (kind_of_operator known _ strong.2 current)
  have within : .leftParen :: absorbed .additive ⊆ [Kind.leftParen, .star, .slash, .plus, .minus] ∧
      repeated .additive ⊆ [Kind.leftParen, .star, .slash, .plus, .minus] := by decide
  have nextOpens : Opens .additive middle.advance right.tree stop :=
    second.at_level tightRight rest.tail (fun listed => free (within.1 listed)) ends
  have next := nextOpens.close fun listed => free (within.2 listed)
  rw [Term.precedence, level]
  rw [Term.tree, ← current]
  exact Reads.comparisonBoth reads (operatorHere_of_kind current known compares) next

theorem isRead_arith (formed : (Term.arith left sign op right).Formed) (first : left.IsRead)
    (second : right.IsRead) : (Term.arith left sign op right).IsRead := by
  obtain ⟨known, ⟨_, tightLeft⟩, ⟨_, tightRight⟩, complete⟩ := formed
  rw [ArithOp.operandPrecedence] at tightLeft tightRight
  cases op with
  | add | sub => exact isRead_additive known rfl first tightLeft complete second tightRight
  | mul | div => exact isRead_multiplicative known rfl first tightLeft complete second tightRight
  | eq | notEq | lt | ltEq | gt | gtEq =>
      exact isRead_comparison known rfl first tightLeft complete second tightRight

end Operators

theorem isRead_or {word : Token} (same : word.kind = .orWord) (first : left.IsRead)
    (tightLeft : left.Tight .or) (second : right.IsRead) (tightRight : right.Tight .and) :
    (Term.logical left word .or right).IsRead := by
  intro start stop passes free ends
  obtain ⟨middle, passesLeft, rest⟩ := passes.split
  have current := rest.current_eq
  have kind : middle.kind = .orWord := by rw [Cursor.kind, current, same]
  have opens : Opens .disjunction start left.tree middle :=
    first.at_level tightLeft passesLeft (by rw [kind]; decide)
      (left.absorbs_eq_false (by rw [kind]; rfl) (by rw [kind]; decide))
  have within : .leftParen :: absorbed .conjunction ⊆ .leftParen :: absorbed .disjunction ∧
      repeated .conjunction ⊆ .leftParen :: absorbed .disjunction := by decide
  have nextOpens : Opens .conjunction middle.advance right.tree stop :=
    second.at_level tightRight rest.tail (fun listed => free (within.1 listed)) ends
  have next := nextOpens.close fun listed => free (within.2 listed)
  refine fun final _ others => opens final _ (.disjunctionMore kind next ?_)
  rw [current]
  exact others

theorem isRead_and {word : Token} (same : word.kind = .andWord) (first : left.IsRead)
    (tightLeft : left.Tight .and) (second : right.IsRead) (tightRight : right.Tight .unary) :
    (Term.logical left word .and right).IsRead := by
  intro start stop passes free ends
  obtain ⟨middle, passesLeft, rest⟩ := passes.split
  have current := rest.current_eq
  have kind : middle.kind = .andWord := by rw [Cursor.kind, current, same]
  have opens : Opens .conjunction start left.tree middle :=
    first.at_level tightLeft passesLeft (by rw [kind]; decide)
      (left.absorbs_eq_false (by rw [kind]; rfl) (by rw [kind]; decide))
  have within : .leftParen :: absorbed .unary ⊆ .leftParen :: absorbed .conjunction := by decide
  have next : Reads middle.advance (.unary right.tree) stop :=
    second.at_level tightRight rest.tail (fun listed => free (within listed)) ends
  refine fun final _ others => opens final _ (.conjunctionMore kind next ?_)
  rw [current]
  exact others

theorem isRead_unary {sign : Token} {op : UnaryOp} (known : UnaryOp.ofKind? sign.kind = some op)
    (inner : operand.IsRead) (tight : operand.Tight .unary) :
    (Term.unary sign op operand).IsRead := by
  intro start stop passes free ends
  have current := passes.current_eq
  have reads : Reads start.advance (.unary operand.tree) stop :=
    inner.at_level tight passes.tail free ends
  rw [Term.tree, ← current]
  exact Reads.unaryOperator (by rwa [Cursor.kind, current]) reads

theorem isRead_group {opening closing : Token} {inner : Term} (opened : opening.kind = .leftParen)
    (closed : closing.kind = .rightParen) (inside : inner.IsRead)
    (tight : inner.Tight .comparison) : (Term.group opening inner closing).IsRead := by
  intro start stop passes _ _
  obtain ⟨later, within, last⟩ := passes.tail.split
  have kind : later.kind = .rightParen := by rw [Cursor.kind, last.current_eq, closed]
  have reads : Reads start.advance (.comparison inner.tree) later :=
    inside.before tight within (by rw [kind]; decide)
  rw [← last.tail.eq_of_nil]
  exact Reads.grouping (by rw [Cursor.kind, passes.current_eq, opened]) reads kind

theorem Term.tight_or (term : Term) : term.Tight .or := Nat.zero_le _

theorem isRead_ifThen {ifWord thenWord : Token} (isIf : ifWord.kind = .ifWord)
    (condition : cond.IsRead) (isThen : thenWord.kind = .thenWord) (inside : thenBranch.IsRead)
    (tight : thenBranch.Tight .comparison) :
    (Term.ifThen ifWord cond thenWord thenBranch).IsRead := by
  intro start stop passes free ends
  simp only [Term.absorbs, Bool.or_eq_false_iff, beq_eq_false_iff_ne] at ends
  obtain ⟨⟨noElse, full⟩, complete⟩ := ends
  have current := passes.current_eq
  obtain ⟨afterCond, tested, rest⟩ := passes.tail.split
  have thenKind : afterCond.kind = .thenWord := by rw [Cursor.kind, rest.current_eq, isThen]
  have reads : Reads start.advance (.disjunction cond.tree) afterCond :=
    condition.before cond.tight_or tested (by rw [thenKind]; decide)
  have only := inside.branch tight rest.tail (fun opened => free (opened ▸ List.mem_cons_self))
    full complete
  rw [Term.tree, siteBetween, ← current, ← Term.previousSpan_eq rest.tail]
  exact Reads.choice (by rw [Cursor.kind, current, isIf])
    (.conditionalOne reads thenKind only noElse)

theorem isRead_ifElse {ifWord thenWord elseWord : Token} {elseBranch : Term}
    (formed : (Term.ifElse ifWord cond thenWord thenBranch elseWord elseBranch).Formed)
    (condition : cond.IsRead) (first : thenBranch.IsRead) (second : elseBranch.IsRead) :
    (Term.ifElse ifWord cond thenWord thenBranch elseWord elseBranch).IsRead := by
  obtain ⟨isIf, _, isThen, ⟨_, tightFirst⟩, isElse, ⟨_, tightSecond⟩, complete⟩ := formed
  intro start stop passes free ends
  simp only [Term.absorbs, Bool.or_eq_false_iff] at ends
  have current := passes.current_eq
  obtain ⟨afterCond, tested, rest⟩ := passes.tail.split
  obtain ⟨afterThen, taken, last⟩ := rest.tail.split
  have thenKind : afterCond.kind = .thenWord := by rw [Cursor.kind, rest.current_eq, isThen]
  have elseKind : afterThen.kind = .elseWord := by rw [Cursor.kind, last.current_eq, isElse]
  have reads : Reads start.advance (.disjunction cond.tree) afterCond :=
    condition.before cond.tight_or tested (by rw [thenKind]; decide)
  have one := first.branch tightFirst taken (by rw [elseKind]; decide) (by rw [elseKind]; rfl)
    (by rwa [elseKind])
  have other := second.branch tightSecond last.tail
    (fun opened => free (opened ▸ List.mem_cons_self)) ends.1 ends.2
  rw [Term.tree, siteBetween, ← current, ← Term.previousSpan_eq last.tail]
  exact Reads.choice (by rw [Cursor.kind, current, isIf])
    (.conditionalBoth reads thenKind one elseKind other)

mutual

theorem Term.isRead (term : Term) (formed : term.Formed) : term.IsRead := by
  -- Each case asks what stands behind the term: a name must not become a call there, nor may the
  -- outermost construct take one more operand.
  match term with
  | .literal token value =>
      intro start stop passes _ _
      have current := passes.current_eq
      rw [← passes.tail.eq_of_nil, Term.tree, ← current]
      rcases formed with ⟨digits, known, _, rfl⟩ | ⟨word, rfl⟩ | ⟨word, rfl⟩
      · exact Reads.number (by rw [Cursor.kind, current, digits]) (by rw [current, known])
      · exact Reads.trueWord (by rw [Cursor.kind, current, word])
      · exact Reads.falseWord (by rw [Cursor.kind, current, word])
  | .var name =>
      intro start stop passes free _
      have current := passes.current_eq
      have named : name.kind = .ident := formed
      have ends := passes.tail.eq_of_nil
      rw [← ends] at free
      rw [← ends, Term.tree, ← current]
      exact Reads.var (by rw [Cursor.kind, current, named])
        fun opened => free (opened ▸ List.mem_cons_self)
  | .group opening inner closing =>
      obtain ⟨opened, closed, inside, tight⟩ := formed
      exact isRead_group opened closed (inner.isRead inside) tight
  | .unary sign op operand =>
      obtain ⟨known, inside, tight⟩ := formed
      exact isRead_unary known (operand.isRead inside) tight
  | .arith left sign op right =>
      exact isRead_arith formed (left.isRead formed.2.1.1) (right.isRead formed.2.2.1.1)
  | .logical left word op right =>
      obtain ⟨same, ⟨first, tightLeft⟩, second, tightRight⟩ := formed
      cases op with
      | or => exact isRead_or same (left.isRead first) tightLeft (right.isRead second) tightRight
      | and => exact isRead_and same (left.isRead first) tightLeft (right.isRead second) tightRight
  | .ifThen ifWord cond thenWord thenBranch =>
      obtain ⟨isIf, condition, isThen, inside, tight⟩ := formed
      exact isRead_ifThen isIf (cond.isRead condition) isThen (thenBranch.isRead inside) tight
  | .ifElse ifWord cond thenWord thenBranch elseWord elseBranch =>
      obtain ⟨_, condition, _, ⟨first, _⟩, _, ⟨second, _⟩, _⟩ := id formed
      exact isRead_ifElse formed (cond.isRead condition) (thenBranch.isRead first)
        (elseBranch.isRead second)
  | .callEmpty name opening closing =>
      obtain ⟨named, opened, closed⟩ := formed
      intro start stop passes _ _
      have current := passes.current_eq
      have last := passes.tail.tail
      have reads : Reads start.advance.advance (.arguments []) stop := by
        rw [← last.tail.eq_of_nil]
        exact .noArguments (by rw [Cursor.kind, last.current_eq, closed])
      have ends : closing = (Term.callEmpty name opening closing).last := rfl
      rw [Term.tree, siteBetween, ← current, ends, ← Term.previousSpan_eq passes]
      exact Reads.call (by rw [Cursor.kind, current, named])
        (by rw [Cursor.kind, passes.tail.current_eq, opened]) reads
  | .call name opening first others =>
      obtain ⟨named, opened, ⟨inside, tight⟩, rest⟩ := formed
      intro start stop passes _ _
      have current := passes.current_eq
      obtain ⟨later, within, behind⟩ := passes.tail.tail.split
      have head : Reads start.advance.advance (.comparison first.tree) later :=
        (first.isRead inside).before tight within (others.starts rest behind)
      have reads := Reads.arguments head.kind_ne_rightParen head (others.isRead rest behind)
      rw [Term.tree, siteBetween, ← current, ← Arguments.previousSpan_eq behind]
      exact Reads.call (by rw [Cursor.kind, current, named])
        (by rw [Cursor.kind, passes.tail.current_eq, opened]) reads

theorem Arguments.isRead {start stop : Cursor} (others : Arguments) (formed : others.Formed)
    (passes : start.Passes others.tokens stop) :
    Reads start (.argumentsTail others.trees) stop := by
  match others with
  | .closed closing =>
      have closed : closing.kind = .rightParen := formed
      rw [← passes.tail.eq_of_nil]
      exact .argumentsEnd (by rw [Cursor.kind, passes.current_eq, closed])
  | .next comma arg others =>
      obtain ⟨isComma, ⟨inside, tight⟩, rest⟩ := formed
      obtain ⟨later, within, behind⟩ := passes.tail.split
      have head : Reads start.advance (.comparison arg.tree) later :=
        (arg.isRead inside).before tight within (others.starts rest behind)
      exact .argumentsMore (by rw [Cursor.kind, passes.current_eq, isComma]) head
        (others.isRead rest behind)

/-- Behind an argument stands a comma or the closing parenthesis. -/
theorem Arguments.starts {start stop : Cursor} (others : Arguments) (formed : others.Formed)
    (passes : start.Passes others.tokens stop) :
    start.kind ∈ [Kind.rightParen, .comma, .thenWord, .doWord, .endWord, .semicolon] := by
  match others with
  | .closed closing =>
      have closed : closing.kind = .rightParen := formed
      rw [Cursor.kind, passes.current_eq, closed]
      decide
  | .next comma arg others =>
      rw [Cursor.kind, passes.current_eq, formed.1]
      decide

end

end Concrete

end Sipl
