import Sipl.Proofs.Concrete.Terms

namespace Sipl

namespace Concrete

open Reader Cursor

/-- The term, whose tree is the expression, was taken between two cursors by a part of the reader
that yields what binds as tightly as the level. -/
structure Term.Taken (term : Term) (minimum : Precedence) (expr : Expr) (start stop : Cursor) :
    Prop where
  tree : term.tree = expr
  passes : start.Passes term.tokens stop
  formed : term.Formed
  tight : term.Tight minimum
  complete : term.absorbs stop.kind = false

/-- A product or a quotient does not go on. -/
def EndsProduct (stop : Cursor) : Prop := operatorHere? stop ArithOp.isMultiplicative = none

/-- Neither a sum or a difference nor its last operand goes on. -/
def EndsSum (stop : Cursor) : Prop :=
  EndsProduct stop ∧ operatorHere? stop ArithOp.isAdditive = none

/-- What a phrase that is read between two cursors is written as.  The parts of the reader that are
entered behind a first token, or behind a first operand, add to the term that starts there. -/
def Written (start : Cursor) (phrase : Phrase) (stop : Cursor) : Prop :=
  match phrase with
  | .disjunction expr => ∃ term : Term, term.Taken .or expr start stop
  | .disjunctionTail left expr => ∀ (front : Term) (opening : Cursor),
      front.Taken .or left opening start → ∃ term : Term, term.Taken .or expr opening stop
  | .conjunction expr => ∃ term : Term, term.Taken .and expr start stop
  | .conjunctionTail left expr => ∀ (front : Term) (opening : Cursor),
      front.Taken .and left opening start → ∃ term : Term, term.Taken .and expr opening stop
  | .comparison expr => ∃ term : Term,
      term.Taken .comparison expr start stop ∧ term.goesOn stop.kind = false
  | .additive expr => ∃ term : Term, term.Taken .additive expr start stop ∧ EndsSum stop
  | .additiveTail left expr => ∀ (front : Term) (opening : Cursor),
      front.Taken .additive left opening start → EndsProduct start →
        ∃ term : Term, term.Taken .additive expr opening stop ∧ EndsSum stop
  | .multiplicative expr => ∃ term : Term,
      term.Taken .multiplicative expr start stop ∧ EndsProduct stop
  | .unary expr => ∃ term : Term, term.Taken .unary expr start stop
  | .primary expr => ∃ term : Term, term.Taken .primary expr start stop
  | .conditional word expr => ∀ opening : Cursor, opening.kind = .ifWord →
      opening.current = word → opening.advance = start →
        ∃ term : Term, term.Taken .primary expr opening stop
  | .arguments args => ∀ opening : Cursor, opening.kind = .ident →
      opening.advance.kind = .leftParen → opening.advance.advance = start →
        ∃ term : Term, term.Taken .primary (.call ⟨opening.current.site.line,
          opening.current.site.span.merge stop.previousSpan⟩ opening.current.lexeme args)
          opening stop
  | .argumentsTail args => ∃ others : Arguments,
      others.trees = args ∧ start.Passes others.tokens stop ∧ others.Formed

variable {start later stop : Cursor} {expr left right : Expr}

theorem Term.Taken.loosen {term : Term} {tight loose : Precedence}
    (taken : term.Taken tight expr start stop) (looser : loose.rank ≤ tight.rank) :
    term.Taken loose expr start stop :=
  { taken with tight := Nat.le_trans looser taken.tight }

theorem Term.previousSpan_eq {term : Term} (passes : start.Passes term.tokens stop) :
    stop.previousSpan = term.last.site.span := by
  obtain ⟨front, same⟩ := term.tokens_eq
  rw [same] at passes
  exact passes.previousSpan

theorem Arguments.previousSpan_eq {others : Arguments}
    (passes : start.Passes others.tokens stop) : stop.previousSpan = others.last.site.span := by
  obtain ⟨front, same⟩ := others.tokens_eq
  rw [same] at passes
  exact passes.previousSpan

theorem ofKind?_of_operatorHere {strength : ArithOp → Bool} {op : ArithOp}
    (found : operatorHere? start strength = some op) :
    ArithOp.ofKind? start.kind = some op ∧ strength op = true :=
  Option.filter_eq_some_iff.mp found

/-- The strength of an operator decides what it stands between. -/
theorem levels_of_strength (op : ArithOp) :
    (op.isComparison = true →
      op.operandPrecedence = (.additive, .additive) ∧ op.precedence = .comparison) ∧
    (op.isAdditive = true →
      op.operandPrecedence = (.additive, .multiplicative) ∧ op.precedence = .additive) ∧
    (op.isMultiplicative = true →
      op.operandPrecedence = (.unary, .multiplicative) ∧ op.precedence = .multiplicative) := by
  cases op <;> decide

theorem Term.Taken.arith {front back : Term} {op : ArithOp} {strength : ArithOp → Bool}
    {opening : Cursor} {tightLeft tightRight minimum : Precedence}
    (levels : op.operandPrecedence = (tightLeft, tightRight) ∧ op.precedence = minimum)
    (first : front.Taken tightLeft left opening start)
    (operator : operatorHere? start strength = some op)
    (second : back.Taken tightRight right start.advance stop) :
    (Term.arith front start.current op back).Taken minimum
      (.arith (joinedSite start.current left right) op left right) opening stop where
  tree := by rw [Term.tree, first.tree, second.tree]
  passes := first.passes.around (inside_of_arithOp operator) second.passes
  formed := by
    refine ⟨(ofKind?_of_operatorHere operator).1, ⟨first.formed, ?_⟩, ⟨second.formed, ?_⟩,
      first.complete⟩
    · rw [levels.1]
      exact first.tight
    · rw [levels.1]
      exact second.tight
  tight := Nat.le_of_eq (congrArg Precedence.rank levels.2.symm)
  complete := second.complete

theorem Term.Taken.logical {front back : Term} {opening : Cursor} (op : LogicalOp)
    (first : front.Taken op.operandPrecedence.1 left opening start)
    (operator : start.kind = op.kind)
    (second : back.Taken op.operandPrecedence.2 right start.advance stop) :
    (Term.logical front start.current op back).Taken op.precedence
      (.logical (joinedSite start.current left right) op left right) opening stop where
  tree := by rw [Term.tree, first.tree, second.tree]
  passes := first.passes.around (by cases op <;> simp [operator, LogicalOp.kind]) second.passes
  formed := ⟨operator, ⟨first.formed, first.tight⟩, second.formed, second.tight⟩
  tight := Nat.le_refl _
  complete := second.complete

section Conditionals

variable {cond first second : Term} {condition whenTrue whenFalse : Expr}
  {opening afterCond afterThen : Cursor}

theorem Term.Taken.ifThen (ifWord : opening.kind = .ifWord)
    (tested : cond.Taken .or condition opening.advance afterCond)
    (thenWord : afterCond.kind = .thenWord)
    (taken : first.Taken .comparison whenTrue afterCond.advance stop)
    (ends : first.goesOn stop.kind = false) (other : stop.kind ≠ .elseWord) :
    (Term.ifThen opening.current cond afterCond.current first).Taken .primary
      (.ifThen ⟨opening.current.site.line, opening.current.site.span.merge stop.previousSpan⟩
        condition whenTrue) opening stop where
  tree := by
    rw [Term.tree, tested.tree, taken.tree, siteBetween, Term.previousSpan_eq taken.passes]
  passes := .cons (inside_of_kind ifWord)
    (tested.passes.around (inside_of_kind thenWord) taken.passes)
  formed := ⟨ifWord, tested.formed, thenWord, taken.formed, taken.tight⟩
  tight := Nat.le_refl _
  complete := by simp [Term.absorbs, ends, taken.complete, other]

/-- The first branch leaves the word of the second one to its own conditional. -/
theorem Term.Taken.ifElse (ifWord : opening.kind = .ifWord)
    (tested : cond.Taken .or condition opening.advance afterCond)
    (thenWord : afterCond.kind = .thenWord)
    (front : first.Taken .comparison whenTrue afterCond.advance afterThen)
    (elseWord : afterThen.kind = .elseWord)
    (back : second.Taken .comparison whenFalse afterThen.advance stop)
    (ends : second.goesOn stop.kind = false) :
    (Term.ifElse opening.current cond afterCond.current first afterThen.current second).Taken
      .primary
      (.ifElse ⟨opening.current.site.line, opening.current.site.span.merge stop.previousSpan⟩
        condition whenTrue whenFalse) opening stop where
  tree := by
    rw [Term.tree, tested.tree, front.tree, back.tree, siteBetween,
      Term.previousSpan_eq back.passes]
  passes := .cons (inside_of_kind ifWord) (tested.passes.around (inside_of_kind thenWord)
    (front.passes.around (inside_of_kind elseWord) back.passes))
  formed := by
    have complete := front.complete
    rw [elseWord] at complete
    exact ⟨ifWord, tested.formed, thenWord, ⟨front.formed, front.tight⟩, elseWord,
      ⟨back.formed, back.tight⟩, complete⟩
  tight := Nat.le_refl _
  complete := by simp [Term.absorbs, ends, back.complete]

end Conditionals

/-- Behind a sum that is not compared a comparison goes on only with a comparison operator. -/
theorem Term.goesOn_eq_false {term : Term} (ends : EndsSum stop)
    (other : term.compares = true ∨ operatorHere? stop ArithOp.isComparison = none) :
    term.goesOn stop.kind = false := by
  obtain ⟨product, sum⟩ := ends
  unfold EndsProduct operatorHere? at *
  unfold Term.goesOn
  cases known : ArithOp.ofKind? stop.kind with
  | none => rfl
  | some op =>
      rw [known] at product sum other
      cases op <;> simp_all [Option.filter, ArithOp.isMultiplicative, ArithOp.isAdditive,
        ArithOp.isComparison]

theorem written_of_reads {phrase : Phrase} (reads : Reads start phrase stop) :
    Written start phrase stop := by
  -- A tail goes on with the term in front of it, which is loosened to the level of the tail.
  induction reads with
  | disjunction _ _ ihFirst ihOthers =>
      obtain ⟨front, taken⟩ := ihFirst
      exact ihOthers front _ (taken.loosen (by decide))
  | disjunctionMore operator _ _ ihNext ihOthers =>
      intro front opening taken
      obtain ⟨back, next⟩ := ihNext
      exact ihOthers _ opening (.logical .or taken operator next)
  | disjunctionEnd => exact fun front _ taken => ⟨front, taken⟩
  | conjunction _ _ ihFirst ihOthers =>
      obtain ⟨front, taken, _⟩ := ihFirst
      exact ihOthers front _ (taken.loosen (by decide))
  | conjunctionMore operator _ _ ihNext ihOthers =>
      intro front opening taken
      obtain ⟨back, next⟩ := ihNext
      exact ihOthers _ opening (.logical .and taken operator next)
  | conjunctionEnd => exact fun front _ taken => ⟨front, taken⟩
  | comparisonBoth _ operator _ ihFirst ihSecond =>
      obtain ⟨front, first, _⟩ := ihFirst
      obtain ⟨back, second, ends⟩ := ihSecond
      have levels := (levels_of_strength _).1 (ofKind?_of_operatorHere operator).2
      exact ⟨_, .arith levels first operator second,
        Term.goesOn_eq_false ends (.inl (beq_iff_eq.mpr levels.2))⟩
  | comparisonOne _ other ihOnly =>
      obtain ⟨term, taken, ends⟩ := ihOnly
      exact ⟨term, taken.loosen (by decide), Term.goesOn_eq_false ends (.inr other)⟩
  | additive _ _ ihFirst ihOthers =>
      obtain ⟨front, taken, ends⟩ := ihFirst
      exact ihOthers front _ (taken.loosen (by decide)) ends
  | additiveMore operator _ _ ihNext ihOthers =>
      intro front opening taken _
      obtain ⟨back, next, ends⟩ := ihNext
      have levels := (levels_of_strength _).2.1 (ofKind?_of_operatorHere operator).2
      exact ihOthers _ opening (.arith levels taken operator next) ends
  | additiveEnd other => exact fun front _ taken ends => ⟨front, taken, ends, other⟩
  | multiplicativeBoth _ operator _ ihFirst ihSecond =>
      obtain ⟨front, first⟩ := ihFirst
      obtain ⟨back, second, ends⟩ := ihSecond
      have levels := (levels_of_strength _).2.2 (ofKind?_of_operatorHere operator).2
      exact ⟨_, .arith levels first operator second, ends⟩
  | multiplicativeOne _ other ihOnly =>
      obtain ⟨term, taken⟩ := ihOnly
      exact ⟨term, taken.loosen (by decide), other⟩
  | unaryOperator operator _ ihInner =>
      obtain ⟨operand, taken⟩ := ihInner
      refine ⟨.unary _ _ operand, ?_, .cons (inside_of_unaryOp operator) taken.passes,
        ⟨operator, taken.formed, taken.tight⟩, Nat.le_refl _, taken.complete⟩
      rw [Term.tree, taken.tree]
  | unaryPrimary _ _ ihOnly =>
      obtain ⟨term, taken⟩ := ihOnly
      exact ⟨term, taken.loosen (by decide)⟩
  | grouping opened _ closed ihInner =>
      obtain ⟨inner, taken, _⟩ := ihInner
      exact ⟨.group _ inner _, taken.tree,
        .cons (inside_of_kind opened) (taken.passes.concat (inside_of_kind closed)),
        ⟨opened, closed, taken.formed, taken.tight⟩, Nat.le_refl _, rfl⟩
  | choice word _ ihRest => exact ihRest _ word rfl rfl
  | number digits known =>
      exact ⟨.literal _ _, rfl, .advance (inside_of_kind digits),
        .inl ⟨digits, known, _, rfl⟩, Nat.le_refl _, rfl⟩
  | trueWord word =>
      exact ⟨.literal _ _, rfl, .advance (inside_of_kind word),
        .inr (.inl ⟨word, rfl⟩), Nat.le_refl _, rfl⟩
  | falseWord word =>
      exact ⟨.literal _ _, rfl, .advance (inside_of_kind word),
        .inr (.inr ⟨word, rfl⟩), Nat.le_refl _, rfl⟩
  | var name => exact ⟨.var _, rfl, .advance (inside_of_kind name), name, Nat.le_refl _, rfl⟩
  | call name opened _ ihInner => exact ihInner _ name opened rfl
  | conditionalBoth _ thenWord _ elseWord _ ihCondition ihFirst ihSecond =>
      intro opening ifWord word behind
      subst word behind
      obtain ⟨cond, tested⟩ := ihCondition
      obtain ⟨first, front, _⟩ := ihFirst
      obtain ⟨second, back, ends⟩ := ihSecond
      exact ⟨_, .ifElse ifWord tested thenWord front elseWord back ends⟩
  | conditionalOne _ thenWord _ other ihCondition ihOnly =>
      intro opening ifWord word behind
      subst word behind
      obtain ⟨cond, tested⟩ := ihCondition
      obtain ⟨branch, taken, ends⟩ := ihOnly
      exact ⟨_, .ifThen ifWord tested thenWord taken ends other⟩
  | noArguments closed =>
      intro opening name opened behind
      subst behind
      have passes := Passes.cons (inside_of_kind name)
        (.cons (inside_of_kind opened) (.advance (inside_of_kind closed)))
      refine ⟨.callEmpty _ _ _, ?_, passes, ⟨name, opened, closed⟩, Nat.le_refl _, rfl⟩
      rw [Term.tree, siteBetween, ((Passes.refl _).concat (inside_of_kind closed)).previousSpan]
  | arguments _ _ _ ihHead ihTail =>
      intro opening name opened behind
      subst behind
      obtain ⟨first, taken, _⟩ := ihHead
      obtain ⟨others, rfl, rest, formed⟩ := ihTail
      have passes := Passes.cons (inside_of_kind name)
        (.cons (inside_of_kind opened) (taken.passes.trans rest))
      refine ⟨.call _ _ first others, ?_, passes,
        ⟨name, opened, ⟨taken.formed, taken.tight⟩, formed⟩, Nat.le_refl _, rfl⟩
      rw [Term.tree, siteBetween, taken.tree, Arguments.previousSpan_eq rest]
  | argumentsEnd closed =>
      exact ⟨.closed _, rfl, .advance (inside_of_kind closed), closed⟩
  | argumentsMore comma _ _ ihHead ihTail =>
      obtain ⟨arg, taken, _⟩ := ihHead
      obtain ⟨others, rfl, rest, formed⟩ := ihTail
      refine ⟨.next _ arg others, ?_, .cons (inside_of_kind comma) (taken.passes.trans rest),
        comma, ⟨taken.formed, taken.tight⟩, formed⟩
      rw [Arguments.trees, taken.tree]

end Concrete

end Sipl
