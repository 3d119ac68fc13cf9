import Sipl.Proofs.Reader.Yields

namespace Sipl

namespace Reader

open Reading Cursor Keeper

/-- What a part of the reader yields. -/
inductive Phrase where
  | disjunction (expr : Expr)
  | disjunctionTail (left expr : Expr)
  | conjunction (expr : Expr)
  | conjunctionTail (left expr : Expr)
  | comparison (expr : Expr)
  | additive (expr : Expr)
  | additiveTail (left expr : Expr)
  | multiplicative (expr : Expr)
  | unary (expr : Expr)
  | primary (expr : Expr)
  | conditional (word : Token) (expr : Expr)
  | arguments (args : List Expr)
  | argumentsTail (args : List Expr)

/-- Levels of the reader that are entered without taking a token go down. -/
def Phrase.level : Phrase → Nat
  | primary _ => 2
  | unary _ => 3
  | multiplicative _ => 4
  | additiveTail _ _ => 5
  | additive _ => 6
  | comparison _ => 7
  | conjunctionTail _ _ => 8
  | conjunction _ => 9
  | disjunctionTail _ _ => 10
  | disjunction _ => 11
  | conditional _ _ => 12
  | argumentsTail _ => 13
  | arguments _ => 14

/-- A phrase is read between two cursors. -/
inductive Reads : Cursor → Phrase → Cursor → Prop where
  | disjunction {start later stop : Cursor} {left expr : Expr}
      (first : Reads start (.conjunction left) later)
      (others : Reads later (.disjunctionTail left expr) stop) :
      Reads start (.disjunction expr) stop
  | disjunctionMore {start later stop : Cursor} {left right expr : Expr}
      (operator : start.kind = .orWord)
      (next : Reads start.advance (.conjunction right) later)
      (others : Reads later (.disjunctionTail
        (.logical (joinedSite start.current left right) .or left right) expr) stop) :
      Reads start (.disjunctionTail left expr) stop
  | disjunctionEnd {stop : Cursor} {expr : Expr} (other : stop.kind ≠ .orWord) :
      Reads stop (.disjunctionTail expr expr) stop
  | conjunction {start later stop : Cursor} {left expr : Expr}
      (first : Reads start (.comparison left) later)
      (others : Reads later (.conjunctionTail left expr) stop) :
      Reads start (.conjunction expr) stop
  | conjunctionMore {start later stop : Cursor} {left right expr : Expr}
      (operator : start.kind = .andWord)
      (next : Reads start.advance (.unary right) later)
      (others : Reads later (.conjunctionTail
        (.logical (joinedSite start.current left right) .and left right) expr) stop) :
      Reads start (.conjunctionTail left expr) stop
  | conjunctionEnd {stop : Cursor} {expr : Expr} (other : stop.kind ≠ .andWord) :
      Reads stop (.conjunctionTail expr expr) stop
  | comparisonBoth {start later stop : Cursor} {op : ArithOp} {left right : Expr}
      (first : Reads start (.additive left) later)
      (operator : operatorHere? later ArithOp.isComparison = some op)
      (second : Reads later.advance (.additive right) stop) :
      Reads start (.comparison (.arith (joinedSite later.current left right) op left right)) stop
  | comparisonOne {start stop : Cursor} {expr : Expr}
      (only : Reads start (.additive expr) stop)
      (other : operatorHere? stop ArithOp.isComparison = none) :
      Reads start (.comparison expr) stop
  | additive {start later stop : Cursor} {left expr : Expr}
      (first : Reads start (.multiplicative left) later)
      (others : Reads later (.additiveTail left expr) stop) :
      Reads start (.additive expr) stop
  | additiveMore {start later stop : Cursor} {op : ArithOp} {left right expr : Expr}
      (operator : operatorHere? start ArithOp.isAdditive = some op)
      (next : Reads start.advance (.multiplicative right) later)
      (others : Reads later (.additiveTail
        (.arith (joinedSite start.current left right) op left right) expr) stop) :
      Reads start (.additiveTail left expr) stop
  | additiveEnd {stop : Cursor} {expr : Expr}
      (other : operatorHere? stop ArithOp.isAdditive = none) :
      Reads stop (.additiveTail expr expr) stop
  | multiplicativeBoth {start later stop : Cursor} {op : ArithOp} {left right : Expr}
      (first : Reads start (.unary left) later)
      (operator : operatorHere? later ArithOp.isMultiplicative = some op)
      (second : Reads later.advance (.multiplicative right) stop) :
      Reads start (.multiplicative (.arith (joinedSite later.current left right) op left right))
        stop
  | multiplicativeOne {start stop : Cursor} {expr : Expr}
      (only : Reads start (.unary expr) stop)
      (other : operatorHere? stop ArithOp.isMultiplicative = none) :
      Reads start (.multiplicative expr) stop
  | unaryOperator {start stop : Cursor} {op : UnaryOp} {operand : Expr}
      (operator : UnaryOp.ofKind? start.kind = some op)
      (inner : Reads start.advance (.unary operand) stop) :
      Reads start (.unary (.unary ⟨start.current.site.line,
        start.current.site.span.merge operand.span⟩ op operand)) stop
  | unaryPrimary {start stop : Cursor} {expr : Expr}
      (other : UnaryOp.ofKind? start.kind = none)
      (only : Reads start (.primary expr) stop) :
      Reads start (.unary expr) stop
  | grouping {start later : Cursor} {expr : Expr}
      (opened : start.kind = .leftParen)
      (inner : Reads start.advance (.comparison expr) later)
      (closed : later.kind = .rightParen) :
      Reads start (.primary expr) later.advance
  | choice {start stop : Cursor} {expr : Expr}
      (word : start.kind = .ifWord)
      (rest : Reads start.advance (.conditional start.current expr) stop) :
      Reads start (.primary expr) stop
  | number {start : Cursor} {value : Int}
      (digits : start.kind = .number)
      (known : start.current.literal? = some (.int value)) :
      Reads start (.primary (.literal start.current.site (.int value))) start.advance
  | trueWord {start : Cursor} (word : start.kind = .trueWord) :
      Reads start (.primary (.literal start.current.site (.bool true))) start.advance
  | falseWord {start : Cursor} (word : start.kind = .falseWord) :
      Reads start (.primary (.literal start.current.site (.bool false))) start.advance
  | var {start : Cursor} (name : start.kind = .ident)
      (other : start.advance.kind ≠ .leftParen) :
      Reads start (.primary (.var start.current.site start.current.lexeme)) start.advance
  | call {start stop : Cursor} {args : List Expr}
      (name : start.kind = .ident)
      (opened : start.advance.kind = .leftParen)
      (inner : Reads start.advance.advance (.arguments args) stop) :
      Reads start (.primary (.call ⟨start.current.site.line,
        start.current.site.span.merge stop.previousSpan⟩ start.current.lexeme args)) stop
  | conditionalBoth {start afterCond afterThen stop : Cursor} {word : Token}
      {cond thenBranch elseBranch : Expr}
      (condition : Reads start (.disjunction cond) afterCond)
      (thenWord : afterCond.kind = .thenWord)
      (first : Reads afterCond.advance (.comparison thenBranch) afterThen)
      (elseWord : afterThen.kind = .elseWord)
      (second : Reads afterThen.advance (.comparison elseBranch) stop) :
      Reads start (.conditional word (.ifElse ⟨word.site.line,
        word.site.span.merge stop.previousSpan⟩ cond thenBranch elseBranch)) stop
  | conditionalOne {start afterCond stop : Cursor} {word : Token} {cond thenBranch : Expr}
      (condition : Reads start (.disjunction cond) afterCond)
      (thenWord : afterCond.kind = .thenWord)
      (only : Reads afterCond.advance (.comparison thenBranch) stop)
      (other : stop.kind ≠ .elseWord) :
      Reads start (.conditional word (.ifThen ⟨word.site.line,
        word.site.span.merge stop.previousSpan⟩ cond thenBranch)) stop
  | noArguments {start : Cursor} (closed : start.kind = .rightParen) :
      Reads start (.arguments []) start.advance
  | arguments {start later stop : Cursor} {first : Expr} {others : List Expr}
      (more : start.kind ≠ .rightParen)
      (head : Reads start (.comparison first) later)
      (tail : Reads later (.argumentsTail others) stop) :
      Reads start (.arguments (first :: others)) stop
  | argumentsEnd {start : Cursor} (closed : start.kind = .rightParen) :
      Reads start (.argumentsTail []) start.advance
  | argumentsMore {start later stop : Cursor} {next : Expr} {others : List Expr}
      (comma : start.kind = .comma)
      (head : Reads start.advance (.comparison next) later)
      (tail : Reads later (.argumentsTail others) stop) :
      Reads start (.argumentsTail (next :: others)) stop

section Levels

theorem inside_of_kind {cursor : Cursor} {kind : Kind} (here : cursor.kind = kind)
    (other : kind ≠ .eof := by decide) : cursor.kind ≠ .eof := here ▸ other

variable {start stop : Cursor} {left expr : Expr} {args : List Expr}

theorem yields_disjunction : (trees.disjunction start).Yields expr stop ↔
    ∃ left later, (trees.conjunction start).Yields left later ∧
      (trees.disjunctionTail left later).Yields expr stop := by
  rw [disjunction, during_trees]
  simp only [yields_andThen, exists_prop]

theorem yields_disjunctionTail : (trees.disjunctionTail left start).Yields expr stop ↔
    (start.kind = .orWord ∧ ∃ right later, (trees.conjunction start.advance).Yields right later ∧
      (trees.disjunctionTail (.logical (joinedSite start.current left right) .or left right)
        later).Yields expr stop) ∨
    (start.kind ≠ .orWord ∧ left = expr ∧ start = stop) := by
  rw [disjunctionTail]
  by_cases found : start.kind = .orWord
  · simp [found, yields_andThen]
  · simp [found]

theorem yields_conjunction : (trees.conjunction start).Yields expr stop ↔
    ∃ left later, (trees.comparison start).Yields left later ∧
      (trees.conjunctionTail left later).Yields expr stop := by
  rw [conjunction, during_trees]
  simp only [yields_andThen, exists_prop]

theorem yields_conjunctionTail : (trees.conjunctionTail left start).Yields expr stop ↔
    (start.kind = .andWord ∧ ∃ right later, (trees.unary start.advance).Yields right later ∧
      (trees.conjunctionTail (.logical (joinedSite start.current left right) .and left right)
        later).Yields expr stop) ∨
    (start.kind ≠ .andWord ∧ left = expr ∧ start = stop) := by
  rw [conjunctionTail]
  by_cases found : start.kind = .andWord
  · simp [found, yields_andThen]
  · simp [found]

theorem yields_comparison : (trees.comparison start).Yields expr stop ↔
    ∃ left later, (trees.additive start).Yields left later ∧
      ((∃ op, operatorHere? later ArithOp.isComparison = some op ∧
          ∃ right, (trees.additive later.advance).Yields right stop ∧
            .arith (joinedSite later.current left right) op left right = expr) ∨
        (operatorHere? later ArithOp.isComparison = none ∧ left = expr ∧ later = stop)) := by
  rw [comparison, during_trees]
  simp only [yields_andThen, exists_prop]
  refine exists_congr fun left => exists_congr fun later => and_congr_right fun _ => ?_
  split
  · next op found => simp [found, yields_finish]
  · next missing => simp [missing]

theorem yields_additive : (trees.additive start).Yields expr stop ↔
    ∃ left later, (trees.multiplicative start).Yields left later ∧
      (trees.additiveTail left later).Yields expr stop := by
  rw [additive, during_trees]
  simp only [yields_andThen, exists_prop]

theorem yields_additiveTail : (trees.additiveTail left start).Yields expr stop ↔
    (∃ op, operatorHere? start ArithOp.isAdditive = some op ∧
      ∃ right later, (trees.multiplicative start.advance).Yields right later ∧
        (trees.additiveTail (.arith (joinedSite start.current left right) op left right)
          later).Yields expr stop) ∨
    (operatorHere? start ArithOp.isAdditive = none ∧ left = expr ∧ start = stop) := by
  rw [additiveTail]
  split
  · next op found => simp [found, yields_andThen]
  · next missing => simp [missing]

theorem yields_multiplicative : (trees.multiplicative start).Yields expr stop ↔
    ∃ left later, (trees.unary start).Yields left later ∧
      ((∃ op, operatorHere? later ArithOp.isMultiplicative = some op ∧
          ∃ right, (trees.multiplicative later.advance).Yields right stop ∧
            .arith (joinedSite later.current left right) op left right = expr) ∨
        (operatorHere? later ArithOp.isMultiplicative = none ∧ left = expr ∧ later = stop)) := by
  rw [multiplicative, during_trees]
  simp only [yields_andThen, exists_prop]
  refine exists_congr fun left => exists_congr fun later => and_congr_right fun _ => ?_
  split
  · next op found => simp [found, yields_finish]
  · next missing => simp [missing]

theorem yields_unary : (trees.unary start).Yields expr stop ↔
    (∃ op, UnaryOp.ofKind? start.kind = some op ∧
      ∃ operand, (trees.unary start.advance).Yields operand stop ∧
        .unary ⟨start.current.site.line, start.current.site.span.merge operand.span⟩ op operand =
          expr) ∨
    (UnaryOp.ofKind? start.kind = none ∧ (trees.primary start).Yields expr stop) := by
  rw [unary, during_trees]
  split
  · next op found => simp [found, yields_finish]
  · next missing => simp [missing]

theorem yields_group (opened : start.kind = .leftParen) : (trees.primary start).Yields expr stop ↔
    ∃ later, (trees.comparison start.advance).Yields expr later ∧ later.kind = .rightParen ∧
      later.advance = stop := by
  rw [primary, during_trees]
  split
  case h_1 =>
    simp only [yields_take, yields_andThen, yields_finish, yields_expect]
    constructor
    · rintro ⟨_, later, inner, _, ⟨closed, _, ended⟩, rfl⟩
      exact ⟨later, inner, closed, ended⟩
    · rintro ⟨later, inner, closed, ended⟩
      exact ⟨_, later, inner, _, ⟨closed, rfl, ended⟩, rfl⟩
  all_goals simp_all

theorem yields_choice (word : start.kind = .ifWord) : (trees.primary start).Yields expr stop ↔
    (trees.conditional start.current start.advance).Yields expr stop := by
  rw [primary, during_trees]
  split
  case h_2 => exact yields_take
  all_goals simp_all

theorem yields_number (digits : start.kind = .number) : (trees.primary start).Yields expr stop ↔
    ∃ value, start.current.literal? = some (.int value) ∧
      .literal start.current.site (.int value) = expr ∧ start.advance = stop := by
  rw [primary, during_trees]
  split
  case h_3 =>
    split
    · next known => simp [known]
    · next missing => simpa using fun value known => absurd known (missing value)
  all_goals simp_all

theorem yields_truth (truth : Bool) (word : start.kind = if truth then .trueWord else .falseWord) :
    (trees.primary start).Yields expr stop ↔
      .literal start.current.site (.bool truth) = expr ∧ start.advance = stop := by
  rw [primary, during_trees]
  cases truth with
  | true =>
      split
      case h_4 => exact yields_take.trans yields_done
      all_goals simp_all
  | false =>
      split
      case h_5 => exact yields_take.trans yields_done
      all_goals simp_all

theorem yields_call {name : Token} : (trees.call name start).Yields expr stop ↔
    start.kind = .leftParen ∧ ∃ args, (trees.arguments start.advance).Yields args stop ∧
      .call ⟨name.site.line, name.site.span.merge stop.previousSpan⟩ name.lexeme args = expr := by
  rw [call]
  simp only [yields_andThen, yields_expect, yields_finish, exists_prop]
  constructor
  · rintro ⟨_, _, ⟨opened, _, rfl⟩, inner⟩
    exact ⟨opened, inner⟩
  · rintro ⟨opened, inner⟩
    exact ⟨_, _, ⟨opened, rfl, rfl⟩, inner⟩

theorem yields_name (name : start.kind = .ident) : (trees.primary start).Yields expr stop ↔
    (start.advance.kind = .leftParen ∧
      ∃ args, (trees.arguments start.advance.advance).Yields args stop ∧
        .call ⟨start.current.site.line, start.current.site.span.merge stop.previousSpan⟩
          start.current.lexeme args = expr) ∨
    (start.advance.kind ≠ .leftParen ∧
      .var start.current.site start.current.lexeme = expr ∧ start.advance = stop) := by
  rw [primary, during_trees]
  split
  case h_6 =>
    rw [← kind_advance (inside_of_kind name)]
    by_cases opened : start.advance.kind = .leftParen
    · simp [opened, yields_call]
    · simp [opened]
  all_goals simp_all

theorem primary_eq_fail
    (other : start.kind ∉ [.leftParen, .ifWord, .number, .trueWord, .falseWord, .ident]) :
    trees.primary start = .fail .expectedExpression "expected expression" := by
  rw [primary, during_trees]
  split
  case h_7 => rfl
  all_goals simp_all

theorem yields_conditional {word : Token} : (trees.conditional word start).Yields expr stop ↔
    ∃ cond afterCond, (trees.disjunction start).Yields cond afterCond ∧ afterCond.kind = .thenWord ∧
      ∃ thenBranch afterThen, (trees.comparison afterCond.advance).Yields thenBranch afterThen ∧
        ((afterThen.kind = .elseWord ∧
            ∃ elseBranch, (trees.comparison afterThen.advance).Yields elseBranch stop ∧
              .ifElse ⟨word.site.line, word.site.span.merge stop.previousSpan⟩ cond thenBranch
                elseBranch = expr) ∨
          (afterThen.kind ≠ .elseWord ∧
            .ifThen ⟨word.site.line, word.site.span.merge afterThen.previousSpan⟩ cond thenBranch =
              expr ∧ afterThen = stop)) := by
  rw [conditional]
  simp only [yields_andThen, yields_expect, exists_prop]
  refine exists_congr fun cond => exists_congr fun afterCond => and_congr_right fun _ => ?_
  constructor
  · rintro ⟨_, _, ⟨thenWord, rfl, rfl⟩, thenBranch, afterThen, first, rest⟩
    refine ⟨thenWord, thenBranch, afterThen, first, ?_⟩
    by_cases elseWord : afterThen.kind = .elseWord
    · rw [dif_pos elseWord, yields_take, yields_finish] at rest
      exact .inl ⟨elseWord, rest⟩
    · rw [dif_neg elseWord, bind_trees, pure_trees, yields_done] at rest
      exact .inr ⟨elseWord, rest⟩
  · rintro ⟨thenWord, thenBranch, afterThen, first, rest⟩
    refine ⟨_, _, ⟨thenWord, rfl, rfl⟩, thenBranch, afterThen, first, ?_⟩
    rcases rest with ⟨elseWord, rest⟩ | ⟨other, rest⟩
    · rw [dif_pos elseWord, yields_take, yields_finish]
      exact rest
    · rw [dif_neg other, bind_trees, pure_trees, yields_done]
      exact rest

theorem yields_arguments : (trees.arguments start).Yields args stop ↔
    (start.kind = .rightParen ∧ [] = args ∧ start.advance = stop) ∨
    (start.kind ≠ .rightParen ∧ ∃ first later, (trees.comparison start).Yields first later ∧
      ∃ others, (trees.argumentsTail later).Yields others stop ∧ first :: others = args) := by
  rw [arguments]
  by_cases closed : start.kind = .rightParen
  · simp [closed]
  · simp [closed, yields_andThen, yields_finish]

theorem yields_argumentsTail : (trees.argumentsTail start).Yields args stop ↔
    (start.kind = .rightParen ∧ [] = args ∧ start.advance = stop) ∨
    (start.kind = .comma ∧ ∃ next later, (trees.comparison start.advance).Yields next later ∧
      ∃ others, (trees.argumentsTail later).Yields others stop ∧ next :: others = args) := by
  rw [argumentsTail]
  by_cases closed : start.kind = .rightParen
  · simp [closed]
  · by_cases comma : start.kind = .comma
    · simp [comma, yields_andThen, yields_finish]
    · simp [closed, comma]

end Levels

/-- A phrase is the result of the part of the reader that it names. -/
def Yielded (start : Cursor) (phrase : Phrase) (stop : Cursor) : Prop :=
  match phrase with
  | .disjunction expr => (trees.disjunction start).Yields expr stop
  | .disjunctionTail left expr => (trees.disjunctionTail left start).Yields expr stop
  | .conjunction expr => (trees.conjunction start).Yields expr stop
  | .conjunctionTail left expr => (trees.conjunctionTail left start).Yields expr stop
  | .comparison expr => (trees.comparison start).Yields expr stop
  | .additive expr => (trees.additive start).Yields expr stop
  | .additiveTail left expr => (trees.additiveTail left start).Yields expr stop
  | .multiplicative expr => (trees.multiplicative start).Yields expr stop
  | .unary expr => (trees.unary start).Yields expr stop
  | .primary expr => (trees.primary start).Yields expr stop
  | .conditional word expr => (trees.conditional word start).Yields expr stop
  | .arguments args => (trees.arguments start).Yields args stop
  | .argumentsTail args => (trees.argumentsTail start).Yields args stop

theorem yielded_of_reads {start stop : Cursor} {phrase : Phrase}
    (reads : Reads start phrase stop) : Yielded start phrase stop := by
  induction reads with
  | disjunction first others ihFirst ihOthers =>
      exact yields_disjunction.mpr ⟨_, _, ihFirst, ihOthers⟩
  | disjunctionMore operator next others ihNext ihOthers =>
      exact yields_disjunctionTail.mpr (.inl ⟨operator, _, _, ihNext, ihOthers⟩)
  | disjunctionEnd other => exact yields_disjunctionTail.mpr (.inr ⟨other, rfl, rfl⟩)
  | conjunction first others ihFirst ihOthers =>
      exact yields_conjunction.mpr ⟨_, _, ihFirst, ihOthers⟩
  | conjunctionMore operator next others ihNext ihOthers =>
      exact yields_conjunctionTail.mpr (.inl ⟨operator, _, _, ihNext, ihOthers⟩)
  | conjunctionEnd other => exact yields_conjunctionTail.mpr (.inr ⟨other, rfl, rfl⟩)
  | comparisonBoth first operator second ihFirst ihSecond =>
      exact yields_comparison.mpr ⟨_, _, ihFirst, .inl ⟨_, operator, _, ihSecond, rfl⟩⟩
  | comparisonOne only other ihOnly =>
      exact yields_comparison.mpr ⟨_, _, ihOnly, .inr ⟨other, rfl, rfl⟩⟩
  | additive first others ihFirst ihOthers =>
      exact yields_additive.mpr ⟨_, _, ihFirst, ihOthers⟩
  | additiveMore operator next others ihNext ihOthers =>
      exact yields_additiveTail.mpr (.inl ⟨_, operator, _, _, ihNext, ihOthers⟩)
  | additiveEnd other => exact yields_additiveTail.mpr (.inr ⟨other, rfl, rfl⟩)
  | multiplicativeBoth first operator second ihFirst ihSecond =>
      exact yields_multiplicative.mpr ⟨_, _, ihFirst, .inl ⟨_, operator, _, ihSecond, rfl⟩⟩
  | multiplicativeOne only other ihOnly =>
      exact yields_multiplicative.mpr ⟨_, _, ihOnly, .inr ⟨other, rfl, rfl⟩⟩
  | unaryOperator operator inner ihInner =>
      exact yields_unary.mpr (.inl ⟨_, operator, _, ihInner, rfl⟩)
  | unaryPrimary other only ihOnly => exact yields_unary.mpr (.inr ⟨other, ihOnly⟩)
  | grouping opened inner closed ihInner =>
      exact (yields_group opened).mpr ⟨_, ihInner, closed, rfl⟩
  | choice word rest ihRest => exact (yields_choice word).mpr ihRest
  | number digits known => exact (yields_number digits).mpr ⟨_, known, rfl, rfl⟩
  | trueWord word => exact (yields_truth true word).mpr ⟨rfl, rfl⟩
  | falseWord word => exact (yields_truth false word).mpr ⟨rfl, rfl⟩
  | var name other => exact (yields_name name).mpr (.inr ⟨other, rfl, rfl⟩)
  | call name opened inner ihInner =>
      exact (yields_name name).mpr (.inl ⟨opened, _, ihInner, rfl⟩)
  | conditionalBoth condition thenWord first elseWord second ihCondition ihFirst ihSecond =>
      exact yields_conditional.mpr ⟨_, _, ihCondition, thenWord, _, _, ihFirst,
        .inl ⟨elseWord, _, ihSecond, rfl⟩⟩
  | conditionalOne condition thenWord only other ihCondition ihOnly =>
      exact yields_conditional.mpr ⟨_, _, ihCondition, thenWord, _, _, ihOnly,
        .inr ⟨other, rfl, rfl⟩⟩
  | noArguments closed => exact yields_arguments.mpr (.inl ⟨closed, rfl, rfl⟩)
  | arguments more head tail ihHead ihTail =>
      exact yields_arguments.mpr (.inr ⟨more, _, _, ihHead, _, ihTail, rfl⟩)
  | argumentsEnd closed => exact yields_argumentsTail.mpr (.inl ⟨closed, rfl, rfl⟩)
  | argumentsMore comma head tail ihHead ihTail =>
      exact yields_argumentsTail.mpr (.inr ⟨comma, _, _, ihHead, _, ihTail, rfl⟩)

theorem reads_of_yielded {start stop : Cursor} (phrase : Phrase)
    (yielded : Yielded start phrase stop) : Reads start phrase stop := by
  -- A part is read at a lower level, or with fewer tokens left: the bounds are for the measure.
  match phrase with
  | .disjunction expr =>
      obtain ⟨left, later, first, others⟩ := yields_disjunction.mp yielded
      have bound := first.bound
      exact .disjunction (reads_of_yielded _ first) (reads_of_yielded _ others)
  | .disjunctionTail left expr =>
      rcases yields_disjunctionTail.mp yielded with
        ⟨operator, right, later, next, others⟩ | ⟨other, rfl, rfl⟩
      · have less := remaining_advance_lt (inside_of_kind operator)
        have bound := next.bound
        exact .disjunctionMore operator (reads_of_yielded _ next) (reads_of_yielded _ others)
      · exact .disjunctionEnd other
  | .conjunction expr =>
      obtain ⟨left, later, first, others⟩ := yields_conjunction.mp yielded
      have bound := first.bound
      exact .conjunction (reads_of_yielded _ first) (reads_of_yielded _ others)
  | .conjunctionTail left expr =>
      rcases yields_conjunctionTail.mp yielded with
        ⟨operator, right, later, next, others⟩ | ⟨other, rfl, rfl⟩
      · have less := remaining_advance_lt (inside_of_kind operator)
        have bound := next.bound
        exact .conjunctionMore operator (reads_of_yielded _ next) (reads_of_yielded _ others)
      · exact .conjunctionEnd other
  | .comparison expr =>
      obtain ⟨left, later, first, others⟩ := yields_comparison.mp yielded
      have bound := first.bound
      rcases others with ⟨op, operator, right, second, rfl⟩ | ⟨other, rfl, rfl⟩
      · have less := remaining_advance_lt (inside_of_arithOp operator)
        exact .comparisonBoth (reads_of_yielded _ first) operator (reads_of_yielded _ second)
      · exact .comparisonOne (reads_of_yielded _ first) other
  | .additive expr =>
      obtain ⟨left, later, first, others⟩ := yields_additive.mp yielded
      have bound := first.bound
      exact .additive (reads_of_yielded _ first) (reads_of_yielded _ others)
  | .additiveTail left expr =>
      rcases yields_additiveTail.mp yielded with
        ⟨op, operator, right, later, next, others⟩ | ⟨other, rfl, rfl⟩
      · have less := remaining_advance_lt (inside_of_arithOp operator)
        have bound := next.bound
        exact .additiveMore operator (reads_of_yielded _ next) (reads_of_yielded _ others)
      · exact .additiveEnd other
  | .multiplicative expr =>
      obtain ⟨left, later, first, others⟩ := yields_multiplicative.mp yielded
      have bound := first.bound
      rcases others with ⟨op, operator, right, second, rfl⟩ | ⟨other, rfl, rfl⟩
      · have less := remaining_advance_lt (inside_of_arithOp operator)
        exact .multiplicativeBoth (reads_of_yielded _ first) operator (reads_of_yielded _ second)
      · exact .multiplicativeOne (reads_of_yielded _ first) other
  | .unary expr =>
      rcases yields_unary.mp yielded with ⟨op, operator, operand, inner, rfl⟩ | ⟨other, only⟩
      · have less := remaining_advance_lt (inside_of_unaryOp operator)
        exact .unaryOperator operator (reads_of_yielded _ inner)
      · exact .unaryPrimary other (reads_of_yielded _ only)
  | .primary expr =>
      by_cases opened : start.kind = .leftParen
      · obtain ⟨later, inner, closed, rfl⟩ := (yields_group opened).mp yielded
        have less := remaining_advance_lt (inside_of_kind opened)
        exact .grouping opened (reads_of_yielded _ inner) closed
      by_cases word : start.kind = .ifWord
      · have less := remaining_advance_lt (inside_of_kind word)
        exact .choice word (reads_of_yielded _ ((yields_choice word).mp yielded))
      by_cases digits : start.kind = .number
      · obtain ⟨value, known, rfl, rfl⟩ := (yields_number digits).mp yielded
        exact .number digits known
      by_cases truth : start.kind = .trueWord
      · obtain ⟨rfl, rfl⟩ := (yields_truth true truth).mp yielded
        exact .trueWord truth
      by_cases falsehood : start.kind = .falseWord
      · obtain ⟨rfl, rfl⟩ := (yields_truth false falsehood).mp yielded
        exact .falseWord falsehood
      by_cases name : start.kind = .ident
      · have less := remaining_advance_lt (inside_of_kind name)
        rcases (yields_name name).mp yielded with ⟨opened, args, inner, rfl⟩ | ⟨other, rfl, rfl⟩
        · have lesser := remaining_advance_lt (inside_of_kind opened)
          exact .call name opened (reads_of_yielded _ inner)
        · exact .var name other
      · rw [Yielded, primary_eq_fail (by simp_all)] at yielded
        exact absurd yielded yields_fail
  | .conditional word expr =>
      obtain ⟨cond, afterCond, condition, thenWord, branch, afterThen, first, rest⟩ :=
        yields_conditional.mp yielded
      have condBound := condition.bound
      have thenLess := remaining_advance_lt (inside_of_kind thenWord)
      have thenBound := first.bound
      rcases rest with ⟨elseWord, other, second, rfl⟩ | ⟨other, rfl, rfl⟩
      · have elseLess := remaining_advance_lt (inside_of_kind elseWord)
        exact .conditionalBoth (reads_of_yielded _ condition) thenWord (reads_of_yielded _ first)
          elseWord (reads_of_yielded _ second)
      · exact .conditionalOne (reads_of_yielded _ condition) thenWord (reads_of_yielded _ first)
          other
  | .arguments args =>
      rcases yields_arguments.mp yielded with
        ⟨closed, rfl, rfl⟩ | ⟨more, first, later, head, others, tail, rfl⟩
      · exact .noArguments closed
      · have bound := head.bound
        exact .arguments more (reads_of_yielded _ head) (reads_of_yielded _ tail)
  | .argumentsTail args =>
      rcases yields_argumentsTail.mp yielded with
        ⟨closed, rfl, rfl⟩ | ⟨comma, first, later, head, others, tail, rfl⟩
      · exact .argumentsEnd closed
      · have less := remaining_advance_lt (inside_of_kind comma)
        have bound := head.bound
        exact .argumentsMore comma (reads_of_yielded _ head) (reads_of_yielded _ tail)
termination_by start.remaining * 16 + phrase.level
decreasing_by all_goals (simp only [Phrase.level]; omega)

end Reader

end Sipl
