import Sipl.Proofs.Concrete.Mirrors

namespace Sipl

open Concrete Ink

/-- What is written for operators. -/
def operatorWords : List String :=
  [UnaryOp.neg, .not].map UnaryOp.symbol ++ ArithOp.all.map ArithOp.symbol ++
    [LogicalOp.and, .or].map LogicalOp.symbol

theorem UnaryOp.symbol_mem (op : UnaryOp) : op.symbol ∈ operatorWords := by
  cases op <;> decide

theorem ArithOp.symbol_mem (op : ArithOp) : op.symbol ∈ operatorWords := by
  cases op <;> decide

theorem LogicalOp.symbol_mem (op : LogicalOp) : op.symbol ∈ operatorWords := by
  cases op <;> decide

/-- Behind a name, parentheses hold arguments or parameters. -/
def BehindName (front : List String) : Prop := ∃ name ∈ front.getLast?, IsName name

/-- The parentheses hold a conditional, and an operator stands next to them. -/
def AroundOperand (front middle back : List String) : Prop :=
  middle.head? = some "if" ∧
    ∃ word ∈ operatorWords, front.getLast? = some word ∨ back.head? = some word

section Around

variable {front middle back ahead behind : List String}

theorem BehindName.append (named : BehindName front) : BehindName (ahead ++ front) := by
  obtain ⟨name, last, named⟩ := named
  exact ⟨name, List.mem_getLast?_append_of_mem_getLast? last, named⟩

theorem BehindName.cons {word : String} (named : BehindName front) : BehindName (word :: front) :=
  show BehindName ([word] ++ front) from named.append

theorem AroundOperand.append_left (around : AroundOperand front middle back) :
    AroundOperand (ahead ++ front) middle back := by
  obtain ⟨conditional, word, listed, next⟩ := around
  refine ⟨conditional, word, listed, next.imp_left fun last => ?_⟩
  rw [List.getLast?_append, last]
  rfl

theorem AroundOperand.cons {word : String} (around : AroundOperand front middle back) :
    AroundOperand (word :: front) middle back :=
  show AroundOperand ([word] ++ front) middle back from around.append_left

theorem AroundOperand.append_right (around : AroundOperand front middle back) :
    AroundOperand front middle (back ++ behind) := by
  obtain ⟨conditional, word, listed, next⟩ := around
  refine ⟨conditional, word, listed, next.imp_right fun first => ?_⟩
  rw [List.head?_append, first]
  rfl

end Around

/-- Each pair of parentheses in what is written for the expression is needed, or stands around a
conditional that is an operand. -/
def Expr.NeedsPairs (expr : Expr) : Prop :=
  ∀ (depth : Nat) (term : Term) (front middle back : List String),
    Pair wordSide (words expr.inks) front middle back → ¬ BehindName front →
      term.Mirrors expr depth (front ++ (middle ++ back)) → AroundOperand front middle back

namespace Expr

variable {expr : Expr} {term : Term} {depth : Nat} {front middle back : List String}

/-- A pair in what may be grouped is the group itself, or one that is not needed. -/
theorem NeedsPairs.grouped (needs : expr.NeedsPairs) (writable : expr.Writable) {needed : Bool}
    (pair : Pair wordSide (words (Ink.grouped needed expr.inks)) front middle back)
    (free : ¬ BehindName front)
    (mirrors : term.Mirrors expr depth (front ++ (middle ++ back))) :
    (needed = true ∧ front = [] ∧ middle = words expr.inks ∧ back = []) ∨
      AroundOperand front middle back := by
  rw [words_grouped] at pair
  cases needed with
  | false => exact .inr (needs depth term front middle back pair free mirrors)
  | true =>
      rw [if_pos rfl] at pair
      rcases pair.enclosed (expr.counted writable).balanced with
        outer | ⟨rest, more, within, rfl, rfl⟩
      · exact .inl ⟨rfl, outer⟩
      · have split : "(" :: rest ++ (middle ++ (more ++ [")"])) =
            "(" :: (rest ++ (middle ++ more) ++ [")"]) := by
          simp only [List.cons_append, List.append_assoc]
        rw [split] at mirrors
        obtain ⟨_, inner, _, rfl, inside⟩ :=
          mirrors.group (within.without (expr.counted writable).balanced)
        have around := needs _ inner rest middle more within
          (free ∘ BehindName.cons) inside
        exact .inr around.append_right.cons

theorem head?_words_of_isConditional (conditional : expr.isConditional = true) :
    (words expr.inks).head? = some "if" := by
  cases expr with
  | ifThen => rfl
  | ifElse => rfl
  | _ => cases conditional

/-- Words that are written for an expression stand no deeper than the expression. -/
theorem mem_depths_words (writable : expr.Writable) :
    depth ∈ depths wordSide depth (words expr.inks) := by
  have head {word : String} {words : List String} (plain : wordSide word = .inner) :
      depth ∈ depths wordSide depth (word :: words) := by
    rw [depths_inner plain]
    exact List.mem_cons_self
  have behind {front back : List String} {number : Nat} (counted : Counted front number)
      (member : depth ∈ depths wordSide depth back) :
      depth ∈ depths wordSide depth (front ++ back) := by
    rw [counted.balanced.depths_append]
    exact List.mem_append_right _ member
  cases expr with
  | literal _ value => exact head (Literal.wordSide_text writable)
  | var _ name => exact head (wordSide_of_isName writable)
  | unary _ op operand =>
      rw [words_unary]
      exact head op.wordSide_symbol
  | arith _ op left right =>
      rw [words_arith]
      exact behind ((left.counted writable.1.1).grouped _) (head op.wordSide_symbol)
  | logical _ op left right =>
      rw [words_logical]
      exact behind ((left.counted writable.1.1).grouped _) (head op.wordSide_symbol)
  | ifThen | ifElse => exact head rfl
  | call _ callee args => exact head (wordSide_of_isName writable.1)

theorem precedence_of_bare (same : term.tree.unplaced = expr.unplaced)
    (bare : term.isGroup = false) : term.precedence = expr.precedence := by
  rw [← precedence_unplaced, ← same, precedence_unplaced]
  cases term with
  | group => cases bare
  | _ => rfl

/-- The group of an operand is needed, if the operand is no conditional. -/
theorem NeedsPairs.operand (needs : expr.NeedsPairs) (writable : expr.Writable)
    {minimum : Precedence}
    (pair : Pair wordSide (words (Ink.grouped (expr.looseOperand minimum) expr.inks)) front middle
      back)
    (free : ¬ BehindName front)
    (mirrors : term.Mirrors expr depth (front ++ (middle ++ back))) (tight : term.Tight minimum) :
    (front = [] ∧ middle.head? = some "if" ∧ back = []) ∨ AroundOperand front middle back := by
  rcases needs.grouped writable pair free mirrors with ⟨loose, rfl, rfl, rfl⟩ | around
  · refine .inl ⟨rfl, head?_words_of_isConditional ?_, rfl⟩
    rw [looseOperand, Bool.or_eq_true] at loose
    -- Grouped for its level alone, the operand has no parentheses left, and is too loose.
    refine loose.resolve_right fun loose => ?_
    rw [List.nil_append, List.append_nil] at mirrors
    have bare := mirrors.bare (mem_depths_words writable)
    have same := precedence_of_bare mirrors.tree bare
    have weak : expr.precedence.rank < minimum.rank := of_decide_eq_true loose
    rw [Term.Tight, same] at tight
    omega
  · exact .inr around

variable {site : Site} {cond thenBranch elseBranch left right operand arg : Expr}
  {args : List Expr}

theorem needsPairs_unary {op : UnaryOp} (needs : operand.NeedsPairs)
    (writable : operand.Writable) : (unary site op operand).NeedsPairs := by
  intro depth term front middle back pair free mirrors
  rw [words_unary] at pair
  obtain ⟨rest, within, rfl⟩ := pair.behind op.wordSide_symbol
  obtain ⟨sign, inner, rfl, inside⟩ := mirrors.unary op.wordSide_symbol
  have tight := mirrors.formed.2.2
  rcases needs.operand writable within (free ∘ BehindName.cons) inside tight with
    ⟨rfl, conditional, rfl⟩ | around
  · exact ⟨conditional, op.symbol, op.symbol_mem, .inl rfl⟩
  · exact around.cons

/-- An expression of two operands with an operator between them, which are what mirrors the words
in front of the operator and those behind it. -/
theorem needsPairs_binary {symbol : String} {minimum : Precedence × Precedence}
    (plain : wordSide symbol = .inner) (listed : symbol ∈ operatorWords)
    (needsLeft : left.NeedsPairs) (writableLeft : left.Writable)
    (needsRight : right.NeedsPairs) (writableRight : right.Writable)
    (written : words expr.inks =
      words (Ink.grouped (left.looseOperand minimum.1) left.inks) ++
        symbol :: words (Ink.grouped (right.looseOperand minimum.2) right.inks))
    (operands : ∀ {depth : Nat} {term : Term} {front back : List String},
      term.Mirrors expr depth (front ++ symbol :: back) → Counted front left.size →
        ∃ first second : Term, (first.Mirrors left depth front ∧ first.Tight minimum.1) ∧
          second.Mirrors right depth back ∧ second.Tight minimum.2) : expr.NeedsPairs := by
  intro depth term front middle back pair free mirrors
  rw [written] at pair
  have counted := (left.counted writableLeft).grouped (left.looseOperand minimum.1)
  rcases pair.append counted.balanced with ⟨rest, within, rfl⟩ | ⟨rest, later, rfl⟩
  · have split : ∀ behind, front ++ (middle ++ (rest ++ behind)) =
        front ++ (middle ++ rest) ++ behind := by simp
    rw [split] at mirrors
    have remaining : Counted (front ++ (middle ++ rest)) left.size := counted.without within
    obtain ⟨first, _, ⟨inside, tight⟩, _⟩ := operands mirrors remaining
    rcases needsLeft.operand writableLeft within free inside tight with
      ⟨rfl, conditional, rfl⟩ | around
    · exact ⟨conditional, symbol, listed, .inr rfl⟩
    · exact around.append_right
  · obtain ⟨more, within, rfl⟩ := later.behind plain
    have split : ∀ ahead, ahead ++ symbol :: more ++ (middle ++ back) =
        ahead ++ symbol :: (more ++ (middle ++ back)) := by simp
    rw [split] at mirrors
    obtain ⟨_, second, _, inside, tight⟩ := operands mirrors counted
    rcases needsRight.operand writableRight within (free ∘ BehindName.append ∘ BehindName.cons)
      inside tight with ⟨rfl, conditional, rfl⟩ | around
    · exact ⟨conditional, symbol, listed, .inl (by simp)⟩
    · exact around.cons.append_left

theorem needsPairs_arith {op : ArithOp} (needsLeft : left.NeedsPairs) (writableLeft : left.Writable)
    (needsRight : right.NeedsPairs) (writableRight : right.Writable) :
    (arith site op left right).NeedsPairs := by
  refine needsPairs_binary op.wordSide_symbol op.symbol_mem needsLeft writableLeft needsRight
    writableRight words_arith fun mirrors counted => ?_
  obtain ⟨first, _, second, rfl, inLeft, inRight⟩ := mirrors.arith counted op.wordSide_symbol
  obtain ⟨_, ⟨_, tightLeft⟩, ⟨_, tightRight⟩, _⟩ := mirrors.formed
  exact ⟨first, second, ⟨inLeft, tightLeft⟩, inRight, tightRight⟩

theorem needsPairs_logical {op : LogicalOp} (needsLeft : left.NeedsPairs)
    (writableLeft : left.Writable) (needsRight : right.NeedsPairs)
    (writableRight : right.Writable) : (logical site op left right).NeedsPairs := by
  refine needsPairs_binary op.wordSide_symbol op.symbol_mem needsLeft writableLeft needsRight
    writableRight words_logical fun mirrors counted => ?_
  obtain ⟨first, _, second, rfl, inLeft, inRight⟩ := mirrors.logical counted op.wordSide_symbol
  obtain ⟨_, ⟨_, tightLeft⟩, _, tightRight⟩ := mirrors.formed
  exact ⟨first, second, ⟨inLeft, tightLeft⟩, inRight, tightRight⟩

theorem needsPairs_ifThen (needsCond : cond.NeedsPairs) (writableCond : cond.Writable)
    (needsBranch : thenBranch.NeedsPairs) (tight : thenBranch.loose .comparison = false) :
    (ifThen site cond thenBranch).NeedsPairs := by
  intro depth term front middle back pair free mirrors
  rw [words_ifThen tight] at pair
  obtain ⟨front, behindIf, rfl⟩ := pair.behind rfl
  have counted := cond.counted writableCond
  rcases behindIf.append counted.balanced with ⟨rest, within, rfl⟩ | ⟨rest, later, rfl⟩
  · have split : ∀ behind, "if" :: front ++ (middle ++ (rest ++ behind)) =
        "if" :: (front ++ (middle ++ rest) ++ behind) := by simp
    rw [split] at mirrors
    have remaining : Counted (front ++ (middle ++ rest)) cond.size := counted.without within
    obtain ⟨_, _, _, _, rfl, inside, _⟩ := mirrors.ifThen remaining
    exact (needsCond _ _ _ _ _ within (free ∘ BehindName.cons) inside).append_right.cons
  · obtain ⟨more, within, rfl⟩ := later.behind rfl
    have split : ∀ ahead, "if" :: (ahead ++ "then" :: more) ++ (middle ++ back) =
        "if" :: (ahead ++ "then" :: (more ++ (middle ++ back))) := by simp
    rw [split] at mirrors
    obtain ⟨_, _, _, _, rfl, _, inside⟩ := mirrors.ifThen counted
    have around := needsBranch _ _ _ _ _ within
      (free ∘ BehindName.cons ∘ BehindName.append ∘ BehindName.cons) inside
    exact around.cons.append_left.cons

/-- Written as it is, an expression that ends in a conditional without `else` takes one. -/
theorem absorbs_of_endsOpen (expr : Expr) (writable : expr.Writable)
    (ends : expr.endsOpen = true) {term : Term}
    (mirrors : term.Mirrors expr depth (words expr.inks)) : term.absorbs .elseWord = true := by
  match expr with
  | ifThen _ cond thenBranch =>
      obtain ⟨condition, inside, fits⟩ := writable
      rw [words_ifThen (tight_of_fits fits)] at mirrors
      obtain ⟨_, _, _, _, rfl, _, _⟩ := mirrors.ifThen (cond.counted condition)
      rfl
  | ifElse _ cond thenBranch elseBranch =>
      obtain ⟨condition, ⟨first, fitsFirst⟩, second, fitsSecond⟩ := writable
      rw [words_ifElse (tight_of_fits fitsFirst) (tight_of_fits fitsSecond)] at mirrors
      obtain ⟨_, _, _, _, _, other, rfl, _, _, inside⟩ := mirrors.ifElse (cond.counted condition)
        ((thenBranch.counted first).grouped thenBranch.endsOpen)
      have absorbs := elseBranch.absorbs_of_endsOpen second ends inside
      rw [Term.absorbs, absorbs, Bool.or_true]
  | literal _ _ | var _ _ | unary _ _ _ | arith _ _ _ _ | logical _ _ _ _ | call _ _ _ => cases ends

theorem needsPairs_ifElse (needsCond : cond.NeedsPairs) (writableCond : cond.Writable)
    (needsThen : thenBranch.NeedsPairs) (writableThen : thenBranch.Writable)
    (tightThen : thenBranch.loose .comparison = false) (needsElse : elseBranch.NeedsPairs)
    (tightElse : elseBranch.loose .comparison = false) :
    (ifElse site cond thenBranch elseBranch).NeedsPairs := by
  intro depth term front middle back pair free mirrors
  rw [words_ifElse tightThen tightElse] at pair
  obtain ⟨front, behindIf, rfl⟩ := pair.behind rfl
  have counted := cond.counted writableCond
  have branch := (thenBranch.counted writableThen).grouped thenBranch.endsOpen
  rcases behindIf.append counted.balanced with ⟨rest, within, rfl⟩ | ⟨rest, later, rfl⟩
  · have split : ∀ behind, "if" :: front ++ (middle ++ (rest ++ behind)) =
        "if" :: (front ++ (middle ++ rest) ++ behind) := by simp
    rw [split] at mirrors
    have remaining : Counted (front ++ (middle ++ rest)) cond.size := counted.without within
    obtain ⟨_, _, _, _, _, _, rfl, inside, _, _⟩ := mirrors.ifElse remaining branch
    exact (needsCond _ _ _ _ _ within (free ∘ BehindName.cons) inside).append_right.cons
  · obtain ⟨front, behindThen, rfl⟩ := later.behind rfl
    rcases behindThen.append branch.balanced with ⟨rest, within, rfl⟩ | ⟨rest, last, rfl⟩
    · have split : ∀ ahead behind,
          "if" :: (ahead ++ "then" :: front) ++ (middle ++ (rest ++ "else" :: behind)) =
            "if" :: (ahead ++ "then" :: (front ++ (middle ++ rest) ++ "else" :: behind)) := by simp
      rw [split] at mirrors
      have remaining : Counted (front ++ (middle ++ rest)) thenBranch.size := branch.without within
      obtain ⟨_, _, _, taken, _, _, rfl, _, inside, _⟩ := mirrors.ifElse counted remaining
      rcases needsThen.grouped writableThen within
        (free ∘ BehindName.cons ∘ BehindName.append ∘ BehindName.cons) inside with
        ⟨ends, rfl, rfl, rfl⟩ | around
      · rw [List.nil_append, List.append_nil] at inside
        have absorbs := absorbs_of_endsOpen thenBranch writableThen ends inside
        obtain ⟨_, _, _, _, _, _, complete⟩ := mirrors.formed
        rw [absorbs] at complete
        cases complete
      · exact around.append_right.cons.append_left.cons
    · obtain ⟨more, within, rfl⟩ := last.behind rfl
      have split : ∀ ahead between,
          "if" :: (ahead ++ "then" :: (between ++ "else" :: more)) ++ (middle ++ back) =
            "if" :: (ahead ++ "then" :: (between ++ "else" :: (more ++ (middle ++ back)))) := by
        simp
      rw [split] at mirrors
      obtain ⟨_, _, _, _, _, _, rfl, _, _, inside⟩ := mirrors.ifElse counted branch
      have around := needsElse _ _ _ _ _ within (free ∘ BehindName.cons ∘ BehindName.append ∘
        BehindName.cons ∘ BehindName.append ∘ BehindName.cons) inside
      exact around.cons.append_left.cons.append_left.cons

/-- The same for the arguments of a call behind the first one. -/
theorem around_of_tail {others : Arguments}
    (needs : ∀ arg ∈ args, arg.Writable ∧ arg.NeedsPairs)
    (pair : Pair wordSide (tailWords args) front middle back) (free : ¬ BehindName front)
    (mirrors : others.Mirrors args depth (front ++ (middle ++ back) ++ [")"])) :
    AroundOperand front middle back := by
  induction args generalizing others front back with
  | nil => exact absurd pair Pair.not_nil
  | cons arg args ih =>
      obtain ⟨⟨writable, needsArg⟩, needsRest⟩ := List.forall_mem_cons.mp needs
      have written : tailWords (arg :: args) = "," :: (words arg.inks ++ tailWords args) := by
        simp [tailWords]
      rw [written] at pair
      obtain ⟨front, behindComma, rfl⟩ := pair.behind rfl
      have counted := arg.counted writable
      rcases behindComma.append counted.balanced with ⟨rest, within, rfl⟩ | ⟨rest, later, rfl⟩
      · have split : ∀ behind, "," :: front ++ (middle ++ (rest ++ behind)) ++ [")"] =
            "," :: (front ++ (middle ++ rest) ++ (behind ++ [")"])) := by simp
        rw [split] at mirrors
        have remaining : Counted (front ++ (middle ++ rest)) arg.size := counted.without within
        obtain ⟨_, _, _, rfl, inside, _⟩ := mirrors.next remaining
        exact (needsArg _ _ _ _ _ within (free ∘ BehindName.cons) inside).append_right.cons
      · have split : ∀ ahead, "," :: (ahead ++ rest) ++ (middle ++ back) ++ [")"] =
            "," :: (ahead ++ (rest ++ (middle ++ back) ++ [")"])) := by simp
        rw [split] at mirrors
        obtain ⟨_, _, _, rfl, _, inside⟩ := mirrors.next counted
        have kept := ih needsRest later (free ∘ BehindName.cons ∘ BehindName.append) inside
        exact kept.append_left.cons

theorem needsPairs_call {callee : String} (named : IsName callee)
    (needs : ∀ arg ∈ args, arg.Writable ∧ arg.NeedsPairs)
    (tight : ∀ arg ∈ args, arg.loose .comparison = false) : (call site callee args).NeedsPairs := by
  intro depth term front middle back pair free mirrors
  have plain := wordSide_of_isName named
  cases args with
  | nil =>
      rw [words_callEmpty] at pair
      obtain ⟨front, behindName, rfl⟩ := pair.behind plain
      rcases behindName.enclosed .nil with ⟨rfl, _⟩ | ⟨_, _, within, _⟩
      · exact absurd ⟨callee, rfl, named⟩ free
      · exact absurd within Pair.not_nil
  | cons arg args =>
      obtain ⟨⟨writable, needsArg⟩, needsRest⟩ := List.forall_mem_cons.mp needs
      rw [words_call tight] at pair
      obtain ⟨front, behindName, rfl⟩ := pair.behind plain
      have counted := arg.counted writable
      have writableRest : ArgsWritable args := argsWritable_iff.mpr fun other member =>
        ⟨(needsRest other member).1, .inl (tight other (List.mem_cons_of_mem _ member))⟩
      have balanced := counted.balanced.append (counted_tail args writableRest).balanced
      rcases behindName.enclosed balanced with ⟨rfl, _⟩ | ⟨front, back, inside, rfl, rfl⟩
      · exact absurd ⟨callee, rfl, named⟩ free
      · rcases inside.append counted.balanced with ⟨rest, within, rfl⟩ | ⟨rest, later, rfl⟩
        · have split : ∀ behind,
              callee :: "(" :: front ++ (middle ++ (rest ++ behind ++ [")"])) =
                callee :: "(" :: (front ++ (middle ++ rest) ++ behind ++ [")"]) := by simp
          rw [split] at mirrors
          have remaining : Counted (front ++ (middle ++ rest)) arg.size := counted.without within
          obtain ⟨_, _, _, _, rfl, inside, _⟩ := mirrors.call remaining plain
          have around := needsArg _ _ _ _ _ within (free ∘ BehindName.cons ∘ BehindName.cons) inside
          exact around.append_right.append_right.cons.cons
        · have split : ∀ ahead,
              callee :: "(" :: (ahead ++ rest) ++ (middle ++ (back ++ [")"])) =
                callee :: "(" :: (ahead ++ (rest ++ (middle ++ back)) ++ [")"]) := by simp
          rw [split] at mirrors
          obtain ⟨_, _, _, _, rfl, _, inside⟩ := mirrors.call counted plain
          have around := around_of_tail needsRest later
            (free ∘ BehindName.cons ∘ BehindName.cons ∘ BehindName.append) inside
          exact around.append_right.append_left.cons.cons

mutual

/-- No pair of parentheses that is written for an expression can be left out, but around a
conditional that is an operand. -/
theorem needsPairs (expr : Expr) (writable : expr.Writable) : expr.NeedsPairs := by
  match expr with
  | literal _ value =>
      intro depth term front middle back pair
      obtain ⟨_, within, _⟩ := pair.behind (Literal.wordSide_text writable)
      exact absurd within Pair.not_nil
  | var _ name =>
      intro depth term front middle back pair
      obtain ⟨_, within, _⟩ := pair.behind (wordSide_of_isName writable)
      exact absurd within Pair.not_nil
  | unary _ _ operand => exact needsPairs_unary (operand.needsPairs writable.1) writable.1
  | arith _ _ left right =>
      obtain ⟨⟨first, _⟩, second, _⟩ := writable
      exact needsPairs_arith (left.needsPairs first) first (right.needsPairs second) second
  | logical _ _ left right =>
      obtain ⟨⟨first, _⟩, second, _⟩ := writable
      exact needsPairs_logical (left.needsPairs first) first (right.needsPairs second) second
  | ifThen _ cond thenBranch =>
      obtain ⟨condition, inside, fits⟩ := writable
      exact needsPairs_ifThen (cond.needsPairs condition) condition (thenBranch.needsPairs inside)
        (tight_of_fits fits)
  | ifElse _ cond thenBranch elseBranch =>
      obtain ⟨condition, ⟨first, fitsFirst⟩, second, fitsSecond⟩ := writable
      exact needsPairs_ifElse (cond.needsPairs condition) condition (thenBranch.needsPairs first)
        first (tight_of_fits fitsFirst) (elseBranch.needsPairs second) (tight_of_fits fitsSecond)
  | call _ callee args =>
      have needs := args_needPairs args writable.2
      exact needsPairs_call writable.1 (fun arg member => (needs arg member).1)
        fun arg member => (needs arg member).2

theorem args_needPairs (args : List Expr) (writable : ArgsWritable args) :
    ∀ arg ∈ args, (arg.Writable ∧ arg.NeedsPairs) ∧ arg.loose .comparison = false := by
  match args with
  | [] => exact List.forall_mem_nil _
  | arg :: others =>
      obtain ⟨⟨inside, fits⟩, rest⟩ := writable
      exact List.forall_mem_cons.mpr ⟨⟨⟨inside, arg.needsPairs inside⟩, tight_of_fits fits⟩,
        args_needPairs others rest⟩

end

end Expr

end Sipl
