import Sipl.Proofs.Concrete.WrittenBack

namespace Sipl

/-! Reading an expression from left to right, it is known at every token which `if` an `else` would
belong to.  The tree of the expression attaches each `else` just there. -/

/-- What is open at some place of an expression: a parenthesis, an `if` whose `then` is to come, or
an `if` behind its `then`.  The last one waits for its `else` or has it already, and the branch at
its end holds a comparison or not. -/
inductive Pending where
  | parenthesis
  | condition (ifWord : Token)
  | branch (ifWord : Token) (waits compares : Bool)

namespace Pending

def isBranch : Pending → Bool
  | branch _ _ _ => true
  | _ => false

/-- A comparison operator ends the branches that hold a comparison, and is the one of the branch
behind them. -/
def compare : List Pending → List Pending
  | branch _ _ true :: below => compare below
  | branch ifWord waits false :: below => branch ifWord waits true :: below
  | below => below

/-- A `then` ends what stands in the condition. -/
def reachThen : List Pending → List Pending
  | branch _ _ _ :: below => reachThen below
  | condition ifWord :: below => branch ifWord true false :: below
  | below => below

/-- An `else` ends the branches behind their own `else`, and the nearest other one goes on. -/
def takeElse : List Pending → List Pending
  | branch _ false _ :: below => takeElse below
  | branch ifWord true _ :: below => branch ifWord false false :: below
  | below => below

/-- A comma, or a parenthesis that closes, ends what stands in the parentheses. -/
def toParenthesis : List Pending → List Pending
  | parenthesis :: below => parenthesis :: below
  | _ :: below => toParenthesis below
  | [] => []

/-- What is open behind a token. -/
def behind (pending : List Pending) (token : Token) : List Pending :=
  match token.kind with
  | .leftParen => parenthesis :: pending
  | .rightParen => (toParenthesis pending).tail
  | .comma => toParenthesis pending
  | .ifWord => condition token :: pending
  | .thenWord => reachThen pending
  | .elseWord => takeElse pending
  | kind => if kind.isComparison then compare pending else pending

def behindAll (pending : List Pending) (tokens : List Token) : List Pending :=
  tokens.foldl behind pending

/-- The nearest `if` that waits for its `else`. -/
def waiting? : List Pending → Option Token
  | branch _ false _ :: below => waiting? below
  | branch ifWord true _ :: _ => some ifWord
  | _ => none

end Pending

/-- Each `else` among the tokens with the nearest `if` that waits there. -/
def nearestIfs : List Pending → List Token → List (Token × Token)
  | _, [] => []
  | pending, token :: rest =>
    let others := nearestIfs (Pending.behind pending token) rest
    if token.kind = .elseWord then
      ((Pending.waiting? pending).map fun ifWord => (token, ifWord)).toList ++ others
    else
      others

namespace Concrete

mutual

/-- Each `else` of a term with its own `if`, in the order of the `else`s. -/
def Term.attachments : Term → List (Token × Token)
  | .literal _ _ => []
  | .var _ => []
  | .group _ inner _ => inner.attachments
  | .unary _ _ operand => operand.attachments
  | .arith left _ _ right => left.attachments ++ right.attachments
  | .logical left _ _ right => left.attachments ++ right.attachments
  | .ifThen _ cond _ thenBranch => cond.attachments ++ thenBranch.attachments
  | .ifElse ifWord cond _ thenBranch elseWord elseBranch =>
    cond.attachments ++ (thenBranch.attachments ++ (elseWord, ifWord) :: elseBranch.attachments)
  | .callEmpty _ _ _ => []
  | .call _ _ first others => first.attachments ++ others.attachments

def Arguments.attachments : Arguments → List (Token × Token)
  | .closed _ => []
  | .next _ arg others => arg.attachments ++ others.attachments

end

/-- The branches at the end of a term that is no disjunction or conjunction. -/
def Term.pending : Term → List Pending
  | .unary _ _ operand => operand.pending
  | .arith _ _ _ right => right.pending
  | .ifThen ifWord _ _ thenBranch =>
    thenBranch.pending ++ [.branch ifWord true thenBranch.compares]
  | .ifElse ifWord _ _ _ _ elseBranch =>
    elseBranch.pending ++ [.branch ifWord false elseBranch.compares]
  | _ => []

end Concrete

/-- From what is open in front of them, some tokens attach each `else` to its `if`, and leave open
what is open behind them. -/
structure Attaches (before : List Pending) (tokens : List Token) (links : List (Token × Token))
    (after : List Pending) : Prop where
  behind : Pending.behindAll before tokens = after
  links : nearestIfs before tokens = links

namespace Attaches

variable {before middle after : List Pending} {front back : List Token} {token : Token}
  {first second : List (Token × Token)}

theorem nil (pending : List Pending) : Attaches pending [] [] pending := ⟨rfl, rfl⟩

theorem cons (other : token.kind ≠ .elseWord) (same : Pending.behind before token = middle)
    (rest : Attaches middle back first after) : Attaches before (token :: back) first after := by
  subst same
  refine ⟨rest.behind, ?_⟩
  rw [nearestIfs, if_neg other]
  exact rest.links

theorem consElse {ifWord : Token} (word : token.kind = .elseWord)
    (waits : Pending.waiting? before = some ifWord)
    (rest : Attaches (Pending.takeElse before) back first after) :
    Attaches before (token :: back) ((token, ifWord) :: first) after := by
  have next : Pending.behind before token = Pending.takeElse before := by
    rw [Pending.behind, word]
  refine ⟨?_, ?_⟩
  · rw [Pending.behindAll, List.foldl_cons, next]
    exact rest.behind
  · rw [nearestIfs, if_pos word, waits, next, rest.links]
    rfl

theorem append (head : Attaches before front first middle)
    (tail : Attaches middle back second after) :
    Attaches before (front ++ back) (first ++ second) after := by
  induction front generalizing before first with
  | nil =>
      obtain ⟨rfl, rfl⟩ := head
      exact tail
  | cons token others ih =>
      have rest := ih ⟨head.behind, rfl⟩
      refine ⟨rest.behind, ?_⟩
      rw [← head.links, List.cons_append, nearestIfs, nearestIfs, rest.links]
      split
      · exact (List.append_assoc ..).symm
      · rfl

theorem single (other : token.kind ≠ .elseWord) (same : Pending.behind before token = middle) :
    Attaches before [token] [] middle :=
  cons other same (nil middle)

end Attaches

namespace Pending

/-- Only branches were left open above what was open. -/
def Above (base pending : List Pending) : Prop :=
  ∃ branches, pending = branches ++ base ∧ ∀ branch ∈ branches, branch.isBranch = true

/-- What is open ends with a parenthesis, a condition or nothing. -/
def Settled (base : List Pending) : Prop := ∀ top ∈ base.head?, top.isBranch = false

variable {base pending : List Pending}

theorem Above.refl (base : List Pending) : Above base base :=
  ⟨[], rfl, List.forall_mem_nil _⟩

theorem compare_of_settled (settled : Settled base) : compare base = base := by
  match base with
  | [] | .parenthesis :: _ | .condition _ :: _ => rfl
  | .branch _ _ _ :: _ => cases settled _ rfl

theorem Above.compare (settled : Settled base) (above : Above base pending) :
    Above base (compare pending) := by
  obtain ⟨branches, rfl, all⟩ := above
  induction branches with
  | nil =>
      rw [List.nil_append, compare_of_settled settled]
      exact .refl base
  | cons top others ih =>
      obtain ⟨isBranch, rest⟩ := List.forall_mem_cons.mp all
      match top with
      | .branch ifWord waits true => exact ih rest
      | .branch ifWord waits false =>
          exact ⟨.branch ifWord waits true :: others, rfl, List.forall_mem_cons.mpr ⟨rfl, rest⟩⟩

theorem reachThen_of_above {ifWord : Token} (above : Above (condition ifWord :: base) pending) :
    reachThen pending = branch ifWord true false :: base := by
  obtain ⟨branches, rfl, all⟩ := above
  induction branches with
  | nil => rfl
  | cons top others ih =>
      obtain ⟨isBranch, rest⟩ := List.forall_mem_cons.mp all
      match top with
      | .branch _ _ _ => exact ih rest

theorem toParenthesis_of_above (above : Above (parenthesis :: base) pending) :
    toParenthesis pending = parenthesis :: base := by
  obtain ⟨branches, rfl, all⟩ := above
  induction branches with
  | nil => rfl
  | cons top others ih =>
      obtain ⟨isBranch, rest⟩ := List.forall_mem_cons.mp all
      match top with
      | .branch _ _ _ => exact ih rest

/-- An operator matters only if it compares. -/
theorem behind_operator {token : Token} {op : ArithOp}
    (known : ArithOp.ofKind? token.kind = some op) :
    behind pending token = if op.isComparison then compare pending else pending := by
  rw [behind, ArithOp.eq_kind known]
  cases op <;> rfl

theorem behind_of_plain {token : Token} {kind : Kind} (same : token.kind = kind)
    (listed : kind ∈
      [.number, .trueWord, .falseWord, .ident, .minus, .notWord, .andWord, .orWord]) :
    behind pending token = pending := by
  rw [behind, same]
  revert listed
  cases kind <;> simp [Kind.isComparison]

end Pending

namespace Concrete

open Pending

theorem Term.tight_mono {term : Term} {tight loose : Precedence} (holds : term.Tight tight)
    (looser : loose.rank ≤ tight.rank) : term.Tight loose :=
  Nat.le_trans looser holds

theorem Term.compares_eq_false {term : Term} {minimum : Precedence} (tight : term.Tight minimum)
    (above : Precedence.comparison.rank < minimum.rank) : term.compares = false := by
  rw [compares, beq_eq_false_iff_ne]
  rintro same
  rw [Tight, same] at tight
  omega

/-- The operator of a comparison ends the branches in front of it. -/
theorem Term.compare_pending (term : Term) {kind : Kind} {op : ArithOp}
    (known : ArithOp.ofKind? kind = some op) (compares : op.isComparison = true)
    (complete : term.absorbs kind = false) (below : List Pending) :
    compare (term.pending ++ below) = compare below := by
  match term with
  | .literal _ _ | .var _ | .group _ _ _ | .logical _ _ _ _ | .callEmpty _ _ _
  | .call _ _ _ _ => rfl
  | .unary sign _ operand => exact operand.compare_pending known compares complete below
  | .arith _ _ _ right => exact right.compare_pending known compares complete below
  | .ifThen ifWord _ _ thenBranch =>
      simp only [absorbs, Bool.or_eq_false_iff] at complete
      obtain ⟨⟨_, full⟩, inner⟩ := complete
      have holds : thenBranch.compares = true := by simpa [goesOn, known, compares] using full
      rw [pending, List.append_assoc, thenBranch.compare_pending known compares inner, holds]
      rfl
  | .ifElse ifWord _ _ _ _ elseBranch =>
      simp only [absorbs, Bool.or_eq_false_iff] at complete
      obtain ⟨full, inner⟩ := complete
      have holds : elseBranch.compares = true := by simpa [goesOn, known, compares] using full
      rw [pending, List.append_assoc, elseBranch.compare_pending known compares inner, holds]
      rfl

/-- No branch ends in front of an operator that does not compare. -/
theorem Term.pending_eq_nil (term : Term) {kind : Kind} {op : ArithOp}
    (known : ArithOp.ofKind? kind = some op) (other : op.isComparison = false)
    (complete : term.absorbs kind = false) : term.pending = [] := by
  match term with
  | .literal _ _ | .var _ | .group _ _ _ | .logical _ _ _ _ | .callEmpty _ _ _
  | .call _ _ _ _ => rfl
  | .unary sign _ operand => exact operand.pending_eq_nil known other complete
  | .arith _ _ _ right => exact right.pending_eq_nil known other complete
  | .ifThen _ _ _ thenBranch => simp [absorbs, goesOn, known, other] at complete
  | .ifElse _ _ _ _ _ elseBranch => simp [absorbs, goesOn, known, other] at complete

/-- An `else` behind a branch does not belong to the branch. -/
theorem Term.else_behind (term : Term) (complete : term.absorbs .elseWord = false)
    (below : List Pending) :
    takeElse (term.pending ++ below) = takeElse below ∧
      waiting? (term.pending ++ below) = waiting? below := by
  match term with
  | .literal _ _ | .var _ | .group _ _ _ | .logical _ _ _ _ | .callEmpty _ _ _ | .call _ _ _ _ =>
      exact ⟨rfl, rfl⟩
  | .unary _ _ operand => exact operand.else_behind complete below
  | .arith _ _ _ right => exact right.else_behind complete below
  | .ifThen _ _ _ _ => simp [absorbs] at complete
  | .ifElse ifWord _ _ _ _ elseBranch =>
      simp only [absorbs, Bool.or_eq_false_iff] at complete
      rw [pending, List.append_assoc]
      exact elseBranch.else_behind complete.2 _

/-- A comparison, or anything tighter, leaves open the branches at its end.  If it compares, this
also tells on what is open in front of it. -/
def Term.AttachesTightly (term : Term) : Prop :=
  ∀ below : List Pending, Attaches below term.tokens term.attachments
    (term.pending ++ if term.compares then compare below else below)

/-- Any term leaves only branches open. -/
def Term.AttachesLoosely (term : Term) : Prop :=
  ∀ base before : List Pending, Settled base → Above base before →
    ∃ after, Above base after ∧ Attaches before term.tokens term.attachments after

theorem Term.pending_branches (term : Term) : ∀ branch ∈ term.pending, branch.isBranch = true := by
  match term with
  | .literal _ _ | .var _ | .group _ _ _ | .logical _ _ _ _ | .callEmpty _ _ _ | .call _ _ _ _ =>
      exact List.forall_mem_nil _
  | .unary _ _ operand => exact operand.pending_branches
  | .arith _ _ _ right => exact right.pending_branches
  | .ifThen _ _ _ thenBranch =>
      exact List.forall_mem_append.mpr
        ⟨thenBranch.pending_branches, List.forall_mem_singleton.mpr rfl⟩
  | .ifElse _ _ _ _ _ elseBranch =>
      exact List.forall_mem_append.mpr
        ⟨elseBranch.pending_branches, List.forall_mem_singleton.mpr rfl⟩

theorem Term.AttachesTightly.loosely {term : Term} (tightly : term.AttachesTightly) :
    term.AttachesLoosely := by
  intro base before settled above
  refine ⟨_, ?_, tightly before⟩
  have below : Above base (if term.compares then compare before else before) := by
    split
    · exact above.compare settled
    · exact above
  obtain ⟨branches, same, all⟩ := below
  rw [same, ← List.append_assoc]
  exact ⟨_, rfl, List.forall_mem_append.mpr ⟨term.pending_branches, all⟩⟩

/-- Where a term is an operand that may not compare. -/
theorem Term.AttachesTightly.operand {term : Term} (tightly : term.AttachesTightly)
    (free : term.compares = false) (below : List Pending) :
    Attaches below term.tokens term.attachments (term.pending ++ below) := by
  have attaches := tightly below
  rwa [free] at attaches

theorem Term.AttachesTightly.branch {term : Term} (tightly : term.AttachesTightly) {ifWord : Token}
    {waits : Bool} (below : List Pending) :
    Attaches (.branch ifWord waits false :: below) term.tokens term.attachments
      (term.pending ++ .branch ifWord waits term.compares :: below) := by
  have attaches := tightly (.branch ifWord waits false :: below)
  cases compares : term.compares with
  | true => rwa [compares] at attaches
  | false => rwa [compares] at attaches

theorem compares_arith (left : Term) (sign : Token) (op : ArithOp) (right : Term) :
    (Term.arith left sign op right).compares = op.isComparison := by
  cases op <;> rfl

theorem attaches_arith {left right : Term} {sign : Token} {op : ArithOp}
    (formed : (Term.arith left sign op right).Formed) (first : left.AttachesTightly)
    (second : right.AttachesTightly) : (Term.arith left sign op right).AttachesTightly := by
  obtain ⟨known, ⟨_, tightLeft⟩, ⟨_, tightRight⟩, complete⟩ := formed
  have above : Precedence.comparison.rank < op.operandPrecedence.1.rank ∧
      Precedence.comparison.rank < op.operandPrecedence.2.rank := by cases op <;> decide
  have other : sign.kind ≠ .elseWord := by
    rw [ArithOp.eq_kind known]
    cases op <;> decide
  intro below
  have head := first.operand (Term.compares_eq_false tightLeft above.1) below
  have tail := second.operand (Term.compares_eq_false tightRight above.2)
  refine head.append (.cons other (behind_operator known) ?_)
  rw [compares_arith]
  cases compares : op.isComparison with
  | true =>
      rw [if_pos rfl, if_pos rfl, left.compare_pending known compares complete]
      exact tail _
  | false =>
      rw [left.pending_eq_nil known compares complete]
      exact tail _

theorem attaches_logical {left right : Term} {word : Token} {op : LogicalOp}
    (same : word.kind = op.kind) (first : left.AttachesLoosely) (second : right.AttachesLoosely) :
    (Term.logical left word op right).AttachesLoosely := by
  intro base before settled above
  obtain ⟨middle, aboveMiddle, head⟩ := first base before settled above
  obtain ⟨after, aboveAfter, tail⟩ := second base middle settled aboveMiddle
  have plain : behind middle word = middle :=
    behind_of_plain same (by cases op <;> decide)
  exact ⟨after, aboveAfter, head.append (.cons (by rw [same]; cases op <;> decide) plain tail)⟩

/-- A condition, from its `if` to its `then`. -/
theorem attaches_condition {ifWord thenWord : Token} {cond : Term} {rest : List Token}
    {links : List (Token × Token)} {below after : List Pending} (isIf : ifWord.kind = .ifWord)
    (condition : cond.AttachesLoosely) (isThen : thenWord.kind = .thenWord)
    (branch : Attaches (.branch ifWord true false :: below) rest links after) :
    Attaches below (ifWord :: (cond.tokens ++ thenWord :: rest)) (cond.attachments ++ links)
      after := by
  have settled : Settled (.condition ifWord :: below) := by rintro top ⟨⟩; rfl
  obtain ⟨middle, above, head⟩ := condition _ _ settled (.refl _)
  have opened : behind below ifWord = .condition ifWord :: below := by rw [behind, isIf]
  have reached : behind middle thenWord = .branch ifWord true false :: below := by
    rw [behind, isThen]
    exact reachThen_of_above above
  exact .cons (by simp [isIf]) opened (head.append (.cons (by simp [isThen]) reached branch))

theorem behind_opening {opening : Token} {below : List Pending}
    (opened : opening.kind = .leftParen) :
    behind below opening = .parenthesis :: below := by
  rw [behind, opened]

theorem behind_closing {closing : Token} {below pending : List Pending}
    (closed : closing.kind = .rightParen) (above : Above (.parenthesis :: below) pending) :
    behind pending closing = below := by
  rw [behind, closed]
  simp only [toParenthesis_of_above above, List.tail_cons]

theorem settled_parenthesis (below : List Pending) : Settled (.parenthesis :: below) := by
  rintro top ⟨⟩
  rfl

theorem attaches_group {opening closing : Token} {inner : Term}
    (opened : opening.kind = .leftParen) (inside : inner.AttachesLoosely)
    (closed : closing.kind = .rightParen) :
    (Term.group opening inner closing).AttachesTightly := by
  intro below
  obtain ⟨after, above, attaches⟩ := inside _ _ (settled_parenthesis below) (.refl _)
  have last := Attaches.single (by simp [closed]) (behind_closing closed above)
  have whole := attaches.append last
  rw [List.append_nil] at whole
  exact .cons (by simp [opened]) (behind_opening opened) whole

mutual

theorem Term.attaches (term : Term) (formed : term.Formed) :
    (term.Tight .comparison → term.AttachesTightly) ∧ term.AttachesLoosely := by
  -- Only disjunctions and conjunctions are too loose for the exact account.
  have both (tightly : term.AttachesTightly) :
      (term.Tight .comparison → term.AttachesTightly) ∧ term.AttachesLoosely :=
    ⟨fun _ => tightly, tightly.loosely⟩
  match term with
  | .literal token value =>
      refine both fun below => ?_
      rcases formed with ⟨same, _⟩ | ⟨same, _⟩ | ⟨same, _⟩ <;>
        exact .single (by simp [same]) (behind_of_plain same (by decide))
  | .var name =>
      exact both fun below => .single (by simp [show name.kind = .ident from formed])
        (behind_of_plain formed (by decide))
  | .group opening inner closing =>
      obtain ⟨opened, closed, inside, _⟩ := formed
      exact both (attaches_group opened (inner.attaches inside).2 closed)
  | .unary sign op operand =>
      obtain ⟨known, inside, tight⟩ := formed
      have same := UnaryOp.eq_kind known
      have tightly := (operand.attaches inside).1 (Term.tight_mono tight (by decide))
      refine both fun below => .cons (by rw [same]; cases op <;> decide)
        (behind_of_plain same (by cases op <;> decide)) ?_
      exact tightly.operand (Term.compares_eq_false tight (by decide)) below
  | .arith left sign op right =>
      obtain ⟨_, ⟨first, tightLeft⟩, ⟨second, tightRight⟩, _⟩ := id formed
      have looser : Precedence.comparison.rank ≤ op.operandPrecedence.1.rank ∧
          Precedence.comparison.rank ≤ op.operandPrecedence.2.rank := by cases op <;> decide
      exact both (attaches_arith formed
        ((left.attaches first).1 (Term.tight_mono tightLeft looser.1))
        ((right.attaches second).1 (Term.tight_mono tightRight looser.2)))
  | .logical left word op right =>
      obtain ⟨same, ⟨first, _⟩, second, _⟩ := formed
      have both := attaches_logical same (left.attaches first).2 (right.attaches second).2
      refine ⟨fun tight => ?_, both⟩
      have loose : op.precedence.rank < Precedence.comparison.rank := by cases op <;> decide
      exact absurd loose (Nat.not_lt.mpr tight)
  | .ifThen ifWord cond thenWord thenBranch =>
      obtain ⟨isIf, condition, isThen, inside, tight⟩ := formed
      have tightly := (thenBranch.attaches inside).1 tight
      refine both fun below => attaches_condition isIf (cond.attaches condition).2 isThen ?_
      rw [Term.pending, List.append_assoc]
      exact tightly.branch below
  | .ifElse ifWord cond thenWord thenBranch elseWord elseBranch =>
      obtain ⟨isIf, condition, isThen, ⟨first, tightFirst⟩, isElse, ⟨second, tightSecond⟩,
        complete⟩ := formed
      have firstTightly := (thenBranch.attaches first).1 tightFirst
      have secondTightly := (elseBranch.attaches second).1 tightSecond
      refine both fun below => attaches_condition isIf (cond.attaches condition).2 isThen ?_
      have next :=
        thenBranch.else_behind complete (.branch ifWord true thenBranch.compares :: below)
      refine (firstTightly.branch below).append (.consElse isElse next.2 ?_)
      rw [next.1, Term.pending, List.append_assoc]
      exact secondTightly.branch below
  | .callEmpty name opening closing =>
      obtain ⟨named, opened, closed⟩ := formed
      refine both fun below => .cons (by simp [named]) (behind_of_plain named (by decide))
        (.cons (by simp [opened]) (behind_opening opened) ?_)
      exact .single (by simp [closed]) (behind_closing closed (.refl _))
  | .call name opening first others =>
      obtain ⟨named, opened, ⟨inside, _⟩, rest⟩ := formed
      refine both fun below => .cons (by simp [named]) (behind_of_plain named (by decide))
        (.cons (by simp [opened]) (behind_opening opened) ?_)
      obtain ⟨after, above, head⟩ :=
        (first.attaches inside).2 _ _ (settled_parenthesis below) (.refl _)
      exact head.append (others.attaches rest above)

/-- The arguments behind the first one, up to behind the closing parenthesis. -/
theorem Arguments.attaches (others : Arguments) (formed : others.Formed)
    {below before : List Pending} (above : Above (.parenthesis :: below) before) :
    Attaches before others.tokens others.attachments below := by
  match others with
  | .closed closing =>
      have closed : closing.kind = .rightParen := formed
      exact .single (by simp [closed]) (behind_closing closed above)
  | .next comma arg others =>
      obtain ⟨isComma, ⟨inside, _⟩, rest⟩ := formed
      have next : behind before comma = .parenthesis :: below := by
        rw [behind, isComma]
        exact toParenthesis_of_above above
      obtain ⟨after, aboveAfter, head⟩ :=
        (arg.attaches inside).2 _ _ (settled_parenthesis below) (.refl _)
      exact .cons (by simp [isComma]) next (head.append (others.attaches rest aboveAfter))

end

/-- The `else`s of a whole expression belong to the nearest `if`s that wait there. -/
theorem Term.nearestIfs_eq {term : Term} (formed : term.Formed) :
    nearestIfs [] term.tokens = term.attachments := by
  obtain ⟨_, _, attaches⟩ :=
    (term.attaches formed).2 [] [] (by rintro _ ⟨⟩) (.refl _)
  exact attaches.links

end Concrete

end Sipl
