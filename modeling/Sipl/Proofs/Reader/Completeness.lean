import Sipl.Proofs.Reader.Soundness

namespace Sipl

open Grammar Reader

/-! One token is enough to choose a way that no sentence is lost on.  An operator behind an operand
may belong to any of the expressions that end there.  Taking it for the innermost one is right: the
operand behind it is of a level that the outer expressions would have asked for as well, and
whatever follows it may still follow. -/

namespace Grammar

/-- The level of the operand behind an operator, or of the expression behind `else`. -/
def operandBehind? : Kind → Option Level
  | .star | .slash | .plus | .minus => some .multiplicative
  | .eq | .lt | .ltEq | .gt | .gtEq | .notEq => some .additive
  | .andWord => some .unary
  | .orWord => some .conjunction
  | .elseWord => some .comparison
  | _ => none

/-- What is required behind an expression lets the expression take an operator that comes next:
behind the operand of the operator the same is required. -/
def Greedy (after : List Token → Prop) : Prop :=
  ∀ token rest, after (token :: rest) → token.kind ≠ .leftParen ∧
    ∀ level, operandBehind? token.kind = some level → Follows (.rule (.expr level)) after rest

theorem greedy_of_inert {kinds : List Kind} {after : List Token → Prop}
    (starts : ∀ tokens, after tokens → StartsIn kinds tokens)
    (inert : ∀ kind ∈ kinds, kind ≠ .leftParen ∧ operandBehind? kind = none) : Greedy after := by
  intro token rest holds
  obtain ⟨first, others, whole, listed⟩ := starts _ holds
  obtain ⟨rfl, rfl⟩ := List.cons.inj whole
  obtain ⟨closed, alone⟩ := inert _ listed
  refine ⟨closed, fun level found => ?_⟩
  rw [alone] at found
  cases found

section Operand

variable {kinds : List Kind} {level : Level} {after : List Token → Prop}
  (operands : ∀ kind ∈ kinds, operandBehind? kind = some level)

include operands

theorem ne_leftParen_of_operand {kind : Kind} (listed : kind ∈ kinds) : kind ≠ .leftParen := by
  rintro rfl
  have found := operands _ listed
  cases found

theorem Greedy.opt (greedy : Greedy after) :
    Greedy (Follows (.opt (.seq (.token kinds) (.rule (.expr level)))) after) := by
  intro token rest follows
  have skipped : ∀ rest, after rest →
      Follows (.opt (.seq (.token kinds) (.rule (.expr level)))) after rest :=
    fun rest holds => Follows.opt_iff.mpr (.inl holds)
  rcases Follows.opt_iff.mp follows with holds | taken
  · obtain ⟨closed, behind⟩ := greedy token rest holds
    exact ⟨closed, fun other found => (behind other found).mono skipped⟩
  · obtain ⟨listed, operand⟩ := Follows.token_iff.mp (Follows.seq_iff.mp taken)
    refine ⟨ne_leftParen_of_operand operands listed, fun other found => ?_⟩
    obtain rfl := Option.some.inj ((operands _ listed).symm.trans found)
    exact operand.mono skipped

theorem Greedy.star (greedy : Greedy after) :
    Greedy (Follows (.star (.seq (.token kinds) (.rule (.expr level)))) after) := by
  intro token rest follows
  have ended : ∀ rest, after rest →
      Follows (.star (.seq (.token kinds) (.rule (.expr level)))) after rest :=
    fun rest holds => Follows.star_iff.mpr (.inl holds)
  rcases Follows.star_iff.mp follows with holds | taken
  · obtain ⟨closed, behind⟩ := greedy token rest holds
    exact ⟨closed, fun other found => (behind other found).mono ended⟩
  · obtain ⟨listed, operand⟩ := Follows.token_iff.mp (Follows.seq_iff.mp taken)
    refine ⟨ne_leftParen_of_operand operands listed, fun other found => ?_⟩
    obtain rfl := Option.some.inj ((operands _ listed).symm.trans found)
    exact operand

/-- An operator that may be taken once is taken, even if it was meant for an outer expression. -/
theorem Greedy.take_opt (greedy : Greedy after) {token : Token} {rest : List Token}
    (listed : token.kind ∈ kinds)
    (follows : Follows (.opt (.seq (.token kinds) (.rule (.expr level)))) after (token :: rest)) :
    Follows (.rule (.expr level)) after rest := by
  rcases Follows.opt_iff.mp follows with holds | taken
  · exact (greedy token rest holds).2 level (operands _ listed)
  · exact (Follows.token_iff.mp (Follows.seq_iff.mp taken)).2

end Operand

end Grammar

namespace Cursor

/-- The numbers that are not taken yet have values. -/
def Numbered (cursor : Cursor) : Prop :=
  ∀ token ∈ cursor.upcoming, token.kind = .number → ∃ value, token.literal? = some (.int value)

theorem Numbered.advance {cursor : Cursor} (numbered : cursor.Numbered)
    (inside : cursor.kind ≠ .eof) : cursor.advance.Numbered := by
  intro token member
  exact numbered token (by rw [upcoming_eq_cons inside]; exact List.mem_cons_of_mem _ member)

end Cursor

namespace Reader

open Cursor

theorem Reads.bound {start stop : Cursor} {phrase : Phrase} (reads : Reads start phrase stop) :
    stop.remaining ≤ start.remaining := by
  have yielded := yielded_of_reads reads
  cases phrase <;> exact Reading.Yields.bound yielded

/-- The phrase of an expression of a level. -/
def phraseAt : Level → Expr → Phrase
  | .disjunction => .disjunction
  | .conjunction => .conjunction
  | .comparison => .comparison
  | .additive => .additive
  | .multiplicative => .multiplicative
  | .unary => .unary
  | .primary => .primary

/-- An expression of the level is read wherever one stands and greed is safe behind it. -/
def Complete (level : Level) (start : Cursor) : Prop :=
  ∀ after, Greedy after → Follows (.rule (.expr level)) after start.upcoming →
    ∃ expr stop, Reads start (phraseAt level expr) stop ∧ stop.Numbered ∧ after stop.upcoming

/-- What completeness says of one phrase: it is read, and the rest of the tokens is as required. -/
def IsRead (start : Cursor) {Value : Type} (phrase : Value → Phrase)
    (after : List Token → Prop) : Prop :=
  ∃ value stop, Reads start (phrase value) stop ∧ stop.Numbered ∧ after stop.upcoming

theorem isRead_once (kinds : List Kind) {first second : Level} {phrase : Expr → Phrase}
    {start : Cursor} {after : List Token → Prop}
    (operands : ∀ kind ∈ kinds, operandBehind? kind = some second) (inside : .eof ∉ kinds)
    (both : ∀ {later stop left right}, Reads start (phraseAt first left) later →
      later.kind ∈ kinds → Reads later.advance (phraseAt second right) stop →
      ∃ expr, Reads start (phrase expr) stop)
    (one : ∀ {stop expr}, Reads start (phraseAt first expr) stop → stop.kind ∉ kinds →
      Reads start (phrase expr) stop)
    (tighter : Complete first start)
    (smaller : ∀ later : Cursor, later.remaining < start.remaining → later.Numbered →
      Complete second later)
    (greedy : Greedy after)
    (follows : Follows (.seq (.rule (.expr first))
      (.opt (.seq (.token kinds) (.rule (.expr second))))) after start.upcoming) :
    IsRead start phrase after := by
  obtain ⟨left, later, readsFirst, numbered, rest⟩ :=
    tighter _ (greedy.opt operands) (Follows.seq_iff.mp follows)
  by_cases listed : later.kind ∈ kinds
  · have middle : later.kind ≠ .eof := fun ended => inside (ended ▸ listed)
    have less := remaining_advance_lt middle
    have bound := readsFirst.bound
    rw [upcoming_eq_cons middle] at rest
    obtain ⟨right, stop, readsSecond, numberedStop, holds⟩ :=
      smaller later.advance (by omega) (numbered.advance middle) after greedy
        (greedy.take_opt operands listed rest)
    obtain ⟨expr, reads⟩ := both readsFirst listed readsSecond
    exact ⟨expr, stop, reads, numberedStop, holds⟩
  · rcases Follows.opt_iff.mp rest with holds | taken
    · exact ⟨left, later, one readsFirst listed, numbered, holds⟩
    · exact absurd ((follows_token inside).mp (Follows.seq_iff.mp taken)).1 listed

theorem isRead_tail {level : Level} {kinds : List Kind} {phrase : Expr → Expr → Phrase}
    {start : Cursor} {after : List Token → Prop}
    (operands : ∀ kind ∈ kinds, operandBehind? kind = some level) (inside : .eof ∉ kinds)
    (more : ∀ {start later left right}, start.kind ∈ kinds →
      Reads start.advance (phraseAt level right) later →
      ∃ joined, ∀ {expr stop}, Reads later (phrase joined expr) stop →
        Reads start (phrase left expr) stop)
    (done : ∀ {stop expr}, stop.kind ∉ kinds → Reads stop (phrase expr expr) stop)
    (numbered : start.Numbered)
    (smaller : ∀ later : Cursor, later.remaining < start.remaining → later.Numbered →
      Complete level later)
    (greedy : Greedy after) (left : Expr)
    (follows : Follows (.star (.seq (.token kinds) (.rule (.expr level)))) after start.upcoming) :
    IsRead start (phrase left) after := by
  by_cases listed : start.kind ∈ kinds
  · have middle : start.kind ≠ .eof := fun ended => inside (ended ▸ listed)
    have less := remaining_advance_lt middle
    rw [upcoming_eq_cons middle] at follows
    have operand := (greedy.star operands start.current _ follows).2 level (operands _ listed)
    obtain ⟨right, later, reads, numberedLater, rest⟩ :=
      smaller start.advance less (numbered.advance middle) _ (greedy.star operands) operand
    have bound := reads.bound
    obtain ⟨joined, extend⟩ := more listed reads
    obtain ⟨expr, stop, others, numberedStop, holds⟩ :=
      isRead_tail operands inside more done numberedLater
        (fun other less => smaller other (by omega)) greedy joined rest
    exact ⟨expr, stop, extend others, numberedStop, holds⟩
  · rcases Follows.star_iff.mp follows with holds | taken
    · exact ⟨left, start, done listed, numbered, holds⟩
    · exact absurd ((follows_token inside).mp (Follows.seq_iff.mp taken)).1 listed
termination_by start.remaining

/-- The arguments behind the first one and the closing parenthesis. -/
theorem greedy_arguments (after : List Token → Prop) :
    Greedy (Follows (.star (.seq (.token [.comma]) (.rule (.expr .comparison))))
      (Follows (.token [.rightParen]) after)) := by
  have inert : ∀ kind ∈ [Kind.comma, .rightParen],
      kind ≠ .leftParen ∧ operandBehind? kind = none := by decide
  refine greedy_of_inert (fun tokens holds => ?_) inert
  rcases Follows.star_iff.mp holds with closed | next
  · exact closed.startsIn_token.mono (by decide)
  · exact (Follows.seq_iff.mp next).startsIn_token.mono (by decide)

theorem isRead_argumentsTail {start : Cursor} {after : List Token → Prop}
    (numbered : start.Numbered)
    (smaller : ∀ later : Cursor, later.remaining < start.remaining → later.Numbered →
      Complete .comparison later)
    (follows : Follows (.star (.seq (.token [.comma]) (.rule (.expr .comparison))))
      (Follows (.token [.rightParen]) after) start.upcoming) :
    IsRead start .argumentsTail after := by
  rcases Follows.star_iff.mp follows with closed | next
  · obtain ⟨closed, holds⟩ := (follows_token (by decide)).mp closed
    have closed := List.mem_singleton.mp closed
    exact ⟨[], start.advance, .argumentsEnd closed, numbered.advance (by simp [closed]), holds⟩
  · obtain ⟨comma, operand⟩ := (follows_token (by decide)).mp (Follows.seq_iff.mp next)
    have comma := List.mem_singleton.mp comma
    have inside : start.kind ≠ .eof := by simp [comma]
    have less := remaining_advance_lt inside
    obtain ⟨first, later, reads, numberedLater, rest⟩ :=
      smaller start.advance less (numbered.advance inside) _ (greedy_arguments after) operand
    have bound := reads.bound
    obtain ⟨others, stop, tail, numberedStop, holds⟩ :=
      isRead_argumentsTail numberedLater (fun other less => smaller other (by omega)) rest
    exact ⟨first :: others, stop, .argumentsMore comma reads tail, numberedStop, holds⟩
termination_by start.remaining

theorem isRead_arguments {start : Cursor} {after : List Token → Prop} (numbered : start.Numbered)
    (complete : ∀ later : Cursor, later.remaining ≤ start.remaining → later.Numbered →
      Complete .comparison later)
    (follows : Follows (.seq (.opt (.rule .arguments)) (.token [.rightParen])) after
      start.upcoming) :
    IsRead start .arguments after := by
  rcases Follows.opt_iff.mp (Follows.seq_iff.mp follows) with none | some
  · obtain ⟨listed, holds⟩ := (follows_token (by decide)).mp none
    have closed := List.mem_singleton.mp listed
    exact ⟨[], start.advance, .noArguments closed, numbered.advance (by simp [closed]), holds⟩
  · have listed := Follows.seq_iff.mp (Follows.rule_iff.mp some)
    -- An expression never starts with a closing parenthesis.
    have more : start.kind ≠ .rightParen := by
      obtain ⟨token, rest, whole, first⟩ := listed.startsIn_expr
      intro closed
      have same : start.kind = token.kind := congrArg Token.kind (List.cons.inj whole).1
      rw [← same, closed] at first
      exact absurd first (by decide)
    obtain ⟨first, later, head, numberedLater, rest⟩ :=
      complete start (Nat.le_refl _) numbered _ (greedy_arguments after) listed
    have bound := head.bound
    obtain ⟨others, stop, tail, numberedStop, holds⟩ :=
      isRead_argumentsTail numberedLater (fun other less => complete other (by omega)) rest
    exact ⟨first :: others, stop, .arguments more head tail, numberedStop, holds⟩

section Levels

variable {start : Cursor} {after : List Token → Prop} (numbered : start.Numbered)
  (smaller : ∀ later : Cursor, later.remaining < start.remaining → later.Numbered →
    ∀ level, Complete level later)

include numbered smaller

theorem isRead_conditional (word : Token) (inside : start.kind ≠ .eof) (greedy : Greedy after)
    (follows : Follows (.seq (.rule (.expr .disjunction)) (.seq (.token [.thenWord])
      (.seq (.rule (.expr .comparison))
        (.opt (.seq (.token [.elseWord]) (.rule (.expr .comparison))))))) after
      start.advance.upcoming) :
    IsRead start.advance (.conditional word) after := by
  have less := remaining_advance_lt inside
  have thenGreedy : Greedy (Follows (.seq (.token [.thenWord]) (.seq (.rule (.expr .comparison))
      (.opt (.seq (.token [.elseWord]) (.rule (.expr .comparison)))))) after) := by
    refine greedy_of_inert (fun tokens holds => (Follows.seq_iff.mp holds).startsIn_token) ?_
    decide
  have operands : ∀ kind ∈ [Kind.elseWord], operandBehind? kind = some Level.comparison := by
    decide
  obtain ⟨cond, afterCond, condition, numberedCond, rest⟩ :=
    smaller _ less (numbered.advance inside) .disjunction _ thenGreedy (Follows.seq_iff.mp follows)
  obtain ⟨thenWord, rest⟩ := (follows_token (by decide)).mp (Follows.seq_iff.mp rest)
  have thenWord := List.mem_singleton.mp thenWord
  have condInside : afterCond.kind ≠ .eof := by simp [thenWord]
  have condBound := condition.bound
  have condLess := remaining_advance_lt condInside
  obtain ⟨thenBranch, afterThen, first, numberedThen, rest⟩ :=
    smaller _ (by omega) (numberedCond.advance condInside) .comparison _ (greedy.opt operands)
      (Follows.seq_iff.mp rest)
  by_cases elseWord : afterThen.kind = .elseWord
  · have thenInside : afterThen.kind ≠ .eof := by simp [elseWord]
    have thenBound := first.bound
    have thenLess := remaining_advance_lt thenInside
    rw [upcoming_eq_cons thenInside] at rest
    have operand := greedy.take_opt operands (List.mem_singleton.mpr elseWord) rest
    obtain ⟨elseBranch, stop, second, numberedStop, holds⟩ :=
      smaller _ (by omega) (numberedThen.advance thenInside) .comparison _ greedy operand
    exact ⟨_, stop, .conditionalBoth condition thenWord first elseWord second, numberedStop, holds⟩
  · rcases Follows.opt_iff.mp rest with holds | taken
    · exact ⟨_, afterThen, .conditionalOne condition thenWord first elseWord, numberedThen, holds⟩
    · obtain ⟨listed, _⟩ := (follows_token (by decide)).mp (Follows.seq_iff.mp taken)
      exact absurd (List.mem_singleton.mp listed) elseWord

theorem isRead_grouping (opened : start.kind = .leftParen)
    (follows : Follows (.seq (.rule (.expr .comparison)) (.token [.rightParen])) after
      start.advance.upcoming) :
    IsRead start .primary after := by
  have inside : start.kind ≠ .eof := by simp [opened]
  have greedy : Greedy (Follows (.token [.rightParen]) after) :=
    greedy_of_inert (fun tokens holds => holds.startsIn_token) (by decide)
  obtain ⟨expr, later, inner, numberedLater, rest⟩ :=
    smaller _ (remaining_advance_lt inside) (numbered.advance inside) .comparison _ greedy
      (Follows.seq_iff.mp follows)
  obtain ⟨closed, holds⟩ := (follows_token (by decide)).mp rest
  have closed := List.mem_singleton.mp closed
  exact ⟨expr, later.advance, .grouping opened inner closed,
    numberedLater.advance (by simp [closed]), holds⟩

theorem isRead_call (name : start.kind = .ident) (opened : start.advance.kind = .leftParen)
    (follows : Follows (.seq (.opt (.rule .arguments)) (.token [.rightParen])) after
      start.advance.advance.upcoming) :
    IsRead start .primary after := by
  have inside : start.kind ≠ .eof := by simp [name]
  have innerInside : start.advance.kind ≠ .eof := by simp [opened]
  have less := remaining_advance_lt inside
  have innerLess := remaining_advance_lt innerInside
  obtain ⟨args, stop, inner, numberedStop, holds⟩ :=
    isRead_arguments ((numbered.advance inside).advance innerInside)
      (fun later bound numberedLater => smaller later (by omega) numberedLater .comparison) follows
  exact ⟨_, stop, .call name opened inner, numberedStop, holds⟩

omit smaller in
theorem isRead_literal (listed : start.kind ∈ [.number, .trueWord, .falseWord])
    (holds : after start.advance.upcoming) : IsRead start .primary after := by
  have inside : start.kind ≠ .eof := fun ended => absurd (ended ▸ listed) (by decide)
  simp only [List.mem_cons, List.not_mem_nil, or_false] at listed
  rcases listed with digits | word | word
  · obtain ⟨value, known⟩ := numbered start.current List.mem_cons_self digits
    exact ⟨_, _, .number digits known, numbered.advance inside, holds⟩
  · exact ⟨_, _, .trueWord word, numbered.advance inside, holds⟩
  · exact ⟨_, _, .falseWord word, numbered.advance inside, holds⟩

theorem complete_primary : Complete .primary start := by
  intro after greedy follows
  have shapes := Follows.rule_iff.mp follows
  simp only [Rule.form, Level.form, Follows.alt_iff] at shapes
  rcases shapes with group | choice | literal | call | var
  · obtain ⟨opened, rest⟩ := (follows_token (by decide)).mp (Follows.seq_iff.mp group)
    exact isRead_grouping numbered smaller (List.mem_singleton.mp opened) rest
  · obtain ⟨word, rest⟩ := (follows_token (by decide)).mp (Follows.seq_iff.mp choice)
    have word := List.mem_singleton.mp word
    obtain ⟨expr, stop, reads, numberedStop, holds⟩ :=
      isRead_conditional numbered smaller start.current (by simp [word]) greedy rest
    exact ⟨expr, stop, .choice word reads, numberedStop, holds⟩
  · obtain ⟨listed, holds⟩ := (follows_token (by decide)).mp literal
    exact isRead_literal numbered listed holds
  · obtain ⟨name, rest⟩ := (follows_token (by decide)).mp (Follows.seq_iff.mp call)
    obtain ⟨opened, rest⟩ := (follows_token (by decide)).mp (Follows.seq_iff.mp rest)
    exact isRead_call numbered smaller (List.mem_singleton.mp name) (List.mem_singleton.mp opened)
      rest
  · obtain ⟨name, holds⟩ := (follows_token (by decide)).mp var
    have name := List.mem_singleton.mp name
    have other : start.advance.kind ≠ .leftParen := (greedy _ _ holds).1
    exact ⟨_, _, .var name other, numbered.advance (by simp [name]), holds⟩

theorem complete_unary : Complete .unary start := by
  intro after greedy follows
  rcases Follows.alt_iff.mp (Follows.rule_iff.mp follows) with operator | primary
  · obtain ⟨listed, operand⟩ := (follows_token (by decide)).mp (Follows.seq_iff.mp operator)
    obtain ⟨op, found⟩ := Option.isSome_iff_exists.mp (isSome_unaryHere.mpr listed)
    have inside := inside_of_unaryOp found
    obtain ⟨inner, stop, reads, numberedStop, holds⟩ :=
      smaller _ (remaining_advance_lt inside) (numbered.advance inside) .unary _ greedy operand
    exact ⟨_, stop, .unaryOperator found reads, numberedStop, holds⟩
  · obtain ⟨token, rest, whole, first⟩ := primary.startsIn_primary
    have same : start.kind = token.kind := congrArg Token.kind (List.cons.inj whole).1
    have other : UnaryOp.ofKind? start.kind = none := by
      rw [← Option.not_isSome_iff_eq_none, isSome_unaryHere, same]
      revert first
      cases token.kind <;> decide
    obtain ⟨expr, stop, reads, numberedStop, holds⟩ :=
      complete_primary numbered smaller after greedy primary
    exact ⟨expr, stop, .unaryPrimary other reads, numberedStop, holds⟩

theorem complete_multiplicative : Complete .multiplicative start := by
  intro after greedy follows
  refine isRead_once [.star, .slash] (by decide) (by decide) ?_ ?_
    (complete_unary numbered smaller) (fun later less n => smaller later less n .multiplicative)
    greedy (Follows.rule_iff.mp follows)
  · intro later stop left right first listed second
    obtain ⟨op, found⟩ := Option.isSome_iff_exists.mp (isSome_multiplicativeHere.mpr listed)
    exact ⟨_, .multiplicativeBoth first found second⟩
  · intro stop expr only other
    rw [← isSome_multiplicativeHere, Option.not_isSome_iff_eq_none] at other
    exact .multiplicativeOne only other

theorem complete_additive : Complete .additive start := by
  intro after greedy follows
  have operands : ∀ kind ∈ [Kind.plus, .minus], operandBehind? kind = some .multiplicative := by
    decide
  obtain ⟨left, later, first, numberedLater, rest⟩ :=
    complete_multiplicative numbered smaller _ (greedy.star operands)
      (Follows.seq_iff.mp (Follows.rule_iff.mp follows))
  have bound := first.bound
  have tail : IsRead later (.additiveTail left) after := by
    refine isRead_tail operands (by decide) ?_ ?_ numberedLater
      (fun other less n => smaller other (by omega) n .multiplicative) greedy left rest
    · intro start later left right listed next
      obtain ⟨op, found⟩ := Option.isSome_iff_exists.mp (isSome_additiveHere.mpr listed)
      exact ⟨_, .additiveMore found next⟩
    · intro stop expr other
      rw [← isSome_additiveHere, Option.not_isSome_iff_eq_none] at other
      exact .additiveEnd other
  obtain ⟨expr, stop, others, numberedStop, holds⟩ := tail
  exact ⟨expr, stop, .additive first others, numberedStop, holds⟩

theorem complete_comparison : Complete .comparison start := by
  intro after greedy follows
  refine isRead_once comparisons (by decide) (by decide) ?_ ?_
    (complete_additive numbered smaller) (fun later less n => smaller later less n .additive)
    greedy (Follows.rule_iff.mp follows)
  · intro later stop left right first listed second
    obtain ⟨op, found⟩ := Option.isSome_iff_exists.mp (isSome_comparisonHere.mpr listed)
    exact ⟨_, .comparisonBoth first found second⟩
  · intro stop expr only other
    rw [← isSome_comparisonHere, Option.not_isSome_iff_eq_none] at other
    exact .comparisonOne only other

theorem complete_conjunction : Complete .conjunction start := by
  intro after greedy follows
  have operands : ∀ kind ∈ [Kind.andWord], operandBehind? kind = some .unary := by decide
  obtain ⟨left, later, first, numberedLater, rest⟩ :=
    complete_comparison numbered smaller _ (greedy.star operands)
      (Follows.seq_iff.mp (Follows.rule_iff.mp follows))
  have bound := first.bound
  have tail : IsRead later (.conjunctionTail left) after := by
    refine isRead_tail operands (by decide) ?_ ?_ numberedLater
      (fun other less n => smaller other (by omega) n .unary) greedy left rest
    · intro start later left right listed next
      exact ⟨_, .conjunctionMore (List.mem_singleton.mp listed) next⟩
    · intro stop expr other
      exact .conjunctionEnd fun found => other (List.mem_singleton.mpr found)
  obtain ⟨expr, stop, others, numberedStop, holds⟩ := tail
  exact ⟨expr, stop, .conjunction first others, numberedStop, holds⟩

theorem complete_disjunction : Complete .disjunction start := by
  intro after greedy follows
  have operands : ∀ kind ∈ [Kind.orWord], operandBehind? kind = some .conjunction := by decide
  obtain ⟨left, later, first, numberedLater, rest⟩ :=
    complete_conjunction numbered smaller _ (greedy.star operands)
      (Follows.seq_iff.mp (Follows.rule_iff.mp follows))
  have bound := first.bound
  have tail : IsRead later (.disjunctionTail left) after := by
    refine isRead_tail operands (by decide) ?_ ?_ numberedLater
      (fun other less n => smaller other (by omega) n .conjunction) greedy left rest
    · intro start later left right listed next
      exact ⟨_, .disjunctionMore (List.mem_singleton.mp listed) next⟩
    · intro stop expr other
      exact .disjunctionEnd fun found => other (List.mem_singleton.mpr found)
  obtain ⟨expr, stop, others, numberedStop, holds⟩ := tail
  exact ⟨expr, stop, .disjunction first others, numberedStop, holds⟩

end Levels

/-- Every sentence of every level is read. -/
theorem complete (level : Level) (start : Cursor) (numbered : start.Numbered) :
    Complete level start := by
  have smaller : ∀ later : Cursor, later.remaining < start.remaining → later.Numbered →
      ∀ level, Complete level later :=
    fun later _ numberedLater level => complete level later numberedLater
  cases level with
  | disjunction => exact complete_disjunction numbered smaller
  | conjunction => exact complete_conjunction numbered smaller
  | comparison => exact complete_comparison numbered smaller
  | additive => exact complete_additive numbered smaller
  | multiplicative => exact complete_multiplicative numbered smaller
  | unary => exact complete_unary numbered smaller
  | primary => exact complete_primary numbered smaller
termination_by start.remaining

end Reader

end Sipl
