import Sipl.Proofs.Reader.Completeness
import Sipl.Proofs.Reader.Predictive

namespace Sipl

open Grammar

namespace Grammar

/-- A form was tried at a cursor: without an error up to where the reading stopped, or the first
error is at the token at which the form got stuck. -/
inductive Tried (form : Form) (start : Cursor) : List SyntaxError → Cursor → Prop where
  | through {stop : Cursor} (tries : Tries form start.upcoming .through stop.upcoming) :
      Tried form start [] stop
  | stuck {first : SyntaxError} {others : List SyntaxError} {left : List Token} {stop : Cursor}
      (tries : Tries form start.upcoming .stuck left) (here : left.head? = some first.token) :
      Tried form start (first :: others) stop

theorem startsIn_upcoming {kinds : List Kind} {cursor : Cursor} :
    StartsIn kinds cursor.upcoming ↔ cursor.kind ∈ kinds :=
  startsIn_cons

namespace Tried

variable {form first second : Form} {start middle stop : Cursor} {errors others : List SyntaxError}

/-- A form that leads wherever another one leads may be said to be tried in its place. -/
theorem mono (tried : Tried first start errors stop)
    (wider : ∀ ending left, Tries first start.upcoming ending left →
      Tries second start.upcoming ending left) : Tried second start errors stop := by
  cases tried with
  | through tries => exact .through (wider _ _ tries)
  | stuck tries here => exact .stuck (wider _ _ tries) here

/-- What is met behind the first part matters only if the first part was read without an error. -/
theorem seq (head : Tried first start errors middle)
    (tail : errors = [] → Tried second middle others stop) :
    Tried (.seq first second) start (errors ++ others) stop := by
  cases head with
  | through tries =>
      cases tail rfl with
      | through rest => exact .through (.seq tries rest)
      | stuck rest here => exact .stuck (.seq tries rest) here
  | stuck tries here => exact .stuck (.seqStuck tries) here

theorem rule {rule : Rule} (tried : Tried rule.factored start errors stop) :
    Tried (.rule rule) start errors stop :=
  tried.mono fun _ _ => .rule

theorem assoc {third : Form} (tried : Tried (.seq (.seq first second) third) start errors stop) :
    Tried (.seq first (.seq second third)) start errors stop :=
  tried.mono fun _ _ => Tries.assoc_iff.mp

theorem left (starts : start.kind ∈ first.starts) (tried : Tried first start errors stop) :
    Tried (.alt first second) start errors stop :=
  tried.mono fun _ _ => .left (startsIn_upcoming.mpr starts)

theorem right (other : start.kind ∉ first.starts) (tried : Tried second start errors stop) :
    Tried (.alt first second) start errors stop :=
  tried.mono fun _ _ => .right (mt startsIn_upcoming.mp other)

theorem some (starts : start.kind ∈ form.starts) (tried : Tried form start errors stop) :
    Tried (.opt form) start errors stop :=
  tried.mono fun _ _ => .some (startsIn_upcoming.mpr starts)

theorem none (other : start.kind ∉ form.starts) : Tried (.opt form) start [] start :=
  .through (.none (mt startsIn_upcoming.mp other))

/-- A repetition of two parts goes on with the first one. -/
theorem more (starts : start.kind ∈ first.starts)
    (tried : Tried (.seq first (.seq second (.star (.seq first second)))) start errors stop) :
    Tried (.star (.seq first second)) start errors stop :=
  tried.mono fun _ _ tries => .more (startsIn_upcoming.mpr starts) (Tries.assoc_iff.mpr tries)

/-- A repetition of two parts that something follows goes on with the first one. -/
theorem again {third : Form} (starts : start.kind ∈ first.starts)
    (tried : Tried (.seq first (.seq second (.seq (.star (.seq first second)) third))) start errors
      stop) : Tried (.seq (.star (.seq first second)) third) start errors stop :=
  tried.mono fun _ _ tries =>
    (Tries.assoc_iff.mpr (Tries.assoc_iff.mpr tries)).seq_mono fun _ _ =>
      .more (startsIn_upcoming.mpr starts)

/-- The production of a rule and what follows it may be grouped otherwise. -/
theorem grouped {rule : Rule} {third : Form} (whole : rule.factored = .seq first second)
    (tried : Tried (.seq first (.seq second third)) start errors stop) :
    Tried (.seq (.rule rule) third) start errors stop :=
  tried.mono fun _ _ tries => (Tries.assoc_iff.mpr tries).seq_mono fun _ _ => whole ▸ .rule

theorem done (other : start.kind ∉ form.starts) : Tried (.star form) start [] start :=
  .through (.done (mt startsIn_upcoming.mp other))

theorem token {kinds : List Kind} (inside : start.kind ≠ .eof) (listed : start.kind ∈ kinds) :
    Tried (.token kinds) start [] start.advance := by
  refine .through ?_
  rw [Cursor.upcoming_eq_cons inside]
  exact .token listed

theorem wrong {kinds : List Kind} {fault : SyntaxFault} {message : String}
    (other : start.kind ∉ kinds) :
    Tried (.token kinds) start (start.errorHere fault message :: others) stop :=
  .stuck (.wrong (mt startsIn_upcoming.mp other)) rfl

/-- Behind an error it does not matter where the reading stopped. -/
theorem anywhere {error : SyntaxError} (tried : Tried form start (error :: others) middle) :
    Tried form start (error :: others) stop := by
  cases tried with
  | stuck tries here => exact .stuck tries here

/-- Behind an error in the first part of a sequence the second one is not tried. -/
theorem halt {error : SyntaxError} (middle : Cursor)
    (head : Tried first start (error :: others) middle) :
    Tried (.seq first second) start (error :: others) stop := by
  cases head with
  | stuck tries here => exact .stuck (.seqStuck tries) here

/-- Numbers that are not reached yet still have values. -/
theorem numbered (tried : Tried form start errors stop) (clean : errors = [])
    (known : start.Numbered) (proper : form.proper := by rfl) : stop.Numbered := by
  cases tried with
  | through tries =>
      obtain ⟨front, whole, _⟩ := tries.passed proper
      intro token member
      exact known token (by rw [whole]; exact List.mem_append_right front member)
  | stuck => cases clean

end Tried

end Grammar

namespace Reading

variable {start : Cursor} {α β : Type}

/-- A reading tries a form.  What it yields may tell of errors that were met on the way. -/
def Tries (reading : Reading start α) (form : Form)
    (met : α → List SyntaxError := fun _ => []) : Prop :=
  Tried form start (reading.errors met) reading.stop

variable {form first second : Form} {met : β → List SyntaxError}

theorem tries_andThen {reading : Id (Reading start α)}
    {next : α → (later : Cursor) → later.remaining ≤ start.remaining → Id (Reading later β)}
    (head : reading.Tries first) (known : start.Numbered)
    (tail : ∀ value later bound, later.Numbered → (next value later bound).Tries second met)
    (proper : first.proper := by rfl) : (andThen reading next).Tries (.seq first second) met := by
  obtain ⟨result, middle, bound⟩ := reading
  cases result with
  | error error => exact head.halt middle
  | ok value => exact head.seq fun _ => tail value middle bound (head.numbered rfl known proper)

/-- Behind a part in which errors were met, others are added to them. -/
theorem tries_andThen_met {reading : Id (Reading start α)} {early : α → List SyntaxError}
    {next : α → (later : Cursor) → later.remaining ≤ start.remaining → Id (Reading later β)}
    (head : reading.Tries first early) (known : start.Numbered)
    (tail : ∀ value later bound, ∃ others,
      (next value later bound).errors met = early value ++ others ∧
        (later.Numbered → Tried second later others (next value later bound).stop))
    (proper : first.proper := by rfl) : (andThen reading next).Tries (.seq first second) met := by
  obtain ⟨result, middle, bound⟩ := reading
  cases result with
  | error error => exact head.halt middle
  | ok value =>
      obtain ⟨others, added, tried⟩ := tail value middle bound
      change Tried _ start ((next value middle bound).errors met) _
      rw [added]
      exact head.seq fun clean => tried (head.numbered clean known proper)

theorem tries_finish {reading : Id (Reading start α)} {make : α → Cursor → β}
    (tries : reading.Tries form fun value => met (make value reading.stop)) :
    (finish reading make).Tries form met := by
  obtain ⟨result, middle, bound⟩ := reading
  cases result <;> exact tries

theorem tries_take {cursor : Cursor} {inside : cursor.kind ≠ .eof}
    {next : Token → (later : Cursor) → later.remaining < cursor.remaining → Reading later β}
    {kinds : List Kind} (listed : cursor.kind ∈ kinds) (known : cursor.Numbered)
    (behind : ∀ token less, cursor.advance.Numbered →
      (next token cursor.advance less).Tries second met) :
    (trees.take cursor inside next).Tries (.seq (.token kinds) second) met :=
  Tried.seq (.token inside listed) fun _ => behind _ _ (known.advance inside)

theorem tries_expect {cursor : Cursor} {kind : Kind} {message : String}
    (other : kind ≠ .eof := by decide) :
    (trees.expect cursor kind message).Tries (.token [kind]) := by
  unfold Keeper.expect
  split
  · next found => exact .token (found ▸ other) (List.mem_singleton.mpr found)
  · next missing => exact .wrong (mt List.mem_singleton.mp missing)

theorem tries_expectName {cursor : Cursor} {message : String} :
    (trees.expectName cursor message).Tries (.token [.ident]) := by
  unfold Keeper.expectName
  split
  · next found => exact .token (by simp [found]) (List.mem_singleton.mpr found)
  · next missing => exact .wrong (mt List.mem_singleton.mp missing)

end Reading

namespace Reader

open Reading Keeper

theorem tried_literal {cursor : Cursor}
    (listed : cursor.kind ∈ [Kind.number, .trueWord, .falseWord]) :
    Tried (Rule.factored (.expr .primary)) cursor [] cursor.advance := by
  have inside : cursor.kind ≠ .eof := fun ended => absurd (ended ▸ listed) (by decide)
  have opened : cursor.kind ∉ [Kind.leftParen] := fun found =>
    absurd (List.mem_singleton.mp found ▸ listed) (by decide)
  have choice : cursor.kind ∉ [Kind.ifWord] := fun found =>
    absurd (List.mem_singleton.mp found ▸ listed) (by decide)
  exact .right opened (.right choice (.left listed (.token inside listed)))

mutual

theorem tries_disjunction (cursor : Cursor) (known : cursor.Numbered) :
    (trees.disjunction cursor).Tries (.rule (.expr .disjunction)) := by
  rw [disjunction, during_trees]
  refine .rule (tries_andThen (tries_conjunction cursor known) known fun left later _ known => ?_)
  exact tries_disjunctionTail left later known
termination_by cursor.remaining * 16 + 11

theorem tries_disjunctionTail (left : Expr) (cursor : Cursor) (known : cursor.Numbered) :
    (trees.disjunctionTail left cursor).Tries
      (.star (.seq (.token [.orWord]) (.rule (.expr .conjunction)))) := by
  rw [disjunctionTail]
  split
  · next found =>
      have listed := List.mem_singleton.mpr found
      refine Tried.more listed (tries_take listed known fun operator _ known => ?_)
      refine tries_andThen (tries_conjunction _ known) known fun _ later _ known => ?_
      exact tries_disjunctionTail _ later known
  · next other => exact .done (mt List.mem_singleton.mp other)
termination_by cursor.remaining * 16 + 10

theorem tries_conjunction (cursor : Cursor) (known : cursor.Numbered) :
    (trees.conjunction cursor).Tries (.rule (.expr .conjunction)) := by
  rw [conjunction, during_trees]
  refine .rule (tries_andThen (tries_comparison cursor known) known fun left later _ known => ?_)
  exact tries_conjunctionTail left later known
termination_by cursor.remaining * 16 + 9

theorem tries_conjunctionTail (left : Expr) (cursor : Cursor) (known : cursor.Numbered) :
    (trees.conjunctionTail left cursor).Tries
      (.star (.seq (.token [.andWord]) (.rule (.expr .unary)))) := by
  rw [conjunctionTail]
  split
  · next found =>
      have listed := List.mem_singleton.mpr found
      refine Tried.more listed (tries_take listed known fun operator _ known => ?_)
      refine tries_andThen (tries_unary _ known) known fun _ later _ known => ?_
      exact tries_conjunctionTail _ later known
  · next other => exact .done (mt List.mem_singleton.mp other)
termination_by cursor.remaining * 16 + 8

theorem tries_comparison (cursor : Cursor) (known : cursor.Numbered) :
    (trees.comparison cursor).Tries (.rule (.expr .comparison)) := by
  rw [comparison, during_trees]
  refine .rule (tries_andThen (tries_additive cursor known) known fun left later _ known => ?_)
  split
  · next op found =>
      have listed := isSome_comparisonHere.mp (Option.isSome_of_eq_some found)
      refine Tried.some listed (tries_take listed known fun operator _ known => ?_)
      exact tries_finish (tries_additive _ known)
  · next missing =>
      rw [← Option.not_isSome_iff_eq_none, isSome_comparisonHere] at missing
      exact .none missing
termination_by cursor.remaining * 16 + 7

theorem tries_additive (cursor : Cursor) (known : cursor.Numbered) :
    (trees.additive cursor).Tries (.rule (.expr .additive)) := by
  rw [additive, during_trees]
  have first := tries_multiplicative cursor known
  refine .rule (tries_andThen first known fun left later _ known => ?_)
  exact tries_additiveTail left later known
termination_by cursor.remaining * 16 + 6

theorem tries_additiveTail (left : Expr) (cursor : Cursor) (known : cursor.Numbered) :
    (trees.additiveTail left cursor).Tries
      (.star (.seq (.token [.plus, .minus]) (.rule (.expr .multiplicative)))) := by
  rw [additiveTail]
  split
  · next op found =>
      have listed := isSome_additiveHere.mp (Option.isSome_of_eq_some found)
      refine Tried.more listed (tries_take listed known fun operator _ known => ?_)
      refine tries_andThen (tries_multiplicative _ known) known fun _ later _ known => ?_
      exact tries_additiveTail _ later known
  · next missing =>
      rw [← Option.not_isSome_iff_eq_none, isSome_additiveHere] at missing
      exact .done missing
termination_by cursor.remaining * 16 + 5

theorem tries_multiplicative (cursor : Cursor) (known : cursor.Numbered) :
    (trees.multiplicative cursor).Tries (.rule (.expr .multiplicative)) := by
  rw [multiplicative, during_trees]
  refine .rule (tries_andThen (tries_unary cursor known) known fun left later _ known => ?_)
  split
  · next op found =>
      have listed := isSome_multiplicativeHere.mp (Option.isSome_of_eq_some found)
      refine Tried.some listed (tries_take listed known fun operator _ known => ?_)
      exact tries_finish (tries_multiplicative _ known)
  · next missing =>
      rw [← Option.not_isSome_iff_eq_none, isSome_multiplicativeHere] at missing
      exact .none missing
termination_by cursor.remaining * 16 + 4

theorem tries_unary (cursor : Cursor) (known : cursor.Numbered) :
    (trees.unary cursor).Tries (.rule (.expr .unary)) := by
  rw [unary, during_trees]
  split
  · next op found =>
      have listed := isSome_unaryHere.mp (Option.isSome_of_eq_some found)
      refine .rule (.left listed (tries_take listed known fun operator _ known => ?_))
      exact tries_finish (tries_unary _ known)
  · next missing =>
      rw [← Option.not_isSome_iff_eq_none, isSome_unaryHere] at missing
      exact .rule (.right missing (tries_primary cursor known))
termination_by cursor.remaining * 16 + 3

theorem tries_primary (cursor : Cursor) (known : cursor.Numbered) :
    (trees.primary cursor).Tries (.rule (.expr .primary)) := by
  rw [primary, during_trees]
  refine .rule ?_
  split
  · next found =>
      have listed := List.mem_singleton.mpr found
      refine .left listed (tries_take listed known fun _ _ known => ?_)
      refine tries_andThen (tries_comparison _ known) known fun _ later _ _ => ?_
      exact tries_finish tries_expect
  · next found =>
      have listed := List.mem_singleton.mpr found
      refine .right (by rw [found]; decide) (.left listed ?_)
      exact tries_take listed known fun _ _ known => tries_conditional _ _ known
  · next found =>
      obtain ⟨value, literal⟩ := known cursor.current List.mem_cons_self found
      split
      · exact tried_literal (by simp [found])
      · next missing => exact absurd literal (missing value)
  · next found => exact tried_literal (by simp [found])
  · next found => exact tried_literal (by simp [found])
  · next found =>
      have listed := List.mem_singleton.mpr found
      have inside : cursor.kind ≠ .eof := by simp [found]
      refine .right (by rw [found]; decide) (.right (by rw [found]; decide)
        (.right (by rw [found]; decide) ?_))
      rw [← Cursor.kind_advance inside]
      split
      · next opened =>
          refine tries_take listed known fun name _ known => ?_
          exact Tried.some (List.mem_singleton.mpr opened) (tries_call name _ known)
      · next other =>
          exact tries_take listed known fun name _ _ => Tried.none (mt List.mem_singleton.mp other)
  · next opened choice number trueWord falseWord name =>
      have literal : cursor.kind ∉ [Kind.number, .trueWord, .falseWord] := by
        simp only [List.mem_cons, List.not_mem_nil, or_false, not_or]
        exact ⟨number, trueWord, falseWord⟩
      refine .right (mt List.mem_singleton.mp opened) (.right (mt List.mem_singleton.mp choice) ?_)
      exact .right literal (Tried.halt cursor (.wrong (mt List.mem_singleton.mp name)))
termination_by cursor.remaining * 16 + 2

/-- The rest of an `if` expression. -/
theorem tries_conditional (word : Token) (cursor : Cursor) (known : cursor.Numbered) :
    (trees.conditional word cursor).Tries (.seq (.rule (.expr .disjunction))
      (.seq (.token [.thenWord]) (.seq (.rule (.expr .comparison))
        (.opt (.seq (.token [.elseWord]) (.rule (.expr .comparison))))))) := by
  rw [conditional]
  refine tries_andThen (tries_disjunction cursor known) known fun cond afterCond _ known => ?_
  refine tries_andThen tries_expect known fun _ behindThen _ known => ?_
  have branch := tries_comparison behindThen known
  refine tries_andThen branch known fun thenBranch afterThen _ known => ?_
  split
  · next found =>
      have listed := List.mem_singleton.mpr found
      refine Tried.some listed (tries_take listed known fun _ _ known => ?_)
      exact tries_finish (tries_comparison _ known)
  · next other => exact .none (mt List.mem_singleton.mp other)
termination_by cursor.remaining * 16 + 12

/-- The rest of a call. -/
theorem tries_call (name : Token) (cursor : Cursor) (known : cursor.Numbered) :
    (trees.call name cursor).Tries (.seq (.token [.leftParen])
      (.alt (.token [.rightParen]) (.seq (.rule .arguments) (.token [.rightParen])))) := by
  rw [call]
  refine tries_andThen tries_expect known fun _ behind _ known => ?_
  exact tries_finish (tries_arguments behind known)
termination_by cursor.remaining * 16 + 15

theorem tries_arguments (cursor : Cursor) (known : cursor.Numbered) :
    (trees.arguments cursor).Tries
      (.alt (.token [.rightParen]) (.seq (.rule .arguments) (.token [.rightParen]))) := by
  rw [arguments]
  split
  · next found =>
      have listed := List.mem_singleton.mpr found
      exact .left listed (.token (by simp [found]) listed)
  · next other =>
      refine .right (mt List.mem_singleton.mp other) (.grouped rfl ?_)
      refine tries_andThen (tries_comparison cursor known) known fun first later _ known => ?_
      exact tries_finish (tries_argumentsTail later known)
termination_by cursor.remaining * 16 + 14

/-- The arguments behind the first one and the closing parenthesis. -/
theorem tries_argumentsTail (cursor : Cursor) (known : cursor.Numbered) :
    (trees.argumentsTail cursor).Tries
      (.seq (.star (.seq (.token [.comma]) (.rule (.expr .comparison))))
        (.token [.rightParen])) := by
  rw [argumentsTail]
  split
  · next found =>
      have listed := List.mem_singleton.mpr found
      have other : cursor.kind ∉ [Kind.comma] := by simp [found]
      exact Tried.seq (.done other) fun _ => .token (by simp [found]) listed
  · next closed =>
      split
      · next found =>
          have listed := List.mem_singleton.mpr found
          refine Tried.again listed (tries_take listed known fun _ _ known => ?_)
          refine tries_andThen (tries_comparison _ known) known fun argument later _ known => ?_
          exact tries_finish (tries_argumentsTail later known)
      · next comma =>
          refine Tried.seq (.done (mt List.mem_singleton.mp comma)) fun _ => ?_
          exact .wrong (mt List.mem_singleton.mp closed)
termination_by cursor.remaining * 16 + 13

end

end Reader

namespace Recovered

variable {start : Cursor} {α β : Type} {form first second : Form}

def Tries (recovered : Recovered start α) (form : Form) : Prop :=
  Tried form start recovered.errors recovered.stop

theorem tries_andThen {recovered : Id (Recovered start α)}
    {next : α → (later : Cursor) → later.remaining ≤ start.remaining → Id (Recovered later β)}
    (head : recovered.Tries first) (known : start.Numbered)
    (tail : ∀ value later bound, recovered.Yields value [] later → later.Numbered →
      (next value later bound).Tries second)
    (proper : first.proper := by rfl) : (andThen recovered next).Tries (.seq first second) := by
  obtain ⟨value, errors, middle, bound⟩ := recovered
  exact Tried.seq head fun clean =>
    tail value middle bound ⟨rfl, clean, rfl⟩ (Tried.numbered head clean known proper)

theorem tries_pass {cursor : Cursor} {inside : cursor.kind ≠ .eof}
    {next : (later : Cursor) → later.remaining < cursor.remaining → Recovered later α}
    {kinds : List Kind} (listed : cursor.kind ∈ kinds) (known : cursor.Numbered)
    (behind : ∀ less, cursor.advance.Numbered → (next cursor.advance less).Tries second) :
    (trees.pass cursor inside next).Tries (.seq (.token kinds) second) :=
  Tried.seq (.token inside listed) fun _ => behind _ (known.advance inside)

theorem tries_orSkip {reading : Reading start (α × List SyntaxError)} {boundary : KindSet}
    (tries : reading.Tries form Prod.snd) : (trees.orSkip reading boundary).Tries form := by
  obtain ⟨result, stop, bound⟩ := reading
  cases result with
  | ok made => exact tries
  | error error => exact tries.anywhere

end Recovered

namespace Reader

open Reading Keeper

theorem tries_closeBlock (cursor : Cursor) :
    (trees.closeBlock cursor).Tries (.token [.endWord]) := by
  rw [closeBlock]
  split
  · next found => exact .token (by simp [found]) (List.mem_singleton.mpr found)
  · next missing => exact .wrong (mt List.mem_singleton.mp missing)

mutual

theorem tries_block (cursor : Cursor) (known : cursor.Numbered) :
    (trees.block cursor).Tries (.rule .block) := by
  rw [block, during_trees]
  split
  · next found =>
      have listed := List.mem_singleton.mpr found
      refine .rule (Recovered.tries_pass listed known fun _ known => Tried.assoc ?_)
      refine Recovered.tries_andThen (tries_statements _ known) known fun _ later _ _ _ => ?_
      exact tries_closeBlock later
  · next missing =>
      exact .rule (Tried.halt cursor (.wrong (mt List.mem_singleton.mp missing)))
termination_by cursor.remaining * 4 + 2

theorem tries_statements (cursor : Cursor) (known : cursor.Numbered) :
    (trees.statements cursor).Tries (.seq (.rule .statement)
      (.star (.seq (.token [.semicolon]) (.rule .statement)))) := by
  rw [statements]
  have head := tries_statement cursor known
  refine Recovered.tries_andThen (Recovered.tries_orSkip head) known fun _ later _ _ known => ?_
  split
  · next found =>
      have listed := List.mem_singleton.mpr found
      refine Tried.more listed (Recovered.tries_pass listed known fun _ known => ?_)
      exact tries_statements _ known
  · next other => exact .done (mt List.mem_singleton.mp other)
termination_by cursor.remaining * 4 + 1

theorem tries_statement (cursor : Cursor) (known : cursor.Numbered) :
    (trees.statement cursor).Tries (.rule .statement) Prod.snd := by
  rw [statement, during_trees]
  refine .rule ?_
  split
  · next found =>
      have listed := List.mem_singleton.mpr found
      refine .left listed (tries_take listed known fun _ _ known => ?_)
      refine tries_andThen (tries_disjunction _ known) known fun cond afterCond _ known => ?_
      refine tries_andThen tries_expect known fun _ behindThen _ known => ?_
      have first : (trees.block behindThen).toReading.Tries (.rule .block) Prod.snd :=
        tries_block behindThen known
      refine tries_andThen_met first known fun (_, errors) afterThen _ => ?_
      dsimp only
      split
      · next again =>
          have listed := List.mem_singleton.mpr again
          have inside : afterThen.kind ≠ .eof := by simp [again]
          have less := Cursor.remaining_advance_lt inside
          refine ⟨(trees.block afterThen.advance).errors, rfl, fun known => Tried.some listed ?_⟩
          exact Tried.seq (.token inside listed) fun _ => tries_block _ (known.advance inside)
      · next other =>
          exact ⟨[], (List.append_nil _).symm, fun _ => .none (mt List.mem_singleton.mp other)⟩
  · next found =>
      have listed := List.mem_singleton.mpr found
      refine .right (by rw [found]; decide) (.left listed ?_)
      refine tries_take listed known fun _ _ known => ?_
      refine tries_andThen (tries_disjunction _ known) known fun cond afterCond _ known => ?_
      refine tries_andThen tries_expect known fun _ behindDo _ known => ?_
      exact tries_finish (tries_block behindDo known)
  · next found =>
      have listed := List.mem_singleton.mpr found
      refine .right (by rw [found]; decide) (.right (by rw [found]; decide) ?_)
      refine tries_take listed known fun _ _ known => ?_
      refine tries_andThen tries_expect known fun _ behindAssign _ known => ?_
      exact tries_finish (tries_disjunction behindAssign known)
  · next choice loop name =>
      refine .right (mt List.mem_singleton.mp choice) (.right (mt List.mem_singleton.mp loop) ?_)
      exact Tried.halt cursor (.wrong (mt List.mem_singleton.mp name))
termination_by cursor.remaining * 4

end

theorem tries_paramsTail (cursor : Cursor) (known : cursor.Numbered) :
    (trees.paramsTail cursor).Tries (.star (.seq (.token [.comma]) (.token [.ident]))) := by
  rw [paramsTail]
  split
  · next found =>
      have listed := List.mem_singleton.mpr found
      refine Tried.more listed (tries_take listed known fun _ _ known => ?_)
      refine tries_andThen tries_expectName known fun name later _ known => ?_
      exact tries_finish (tries_paramsTail later known)
  · next other => exact .done (mt List.mem_singleton.mp other)
termination_by cursor.remaining

theorem tries_params {cursor : Cursor} (known : cursor.Numbered)
    (other : cursor.kind ≠ .rightParen) : (trees.params cursor).Tries (.rule .params) := by
  rw [params, during_trees, if_neg other]
  refine .rule (tries_andThen tries_expectName known fun name later _ known => ?_)
  exact tries_finish (tries_paramsTail later known)

/-- The parameters and the closing parenthesis, in front of something else. -/
theorem tries_params_bind {α : Type} {cursor : Cursor} {met : α → List SyntaxError} {second : Form}
    {next : List Param → (later : Cursor) → later.remaining ≤ cursor.remaining → Reading later α}
    (known : cursor.Numbered) (tail : ∀ value later bound, later.Numbered →
      (next value later bound).Tries (.seq (.token [.rightParen]) second) met) :
    (andThen (trees.params cursor) next).Tries
      (.seq (.alt (.token [.rightParen]) (.seq (.rule .params) (.token [.rightParen]))) second)
      met := by
  by_cases closed : cursor.kind = .rightParen
  · have starts := startsIn_upcoming.mpr (List.mem_singleton.mpr closed)
    have none : trees.params cursor = Reading.done [] := by
      rw [params, during_trees, if_pos closed, pure_trees]
    rw [none]
    exact Tried.mono (tail [] cursor (Nat.le_refl _) known) fun _ _ tries =>
      tries.seq_mono fun _ _ => .left starts
  · have other := mt startsIn_upcoming.mp (mt List.mem_singleton.mp closed)
    refine Tried.mono (tries_andThen (tries_params known closed) known tail) fun _ _ tries => ?_
    exact (Tries.assoc_iff.mpr tries).seq_mono fun _ _ => .right other

theorem tries_function (word : Token) (cursor : Cursor) (known : cursor.Numbered) :
    (trees.function word cursor).Tries (.seq (.token [.ident]) (.seq (.token [.leftParen])
      (.seq (.alt (.token [.rightParen]) (.seq (.rule .params) (.token [.rightParen])))
        (.seq (.token [.eq]) (.rule (.expr .comparison)))))) Prod.snd := by
  rw [function]
  refine tries_andThen tries_expectName known fun name behindName _ known => ?_
  refine tries_andThen tries_expect known fun _ behindOpen _ known => ?_
  refine tries_params_bind known fun params afterParams _ known => ?_
  refine tries_andThen tries_expect known fun _ behindClose _ known => ?_
  refine tries_andThen tries_expect known fun _ behindEq _ known => ?_
  exact tries_finish (tries_comparison behindEq known)

theorem tries_functions (cursor : Cursor) (known : cursor.Numbered) :
    (trees.functions cursor).Tries (.opt (.rule .functions)) := by
  rw [functions]
  split
  · next found =>
      have listed := List.mem_singleton.mpr found
      refine Tried.some listed (.rule (.grouped rfl ?_))
      refine Recovered.tries_pass listed known fun _ known => ?_
      have head := tries_function cursor.current _ known
      refine Recovered.tries_andThen (Recovered.tries_orSkip head) known
        fun declared later _ read known => ?_
      split
      · next again =>
          have listed := List.mem_singleton.mpr again
          refine Tried.some listed (Recovered.tries_pass listed known fun _ known => ?_)
          exact tries_functions _ known
      · next other =>
          obtain ⟨one, _, rfl⟩ | ⟨_, _, _, dirty, _⟩ := yields_orSkip.mp read
          · exact .none (mt List.mem_singleton.mp other)
          · cases dirty
  · next other => exact .none (mt List.mem_singleton.mp other)
termination_by cursor.remaining

end Reader

namespace Parsed

open Reader

/-- A program and the end of the input. -/
def whole : Form := .seq (.rule .program) (.token [.eof])

/-- A stream is read as a program in front of the end of the input: without an error if that leads
through, and else the first error is at the token at which it gets stuck. -/
theorem tries_whole (cursor : Cursor) (known : cursor.Numbered) :
    ((ofCursor cursor).errors = [] ∧ ∃ left, Tries whole cursor.upcoming .through left) ∨
      ∃ first others left, (ofCursor cursor).errors = first :: others ∧
        Tries whole cursor.upcoming .stuck left ∧ left.head? = some first.token := by
  by_cases word : cursor.kind = .programWord
  · have listed := List.mem_singleton.mpr word
    have inside : cursor.kind ≠ .eof := by simp [word]
    have declared := tries_functions cursor.advance (known.advance inside)
    have parts : Tried (.rule .program) cursor _
        (trees.block (trees.functions cursor.advance).stop).stop :=
      .rule (Tried.seq (.token inside listed) fun _ => Tried.seq declared fun clean =>
        tries_block _ (Tried.numbered declared clean (known.advance inside)))
    rw [errors_ofCursor word]
    generalize trees.block (trees.functions cursor.advance).stop = body at parts ⊢
    generalize (trees.functions cursor.advance).errors ++ body.errors = errors at parts ⊢
    cases parts with
    | through tries =>
        by_cases ended : body.stop.kind = .eof
        · have read : Tries (.token [.eof]) body.stop.upcoming .through body.stop.ahead :=
            .token (List.mem_singleton.mpr ended)
          rw [if_neg (by simp [Cursor.atEnd, ended])]
          exact .inl ⟨rfl, _, .seq tries read⟩
        · have stuck := Tries.wrong (mt startsIn_upcoming.mp (mt List.mem_singleton.mp ended))
          rw [if_pos (by simp [Cursor.atEnd, ended])]
          exact .inr ⟨_, _, _, rfl, .seq tries stuck, rfl⟩
    | stuck tries here => exact .inr ⟨_, _, _, rfl, .seqStuck tries, here⟩
  · have stuck := Tries.wrong (mt startsIn_upcoming.mp (mt List.mem_singleton.mp word))
    rw [ofCursor_of_other word]
    exact .inr ⟨_, _, _, rfl, .seqStuck (.rule (.seqStuck stuck)), rfl⟩

end Parsed

end Sipl
