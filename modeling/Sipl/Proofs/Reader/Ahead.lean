import Sipl.Proofs.Reader.Yields
import Sipl.Proofs.Text.Graphic

namespace Sipl

theorem Kind.mem_all (kind : Kind) : kind ∈ all := by
  cases kind <;> decide

/-- On the way through some tokens, up to those that are left, errors of a sort are met one after
the other.  The tokens that are passed are of the kinds. -/
inductive Meets (kinds : List Kind) (sort : SyntaxError → Prop) :
    List Token → List SyntaxError → List Token → Prop where
  | none {front left : List Token} (passed : ∀ token ∈ front, token.kind ∈ kinds) :
      Meets kinds sort (front ++ left) [] left
  | error {front rest left : List Token} {error : SyntaxError} {errors : List SyntaxError}
      (passed : ∀ token ∈ front, token.kind ∈ kinds) (sorted : sort error)
      (later : Meets kinds sort (error.token :: rest) errors left) :
      Meets kinds sort (front ++ error.token :: rest) (error :: errors) left

namespace Meets

variable {kinds more : List Kind} {sort wider : SyntaxError → Prop}
  {tokens middle left : List Token} {errors others : List SyntaxError}

theorem refl : Meets kinds sort left [] left :=
  none (List.forall_mem_nil _)

theorem after {front : List Token} (passed : ∀ token ∈ front, token.kind ∈ kinds)
    (meets : Meets kinds sort tokens errors left) :
    Meets kinds sort (front ++ tokens) errors left := by
  cases meets with
  | none further =>
      rw [← List.append_assoc]
      exact .none (List.forall_mem_append.mpr ⟨passed, further⟩)
  | error further sorted later =>
      rw [← List.append_assoc]
      exact .error (List.forall_mem_append.mpr ⟨passed, further⟩) sorted later

theorem trans (first : Meets kinds sort tokens errors middle)
    (second : Meets kinds sort middle others left) :
    Meets kinds sort tokens (errors ++ others) left := by
  induction first with
  | none passed => exact second.after passed
  | error passed sorted _ ih => exact .error passed sorted (ih second)

theorem mono (meets : Meets kinds sort tokens errors left) (within : kinds ⊆ more)
    (weaker : ∀ error, sort error → wider error) : Meets more wider tokens errors left := by
  induction meets with
  | none passed => exact .none fun token member => within (passed token member)
  | error passed sorted _ ih =>
      exact .error (fun token member => within (passed token member)) (weaker _ sorted) ih

theorem sorted (meets : Meets kinds sort tokens errors left) : ∀ error ∈ errors, sort error := by
  induction meets with
  | none => exact List.forall_mem_nil _
  | error _ sorted _ ih => exact List.forall_mem_cons.mpr ⟨sorted, ih⟩

theorem suffix (meets : Meets kinds sort tokens errors left) : left <:+ tokens := by
  induction meets with
  | none => exact List.suffix_append _ _
  | error _ _ _ ih => exact ih.trans (List.suffix_append _ _)

/-- Tokens of any kind may be passed. -/
theorem of_suffix (suffix : left <:+ tokens) : Meets Kind.all sort tokens [] left := by
  obtain ⟨front, rfl⟩ := suffix
  exact .none fun token _ => token.kind.mem_all

end Meets

/-- An error as the parts of a program meet it: what is said of it is graphic, and it does not tell
of input behind the program. -/
structure SyntaxError.Inner (error : SyntaxError) : Prop where
  worded : Graphic error.message
  inside : error.fault ≠ .trailingInput

theorem SyntaxFault.unexpectedToken_inside (kind : Kind) :
    SyntaxFault.unexpectedToken kind ≠ .trailingInput := by
  rintro ⟨⟩

namespace Cursor

variable {kinds : List Kind} {sort : SyntaxError → Prop} {cursor : Cursor}

theorem meets_advance (listed : cursor.kind ∈ kinds) :
    Meets kinds sort cursor.upcoming [] cursor.advance.upcoming := by
  by_cases ended : cursor.kind = .eof
  · rw [advance_of_eof ended]
    exact .refl
  · have passed : ∀ token ∈ [cursor.current], token.kind ∈ kinds :=
      List.forall_mem_singleton.mpr listed
    rw [upcoming_eq_cons ended]
    exact .none passed

theorem advance_upcoming_suffix (cursor : Cursor) : cursor.advance.upcoming <:+ cursor.upcoming :=
  have meets : Meets Kind.all SyntaxError.Inner _ [] _ := meets_advance cursor.kind.mem_all
  meets.suffix

theorem meets_errorHere {fault : SyntaxFault} {message : String}
    (sorted : sort (cursor.errorHere fault message)) :
    Meets kinds sort cursor.upcoming [cursor.errorHere fault message] cursor.upcoming := by
  have here : Meets kinds sort ((cursor.errorHere fault message).token :: cursor.ahead) []
      cursor.upcoming := .refl
  exact .error (List.forall_mem_nil _) sorted here

theorem skipTo_upcoming_suffix (set : KindSet) (cursor : Cursor) :
    (cursor.skipTo set).upcoming <:+ cursor.upcoming := by
  fun_induction skipTo set cursor with
  | case1 | case2 => exact List.suffix_rfl
  | case3 cursor _ _ ih => exact ih.trans cursor.advance_upcoming_suffix

theorem eat_upcoming_suffix (cursor : Cursor) (kind : Kind) :
    (cursor.eat kind).upcoming <:+ cursor.upcoming := by
  unfold eat
  split
  · exact cursor.advance_upcoming_suffix
  · exact List.suffix_rfl

end Cursor

/-- A reading passes tokens of the kinds only, and fails where it stops.  What it yields may tell of
errors that were met on the way. -/
structure Reading.Meets {start : Cursor} {α : Type} (reading : Reading start α) (kinds : List Kind)
    (met : α → List SyntaxError := fun _ => []) : Prop where
  way : Sipl.Meets kinds SyntaxError.Inner start.upcoming (reading.errors met)
    reading.stop.upcoming
  here : ∀ error, reading.result = .error error → error.token = reading.stop.current

def Recovered.Meets {start : Cursor} {α : Type} (recovered : Recovered start α)
    (kinds : List Kind) : Prop :=
  Sipl.Meets kinds SyntaxError.Inner start.upcoming recovered.errors recovered.stop.upcoming

theorem Reading.Yields.ahead {start stop : Cursor} {α : Type} {reading : Reading start α}
    {kinds : List Kind} {met : α → List SyntaxError} {value : α}
    (yields : reading.Yields value stop) (meets : reading.Meets kinds met) :
    stop.upcoming <:+ start.upcoming :=
  yields.2 ▸ meets.way.suffix

theorem Recovered.Yields.ahead {start stop : Cursor} {α : Type} {recovered : Recovered start α}
    {kinds : List Kind} {value : α} {errors : List SyntaxError}
    (yields : recovered.Yields value errors stop) (meets : recovered.Meets kinds) :
    stop.upcoming <:+ start.upcoming :=
  yields.2.2 ▸ Sipl.Meets.suffix meets

namespace Reading

variable {start : Cursor} {α β : Type} {kinds more : List Kind} {met : β → List SyntaxError}

theorem meets_of_read {reading : Reading start β} {value : β} (read : reading.result = .ok value)
    (way : Sipl.Meets kinds SyntaxError.Inner start.upcoming (reading.errors met)
      reading.stop.upcoming) : reading.Meets kinds met :=
  ⟨way, fun _ failed => by cases read.symm.trans failed⟩

theorem meets_done {value : α} : (done value : Reading start α).Meets kinds :=
  meets_of_read rfl .refl

theorem meets_fail {fault : SyntaxFault} {message : String} (worded : Graphic message)
    (inside : fault ≠ .trailingInput) : (fail fault message : Reading start β).Meets kinds met := by
  refine ⟨Cursor.meets_errorHere ⟨worded, inside⟩, ?_⟩
  rintro _ ⟨⟩
  rfl

theorem Meets.mono {reading : Reading start β} (meets : reading.Meets kinds met)
    (within : kinds ⊆ more) : reading.Meets more met :=
  ⟨meets.way.mono within fun _ => id, meets.here⟩

/-- A reading that fails is all that is seen of a longer one. -/
theorem Meets.halt {error : SyntaxError} {early : α → List SyntaxError} {middle : Cursor}
    {bound : middle.remaining ≤ start.remaining}
    (meets : (⟨.error error, middle, bound⟩ : Reading start α).Meets kinds early) :
    (⟨.error error, middle, bound⟩ : Reading start β).Meets kinds met :=
  ⟨meets.way, fun _ failed => meets.here _ (congrArg _ (Except.error.inj failed))⟩

theorem meets_andThen {reading : Id (Reading start α)}
    {next : α → (later : Cursor) → later.remaining ≤ start.remaining → Id (Reading later β)}
    (first : reading.Meets kinds)
    (second : ∀ value later bound, (next value later bound).Meets kinds met) :
    (andThen reading next).Meets kinds met := by
  obtain ⟨result, middle, bound⟩ := reading
  cases result with
  | error error => exact first.halt
  | ok value =>
      obtain ⟨way, here⟩ := second value middle bound
      exact ⟨first.way.trans way, here⟩

/-- Behind a part in which errors were met, a reading that does not fail adds others to them. -/
theorem meets_andThen_met {reading : Id (Reading start α)} {early : α → List SyntaxError}
    {next : α → (later : Cursor) → later.remaining ≤ start.remaining → Id (Reading later β)}
    (first : reading.Meets kinds early)
    (second : ∀ value later bound, ∃ yielded others,
      (next value later bound).result = .ok yielded ∧ met yielded = early value ++ others ∧
        Sipl.Meets kinds SyntaxError.Inner later.upcoming others
          (next value later bound).stop.upcoming) :
    (andThen reading next).Meets kinds met := by
  obtain ⟨result, middle, bound⟩ := reading
  cases result with
  | error error => exact first.halt
  | ok value =>
      obtain ⟨yielded, others, read, added, way⟩ := second value middle bound
      have errors : (next value middle bound).errors met = early value ++ others := by
        rw [← added, errors, read]
      refine meets_of_read read ?_
      change Sipl.Meets kinds _ start.upcoming ((next value middle bound).errors met) _
      rw [errors]
      exact first.way.trans way

theorem meets_finish {reading : Id (Reading start α)} {make : α → Cursor → β}
    (meets : reading.Meets kinds fun value => met (make value reading.stop)) :
    (finish reading make).Meets kinds met := by
  obtain ⟨result, middle, bound⟩ := reading
  cases result with
  | error error => exact meets.halt
  | ok value => exact meets_of_read rfl meets.way

theorem meets_take {cursor : Cursor} {inside : cursor.kind ≠ .eof}
    {next : Token → (later : Cursor) → later.remaining < cursor.remaining → Reading later β}
    (listed : cursor.kind ∈ kinds)
    (behind : ∀ token later less, (next token later less).Meets kinds met) :
    (trees.take cursor inside next).Meets kinds met := by
  obtain ⟨way, here⟩ := behind cursor.current cursor.advance (Cursor.remaining_advance_lt inside)
  exact ⟨(Cursor.meets_advance listed).trans way, here⟩

theorem meets_expect {cursor : Cursor} {kind : Kind} {message : String} (listed : kind ∈ kinds)
    (worded : Graphic message) : (trees.expect cursor kind message).Meets kinds := by
  unfold Keeper.expect
  split
  · next found => exact meets_of_read rfl (Cursor.meets_advance (found ▸ listed))
  · exact meets_fail worded (SyntaxFault.unexpectedToken_inside kind)

theorem meets_expectName {cursor : Cursor} {message : String} (listed : .ident ∈ kinds)
    (worded : Graphic message) : (trees.expectName cursor message).Meets kinds := by
  unfold Keeper.expectName
  split
  · next found => exact meets_of_read rfl (Cursor.meets_advance (found ▸ listed))
  · exact meets_fail worded (by decide)

end Reading

namespace Recovered

variable {start : Cursor} {α β : Type} {kinds : List Kind}

theorem meets_done {value : α} : (done value : Recovered start α).Meets kinds := .refl

theorem meets_andThen {recovered : Id (Recovered start α)}
    {next : α → (later : Cursor) → later.remaining ≤ start.remaining → Id (Recovered later β)}
    (first : recovered.Meets kinds)
    (second : ∀ value later bound, (next value later bound).Meets kinds) :
    (andThen recovered next).Meets kinds :=
  first.trans (second _ _ recovered.bound)

theorem meets_finish {recovered : Id (Recovered start α)} {make : α → Cursor → β}
    (meets : recovered.Meets kinds) : (finish recovered make).Meets kinds :=
  meets

theorem meets_pass {cursor : Cursor} {inside : cursor.kind ≠ .eof}
    {next : (later : Cursor) → later.remaining < cursor.remaining → Recovered later α}
    (listed : cursor.kind ∈ kinds) (behind : ∀ later less, (next later less).Meets kinds) :
    (trees.pass cursor inside next).Meets kinds :=
  (Cursor.meets_advance listed).trans (behind _ _)

theorem meets_noted {recovered : Recovered start α} (meets : recovered.Meets kinds) :
    recovered.toReading.Meets kinds Prod.snd :=
  Reading.meets_of_read rfl meets

theorem meets_orSkip {reading : Reading start (α × List SyntaxError)} {boundary : KindSet}
    (meets : reading.Meets kinds Prod.snd) : (trees.orSkip reading boundary).Meets Kind.all := by
  have way := (meets.mono fun kind _ => kind.mem_all).way
  obtain ⟨result, middle, bound⟩ := reading
  cases result with
  | ok value => exact way
  | error error =>
      refine way.trans (.of_suffix ?_)
      exact (Keeper.stop_skip boundary middle) ▸ middle.skipTo_upcoming_suffix boundary

end Recovered

/-- The kinds of tokens that an expression is made of. -/
def exprKinds : List Kind :=
  [.leftParen, .rightParen, .comma, .slash, .star, .plus, .minus, .eq, .notEq, .lt, .ltEq, .gt,
    .gtEq, .number, .ident, .andWord, .orWord, .notWord, .ifWord, .thenWord, .elseWord, .trueWord,
    .falseWord]

namespace Reader

open Keeper

open Reading

theorem mem_exprKinds_of_arithOp {cursor : Cursor} {strength : ArithOp → Bool} {op : ArithOp}
    (found : operatorHere? cursor strength = some op) : cursor.kind ∈ exprKinds := by
  obtain ⟨known, _⟩ := Option.filter_eq_some_iff.mp found
  generalize cursor.kind = kind at known
  cases kind <;> first | decide | cases known

theorem mem_exprKinds_of_unaryOp {kind : Kind} {op : UnaryOp}
    (found : UnaryOp.ofKind? kind = some op) : kind ∈ exprKinds := by
  cases kind <;> first | decide | cases found

mutual

theorem meets_disjunction (cursor : Cursor) : (trees.disjunction cursor).Meets exprKinds := by
  rw [disjunction, during_trees]
  exact meets_andThen (meets_conjunction cursor) fun left later _ =>
    meets_disjunctionTail left later
termination_by cursor.remaining * 16 + 11

theorem meets_disjunctionTail (left : Expr) (cursor : Cursor) :
    (trees.disjunctionTail left cursor).Meets exprKinds := by
  rw [disjunctionTail]
  split
  · next found =>
      rw [during_trees]
      refine meets_take (by simp [found, exprKinds]) fun operator behind _ => ?_
      exact meets_andThen (meets_conjunction behind) fun _ later _ => meets_disjunctionTail _ later
  · exact meets_done
termination_by cursor.remaining * 16 + 10

theorem meets_conjunction (cursor : Cursor) : (trees.conjunction cursor).Meets exprKinds := by
  rw [conjunction, during_trees]
  exact meets_andThen (meets_comparison cursor) fun left later _ => meets_conjunctionTail left later
termination_by cursor.remaining * 16 + 9

theorem meets_conjunctionTail (left : Expr) (cursor : Cursor) :
    (trees.conjunctionTail left cursor).Meets exprKinds := by
  rw [conjunctionTail]
  split
  · next found =>
      rw [during_trees]
      refine meets_take (by simp [found, exprKinds]) fun operator behind _ => ?_
      exact meets_andThen (meets_unary behind) fun _ later _ => meets_conjunctionTail _ later
  · exact meets_done
termination_by cursor.remaining * 16 + 8

theorem meets_comparison (cursor : Cursor) : (trees.comparison cursor).Meets exprKinds := by
  rw [comparison, during_trees]
  refine meets_andThen (meets_additive cursor) fun left later _ => ?_
  split
  · next op found =>
      refine meets_take (mem_exprKinds_of_arithOp found) fun operator behind _ => ?_
      exact meets_finish (meets_additive behind)
  · exact meets_done
termination_by cursor.remaining * 16 + 7

theorem meets_additive (cursor : Cursor) : (trees.additive cursor).Meets exprKinds := by
  rw [additive, during_trees]
  exact meets_andThen (meets_multiplicative cursor) fun left later _ =>
    meets_additiveTail left later
termination_by cursor.remaining * 16 + 6

theorem meets_additiveTail (left : Expr) (cursor : Cursor) :
    (trees.additiveTail left cursor).Meets exprKinds := by
  rw [additiveTail]
  split
  · next op found =>
      rw [during_trees]
      refine meets_take (mem_exprKinds_of_arithOp found) fun operator behind _ => ?_
      exact meets_andThen (meets_multiplicative behind) fun _ later _ => meets_additiveTail _ later
  · exact meets_done
termination_by cursor.remaining * 16 + 5

theorem meets_multiplicative (cursor : Cursor) : (trees.multiplicative cursor).Meets exprKinds := by
  rw [multiplicative, during_trees]
  refine meets_andThen (meets_unary cursor) fun left later _ => ?_
  split
  · next op found =>
      refine meets_take (mem_exprKinds_of_arithOp found) fun operator behind _ => ?_
      exact meets_finish (meets_multiplicative behind)
  · exact meets_done
termination_by cursor.remaining * 16 + 4

theorem meets_unary (cursor : Cursor) : (trees.unary cursor).Meets exprKinds := by
  rw [unary, during_trees]
  split
  · next op found =>
      refine meets_take (mem_exprKinds_of_unaryOp found) fun operator behind _ => ?_
      exact meets_finish (meets_unary behind)
  · exact meets_primary cursor
termination_by cursor.remaining * 16 + 3

theorem meets_primary (cursor : Cursor) : (trees.primary cursor).Meets exprKinds := by
  rw [primary, during_trees]
  split
  · next found =>
      refine meets_take (by simp [found, exprKinds]) fun _ behind _ => ?_
      refine meets_andThen (meets_comparison behind) fun _ later _ => ?_
      exact meets_finish (meets_expect (by decide) (by decide))
  · next found =>
      rw [during_trees]
      exact meets_take (by simp [found, exprKinds]) fun word behind _ =>
        meets_conditional word behind
  · next found =>
      split
      · exact meets_take (by simp [found, exprKinds]) fun token _ _ => meets_done
      · exact meets_fail (by decide) (by decide)
  · next found => exact meets_take (by simp [found, exprKinds]) fun token _ _ => meets_done
  · next found => exact meets_take (by simp [found, exprKinds]) fun token _ _ => meets_done
  · next found =>
      rw [during_trees]
      split
      · exact meets_take (by simp [found, exprKinds]) fun name behind _ => meets_call name behind
      · exact meets_take (by simp [found, exprKinds]) fun name _ _ => meets_done
  · exact meets_fail (by decide) (by decide)
termination_by cursor.remaining * 16 + 2

theorem meets_conditional (word : Token) (cursor : Cursor) :
    (trees.conditional word cursor).Meets exprKinds := by
  rw [conditional]
  refine meets_andThen (meets_disjunction cursor) fun cond afterCond _ => ?_
  refine meets_andThen (meets_expect (by decide) (by decide)) fun _ behindThen _ => ?_
  refine meets_andThen (meets_comparison behindThen) fun thenBranch afterThen _ => ?_
  split
  · next found =>
      refine meets_take (by simp [found, exprKinds]) fun _ behindElse _ => ?_
      exact meets_finish (meets_comparison behindElse)
  · exact meets_done
termination_by cursor.remaining * 16 + 12

theorem meets_call (name : Token) (cursor : Cursor) :
    (trees.call name cursor).Meets exprKinds := by
  rw [call]
  refine meets_andThen (meets_expect (by decide) (by decide)) fun _ behind _ => ?_
  exact meets_finish (meets_arguments behind)
termination_by cursor.remaining * 16 + 15

theorem meets_arguments (cursor : Cursor) : (trees.arguments cursor).Meets exprKinds := by
  rw [arguments]
  split
  · next found => exact meets_take (by simp [found, exprKinds]) fun _ _ _ => meets_done
  · refine meets_andThen (meets_comparison cursor) fun _ later _ => ?_
    exact meets_finish (meets_argumentsTail later)
termination_by cursor.remaining * 16 + 14

theorem meets_argumentsTail (cursor : Cursor) : (trees.argumentsTail cursor).Meets exprKinds := by
  rw [argumentsTail]
  split
  · next found => exact meets_take (by simp [found, exprKinds]) fun _ _ _ => meets_done
  · split
    · next found =>
        rw [during_trees]
        refine meets_take (by simp [found, exprKinds]) fun _ behind _ => ?_
        refine meets_andThen (meets_comparison behind) fun _ later _ => ?_
        exact meets_finish (meets_argumentsTail later)
    · exact meets_fail (by decide) (by decide)
termination_by cursor.remaining * 16 + 13

end

/-- The kinds of tokens that an assignment is made of. -/
def assignmentKinds : List Kind := .assign :: exprKinds

/-- A statement that is no choice and no loop is an assignment if it is one at all. -/
theorem meets_assignment {cursor : Cursor} (choice : cursor.kind ≠ .ifWord)
    (loop : cursor.kind ≠ .whileWord) :
    (trees.statement cursor).Meets assignmentKinds Prod.snd := by
  have within : exprKinds ⊆ assignmentKinds := List.subset_cons_self _ _
  rw [statement, during_trees]
  split
  · next found => exact absurd found choice
  · next found => exact absurd found loop
  · next found =>
      refine meets_take (by simp [found, assignmentKinds, exprKinds]) fun name behind _ => ?_
      refine meets_andThen (meets_expect (by decide) (by decide)) fun _ behindAssign _ => ?_
      exact meets_finish ((meets_disjunction behindAssign).mono within)
  · exact meets_fail (by decide) (by decide)

theorem meets_abandonBlock (cursor : Cursor) (missing : Kind) {message : String}
    (worded : Graphic message) : (trees.abandonBlock cursor missing message).Meets Kind.all := by
  have inner : (cursor.errorHere (.unexpectedToken missing) message).Inner :=
    ⟨worded, SyntaxFault.unexpectedToken_inside missing⟩
  rw [Recovered.Meets, errors_abandonBlock, stop_abandonBlock]
  exact (Cursor.meets_errorHere inner).trans (.of_suffix
    ((Cursor.eat_upcoming_suffix _ _).trans (cursor.skipTo_upcoming_suffix _)))

theorem meets_closeBlock (cursor : Cursor) : (trees.closeBlock cursor).Meets Kind.all := by
  unfold closeBlock
  split
  · exact Recovered.meets_pass (Kind.mem_all _) fun _ _ => Recovered.meets_done
  · exact meets_abandonBlock cursor _ (by decide)

theorem meets_expr {start : Cursor} {reading : Reading start Expr}
    (meets : reading.Meets exprKinds) : reading.Meets Kind.all :=
  meets.mono fun kind _ => kind.mem_all

mutual

theorem meets_block (cursor : Cursor) : (trees.block cursor).Meets Kind.all := by
  rw [block, during_trees]
  split
  · refine Recovered.meets_pass (Kind.mem_all _) fun behind _ => ?_
    refine Recovered.meets_andThen (meets_statements behind) fun stmts later _ => ?_
    exact Recovered.meets_finish (meets_closeBlock later)
  · exact Recovered.meets_finish (meets_abandonBlock cursor _ (by decide))
termination_by cursor.remaining * 4 + 2

theorem meets_statements (cursor : Cursor) : (trees.statements cursor).Meets Kind.all := by
  rw [statements]
  have first := meets_statement cursor
  refine Recovered.meets_andThen (Recovered.meets_orSkip first) fun _ later _ => ?_
  split
  · refine Recovered.meets_pass (Kind.mem_all _) fun behind _ => ?_
    exact Recovered.meets_finish (meets_statements behind)
  · exact Recovered.meets_done
termination_by cursor.remaining * 4 + 1

theorem meets_statement (cursor : Cursor) : (trees.statement cursor).Meets Kind.all Prod.snd := by
  by_cases choice : cursor.kind = .ifWord
  · rw [statement, during_trees]
    split
    · refine meets_take (Kind.mem_all _) fun word behind _ => ?_
      refine meets_andThen (meets_expr (meets_disjunction behind)) fun cond afterCond _ => ?_
      refine meets_andThen (meets_expect (Kind.mem_all _) (by decide)) fun _ behindThen _ => ?_
      have first := Recovered.meets_noted (meets_block behindThen)
      refine meets_andThen_met first fun (_, errors) afterThen _ => ?_
      dsimp only
      split
      · next again =>
          have inside : afterThen.kind ≠ .eof := by simp [again]
          have less := Cursor.remaining_advance_lt inside
          refine ⟨_, (trees.block afterThen.advance).errors, rfl, rfl, ?_⟩
          exact (Cursor.meets_advance (Kind.mem_all _)).trans (meets_block afterThen.advance)
      · exact ⟨_, [], rfl, (List.append_nil _).symm, .refl⟩
    all_goals simp_all
  · by_cases loop : cursor.kind = .whileWord
    · rw [statement, during_trees]
      split
      · simp_all
      · refine meets_take (Kind.mem_all _) fun word behind _ => ?_
        refine meets_andThen (meets_expr (meets_disjunction behind)) fun cond afterCond _ => ?_
        refine meets_andThen (meets_expect (Kind.mem_all _) (by decide)) fun _ behindDo _ => ?_
        exact meets_finish (Recovered.meets_noted (meets_block behindDo))
      all_goals simp_all
    · exact (meets_assignment choice loop).mono fun kind _ => kind.mem_all
termination_by cursor.remaining * 4

end

theorem meets_paramsTail (cursor : Cursor) : (trees.paramsTail cursor).Meets exprKinds := by
  rw [paramsTail]
  split
  · next found =>
      rw [during_trees]
      refine meets_take (by simp [found, exprKinds]) fun _ behind _ => ?_
      refine meets_andThen (meets_expectName (by decide) (by decide)) fun name later _ => ?_
      exact meets_finish (meets_paramsTail later)
  · exact meets_done
termination_by cursor.remaining

theorem meets_params (cursor : Cursor) : (trees.params cursor).Meets exprKinds := by
  rw [params, during_trees]
  split
  · exact meets_done
  · refine meets_andThen (meets_expectName (by decide) (by decide)) fun name later _ => ?_
    exact meets_finish (meets_paramsTail later)

theorem meets_function (word : Token) (cursor : Cursor) :
    (trees.function word cursor).Meets exprKinds Prod.snd := by
  unfold function
  refine meets_andThen (meets_expectName (by decide) (by decide)) fun name behindName _ => ?_
  refine meets_andThen (meets_expect (by decide) (by decide)) fun _ behindOpen _ => ?_
  refine meets_andThen (meets_params behindOpen) fun params afterParams _ => ?_
  refine meets_andThen (meets_expect (by decide) (by decide)) fun _ behindClose _ => ?_
  refine meets_andThen (meets_expect (by decide) (by decide)) fun _ behindEq _ => ?_
  exact meets_finish (meets_comparison behindEq)

theorem meets_functions (cursor : Cursor) : (trees.functions cursor).Meets Kind.all := by
  rw [functions]
  split
  · refine Recovered.meets_pass (Kind.mem_all _) fun behind _ => ?_
    have first := meets_function cursor.current behind
    refine Recovered.meets_andThen (Recovered.meets_orSkip first) fun declared later _ => ?_
    split
    · refine Recovered.meets_pass (Kind.mem_all _) fun next _ => ?_
      exact Recovered.meets_finish (meets_functions next)
    · split
      · exact meets_functions later
      · exact Recovered.meets_done
  · exact Recovered.meets_done
termination_by cursor.remaining

end Reader

end Sipl
